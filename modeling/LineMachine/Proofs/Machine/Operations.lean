import LineMachine.Proofs.Machine.Failure
import LineMachine.Proofs.Machine.Reachable

/-!
# Operations on a machine

Calls are not all that can be done with a machine: an instruction may be executed on it from
outside, whatever its status and its place, and its place and its names may be looked at.
Whatever is done, the store changes only when a program is loaded, which takes the names
away, and when an instruction is executed.

**Input.**  Any sequence of operations.

**Results.**
* `Machine.Operation`, `Machine.operate`: what can be done with a machine.
* `Machine.ExecutesDuring`: the instructions that are executed during some operations.
* `Machine.operate_invariant`: the rule for properties of the store.
* `Machine.closed_operate`: variables and lists hold existing lists only.
-/

namespace LineMachine
namespace Machine

/-- What can be done with a machine. -/
inductive Operation where
  | call (c : Call)
  | execute (inst : Instruction)
  | snapshot

/-- The machine after an operation. -/
def Operation.perform : Operation → Machine → Machine
  | call c, m => c.perform m
  | execute inst, m => final (Machine.execute inst m)
  | snapshot, m => m

/-- The machine after a sequence of operations. -/
def operate (m : Machine) : List Operation → Machine
  | [] => m
  | op :: ops => (op.perform m).operate ops

/-- How many steps an operation is allowed. -/
def Operation.steps : Operation → Nat
  | call (.load _) | execute _ | snapshot => 0
  | call .step => 1
  | call (.run patience budget) => stepsAllowed patience budget

/-- An instruction that is executed, with the machine before and after it. -/
structure Transition where
  before : Machine
  inst : Instruction
  after : Machine

/-- The operation executes an instruction when it is performed on the machine: in one of its
steps, or because it is the execution of the instruction. -/
inductive Operation.Executes : Operation → Machine → Transition → Prop
  | step {op : Operation} {m : Machine} {k : Nat} {inst : Instruction} (hk : k < op.steps)
      (hinst : (next^[k] m).Executes inst) : Executes op m ⟨next^[k] m, inst, (next^[k] m).next⟩
  | outside {m m' : Machine} {inst : Instruction} {line : Int}
      (hinst : Machine.execute inst m = .ok line m') : Executes (.execute inst) m ⟨m, inst, m'⟩

/-- One of the operations executes an instruction when all are performed in order. -/
inductive ExecutesDuring : List Operation → Machine → Transition → Prop
  | now {op : Operation} {ops : List Operation} {m : Machine} {t : Transition}
      (ht : op.Executes m t) : ExecutesDuring (op :: ops) m t
  | later {op : Operation} {ops : List Operation} {m : Machine} {t : Transition}
      (ht : ExecutesDuring ops (op.perform m) t) : ExecutesDuring (op :: ops) m t

section Transitions

variable {m : Machine} {op : Operation} {ops : List Operation} {t : Transition}

theorem effect_of_execute {m' : Machine} {inst : Instruction} {line : Int}
    (h : Machine.execute inst m = .ok line m') :
    ∃ control, Effect inst m.store control m'.store := by
  obtain ⟨program, store, pc, status, fault, steps⟩ := m
  cases hexec : inst.execute store with
  | ok control s' =>
      simp only [Machine.execute, hexec] at h
      cases h
      exact ⟨control, Instruction.effect_of_execute hexec⟩
  | error e s' =>
      simp only [Machine.execute, hexec] at h
      cases h

/-- An instruction that is executed has its effect. -/
theorem Operation.Executes.exists_effect (ht : op.Executes m t) :
    ∃ control, Effect t.inst t.before.store control t.after.store := by
  cases ht with
  | step hk hinst =>
      obtain ⟨control, s', heffect, hnext⟩ := hinst.exists_effect
      refine ⟨control, ?_⟩
      rw [hnext]
      exact heffect
  | outside hinst => exact effect_of_execute hinst

theorem ExecutesDuring.exists_effect (ht : ExecutesDuring ops m t) :
    ∃ control, Effect t.inst t.before.store control t.after.store := by
  induction ht with
  | now ht => exact ht.exists_effect
  | later _ ih => exact ih

end Transitions

section Invariants

variable {Q : Store → Prop} {m : Machine} {op : Operation} {ops : List Operation}

/-- Steps change the store only where they execute an instruction. -/
theorem iterate_store_invariant (hm : Q m.store)
    (hexec : ∀ t, op.Executes m t → Q t.before.store → Q t.after.store) {n : Nat}
    (hn : n ≤ op.steps) : Q (next^[n] m).store := by
  induction n with
  | zero => exact hm
  | succ n ih =>
      have hbefore := ih (Nat.le_of_succ_le hn)
      rw [Function.iterate_succ_apply']
      by_cases hinst : ∃ inst, (next^[n] m).Executes inst
      · obtain ⟨inst, hinst⟩ := hinst
        exact hexec _ (.step hn hinst) hbefore
      · rw [store_next fun inst h => hinst ⟨inst, h⟩]
        exact hbefore

/-- **What loading keeps and the instructions keep that an operation executes, the operation
keeps.** -/
theorem Operation.perform_invariant (hm : Q m.store)
    (hload : ∀ s, Q s → Q ⟨.empty, s.heap⟩)
    (hexec : ∀ t, op.Executes m t → Q t.before.store → Q t.after.store) :
    Q (op.perform m).store := by
  cases op with
  | call c =>
      cases c with
      | load program => exact hload _ hm
      | step => exact iterate_store_invariant hm hexec (Nat.le_refl 1)
      | run patience budget =>
          have hrun : (Call.run patience budget).perform m =
              next^[stepsAllowed patience budget] m := final_runFor _ m
          rw [perform, hrun]
          exact iterate_store_invariant hm hexec (Nat.le_refl _)
  | execute inst =>
      rw [perform]
      cases hinst : Machine.execute inst m with
      | ok line m' => exact hexec _ (.outside hinst) hm
      | error e m' =>
          obtain ⟨rfl, _⟩ := execute_eq_error_iff.mp hinst
          exact hm
  | snapshot => exact hm

/-- **The rule for properties of the store**, for a sequence of operations. -/
theorem operate_invariant (hm : Q m.store)
    (hload : ∀ s, Q s → Q ⟨.empty, s.heap⟩)
    (hexec : ∀ t, ExecutesDuring ops m t → Q t.before.store → Q t.after.store) :
    Q (m.operate ops).store := by
  induction ops generalizing m with
  | nil => exact hm
  | cons op ops ih =>
      have hop := Operation.perform_invariant hm hload fun t ht => hexec t (.now ht)
      exact ih hop fun t ht => hexec t (.later ht)

/-- **Variables and lists hold existing lists only**, whatever is done. -/
theorem closed_operate (hm : m.store.Closed) (ops : List Operation) :
    (m.operate ops).store.Closed := by
  refine operate_invariant hm (fun s hs => closed_of_memory_empty hs.heap) fun t ht hbefore => ?_
  obtain ⟨control, heffect⟩ := ht.exists_effect
  exact Instruction.closed_of_effect hbefore heffect

end Invariants

end Machine
end LineMachine
