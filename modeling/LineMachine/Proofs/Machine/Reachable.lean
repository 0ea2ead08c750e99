import LineMachine.Proofs.Instruction.Confinement
import LineMachine.Proofs.Machine.Step

/-!
# Reachable machines

Whoever has a machine may load a program, make it step or let it run, in any
order and with any budgets.  A run is a number of steps, so that what holds of new
machines, and is kept by loading and by stepping, holds of all that are reached.

**Results.**
* `Machine.Reachable.invariant`: the rule for properties of all reachable machines.
* `Machine.after_eq_iterate`: calls that load no program are a number of steps.
* `Machine.closed_of_reachable`: variables and lists hold existing lists only.
-/

namespace LineMachine
namespace Machine

/-- What can be asked of a machine. -/
inductive Call where
  | load (program : Array String)
  | step
  | run (patience : Nat) (budget : Option Int)

/-- The machine after a call. -/
def Call.perform : Call → Machine → Machine
  | load program, m => m.load program
  | step, m => m.next
  | run patience budget, m => final (Machine.run patience budget m)

/-- The machine after a sequence of calls. -/
def after (m : Machine) : List Call → Machine
  | [] => m
  | c :: calls => (c.perform m).after calls

/-- The machines that calls lead to from new machines. -/
inductive Reachable : Machine → Prop
  | start (program : Array String) : Reachable (ofProgram program)
  | call {m : Machine} (c : Call) : Reachable m → Reachable (c.perform m)

section Invariants

variable {P : Machine → Prop}

theorem iterate_invariant
    (hnext : ∀ m, P m → P m.next)
    {m : Machine} (hm : P m) (n : Nat) :
    P (next^[n] m) := by
  induction n with
  | zero => exact hm
  | succ n ih =>
      rw [Function.iterate_succ_apply']
      exact hnext _ ih

/-- A call that loads no program is a number of steps. -/
theorem Call.perform_eq_iterate {c : Call}
    (hc : ∀ program, c ≠ .load program)
    (m : Machine) :
    ∃ k, c.perform m = next^[k] m := by
  cases c with
  | load program => exact absurd rfl (hc program)
  | step => exact ⟨1, rfl⟩
  | run patience budget => exact ⟨stepsAllowed patience budget, final_runFor _ m⟩

theorem Call.perform_invariant
    (hload : ∀ m program, P m → P (m.load program))
    (hnext : ∀ m, P m → P m.next)
    {m : Machine} (hm : P m) (c : Call) :
    P (c.perform m) := by
  by_cases hc : ∃ program, c = .load program
  · obtain ⟨program, rfl⟩ := hc
    exact hload m program hm
  · obtain ⟨k, hk⟩ := c.perform_eq_iterate (fun program h => hc ⟨program, h⟩) m
    rw [hk]
    exact iterate_invariant hnext hm k

theorem after_invariant
    (hload : ∀ m program, P m → P (m.load program))
    (hnext : ∀ m, P m → P m.next)
    {m : Machine} (hm : P m) (calls : List Call) :
    P (m.after calls) := by
  induction calls generalizing m with
  | nil => exact hm
  | cons c calls ih => exact ih (c.perform_invariant hload hnext hm)

/-- **What new machines have, and loading and stepping keep, all reachable
machines have.** -/
theorem Reachable.invariant
    (hstart : ∀ program, P (ofProgram program))
    (hload : ∀ m program, P m → P (m.load program))
    (hnext : ∀ m, P m → P m.next)
    {m : Machine} (hm : Reachable m) :
    P m := by
  induction hm with
  | start program => exact hstart program
  | call c _ ih => exact Call.perform_invariant hload hnext ih c

theorem Reachable.next {m : Machine} (hm : Reachable m) : Reachable m.next :=
  Reachable.call .step hm

theorem Reachable.iterate {m : Machine} (hm : Reachable m) (n : Nat) :
    Reachable (Machine.next^[n] m) :=
  iterate_invariant (fun _ h => Reachable.next h) hm n

theorem after_eq_iterate {calls : List Call}
    (hcalls : ∀ program, Call.load program ∉ calls)
    (m : Machine) :
    ∃ k, m.after calls = Machine.next^[k] m := by
  induction calls generalizing m with
  | nil => exact ⟨0, rfl⟩
  | cons c calls ih =>
      obtain ⟨k, hk⟩ := c.perform_eq_iterate
        (fun program h => hcalls program (List.mem_cons.mpr (Or.inl h.symm))) m
      obtain ⟨j, hj⟩ := ih
        (fun program h => hcalls program (List.mem_cons_of_mem _ h)) (c.perform m)
      refine ⟨j + k, ?_⟩
      rw [Function.iterate_add_apply, ← hk, ← hj, after]

end Invariants

section Closed

theorem closed_next {m : Machine} (hm : m.store.Closed) : m.next.store.Closed := by
  refine store_next_cases hm fun inst control s' _ heffect => ?_
  exact Instruction.closed_of_effect hm heffect

theorem closed_of_memory_empty {h : Heap} (hh : h.Closed) : Store.Closed ⟨.empty, h⟩ := by
  refine ⟨hh, fun {name v} hv => ?_⟩
  cases hv

/-- **Variables and lists hold existing lists only.** -/
theorem closed_of_reachable {m : Machine} (hm : Reachable m) : m.store.Closed := by
  refine hm.invariant (P := fun m => m.store.Closed) (fun program => ?_)
    (fun m program hclosed => ?_) (fun m hclosed => closed_next hclosed)
  · exact closed_of_memory_empty Heap.closed_empty
  · exact closed_of_memory_empty hclosed.heap

end Closed

end Machine
end LineMachine
