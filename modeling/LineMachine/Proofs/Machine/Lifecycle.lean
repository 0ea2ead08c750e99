import LineMachine.CommandLine.Message
import LineMachine.Proofs.Machine.Reachable

/-!
# The life of a machine

A machine runs until it halts or meets a fault.  Whether it has a fault, where it
stands and what its line would do again follow from its status; and a machine
that has stopped stays as it is.

**Invariant.**  A fault is the one that the line at the place of the machine meets
in the store of the machine.  This survives the step that meets it because a
failing line leaves the store as it was.

**Results.**
* `Machine.Lifecycle`: the invariant.
* `Machine.lifecycle_next`: a step keeps it.
* `Machine.run_of_stopped`: a machine that has stopped stays as it is.
* `Machine.status_tells_all`: what the status of a reachable machine tells.
-/

namespace LineMachine
namespace Machine

section Places

variable {program : Array String} {pc : Int}

theorem lineAt?_eq_some {line : String} (hline : lineAt? program pc = some line) :
    0 ≤ pc ∧ pc < program.size ∧ program[pc.toNat]? = some line := by
  unfold lineAt? at hline
  split at hline
  · rename_i hpc
    obtain ⟨hlt, _⟩ := Array.getElem?_eq_some_iff.mp hline
    exact ⟨hpc, by omega, hline⟩
  · cases hline

theorem lineAt?_eq_none (hline : lineAt? program pc = none) :
    ¬ (0 ≤ pc ∧ pc < program.size) := by
  rintro ⟨hpc, hlt⟩
  rw [lineAt?, if_pos hpc, Array.getElem?_eq_none_iff] at hline
  omega

end Places

/-- The status of a machine agrees with its fault and its place. -/
structure Lifecycle (m : Machine) : Prop where
  fault : m.fault.isSome = true ↔ m.status = .faulted
  faulted : ∀ f, m.fault = some f →
    ∃ line, m.line? = some line ∧
      Instruction.executeLine line m.store = .error (.fault f) m.store
  halted : m.status = .halted →
    m.line? = none ∨ ∃ line, m.line? = some line ∧ Instruction.decode line = .ok .halt

section Steps

variable {m : Machine}

theorem lifecycle_load (program : Array String) (m : Machine) :
    Lifecycle (m.load program) where
  fault := by simp [load]
  faulted := by simp [load]
  halted := by simp [load]

theorem fault_eq_none (hm : Lifecycle m) (hrunning : m.status = .running) :
    m.fault = none := by
  cases hfault : m.fault with
  | none => rfl
  | some f =>
      have hfaulted := hm.fault.mp (by rw [hfault]; rfl)
      rw [hrunning] at hfaulted
      cases hfaulted

theorem lifecycle_next (hm : Lifecycle m) : Lifecycle m.next := by
  cases outcome m with
  | stopped hstatus _ =>
      rw [next_of_stopped hstatus]
      exact hm
  | left hrunning hline hstep =>
      have hnone := fault_eq_none hm hrunning
      rw [next, hstep, final]
      refine ⟨?_, fun f hf => ?_, fun _ => Or.inl hline⟩
      · simp [hnone]
      · rw [hnone] at hf
        cases hf
  | @executed line inst control s' hrunning hline hdecode heffect hstep =>
      have hnone := fault_eq_none hm hrunning
      rw [next, hstep, final]
      refine ⟨?_, fun f hf => ?_, fun hhalted => ?_⟩
      · cases control <;> simp [executed, hnone, Control.statusAfter]
      · have hf' : m.fault = some f := hf
        rw [hnone] at hf'
        cases hf'
      · -- only the halting instruction halts, and it does not move on
        cases control with
        | next => cases hhalted
        | jump target => cases hhalted
        | halt =>
            obtain rfl := Instruction.eq_halt_of_effect heffect
            exact Or.inr ⟨line, hline, hdecode⟩
  | @faulted line f hrunning hline hfault hstep =>
      rw [next, hstep, final]
      refine ⟨by simp, fun g hg => ?_, fun hhalted => ?_⟩
      · cases hg
        exact ⟨line, hline, hfault⟩
      · cases hhalted
  | escaped _ _ _ hstep =>
      rw [next, hstep, final]
      exact hm

theorem lifecycle_of_reachable (hm : Reachable m) : Lifecycle m := by
  refine hm.invariant (P := Lifecycle) (fun program => ?_)
    (fun m program _ => lifecycle_load program m) (fun m h => lifecycle_next h)
  exact lifecycle_load program (ofProgram program)

theorem run_of_stopped (hstatus : m.status ≠ .running) (patience : Nat) (budget : Option Int) :
    run patience budget m = .ok m.status m := by
  rw [run]
  cases stepsAllowed patience budget with
  | zero => rfl
  | succ n => exact runFor_succ_of_stopped n (step_of_stopped hstatus) hstatus

end Steps

/-- **The status of a reachable machine tells whether it has a fault, where it
stands and what it will do.** -/
theorem status_tells_all {m : Machine} (hm : Reachable m) :
    (m.fault.isSome = true ↔ m.status = .faulted) ∧
    (m.status = .faulted →
      0 ≤ m.pc ∧ m.pc < m.program.size ∧
        ∃ line f, m.program[m.pc.toNat]? = some line ∧ m.fault = some f ∧
          m.faultReport? = some ⟨m.pc, f, line⟩ ∧
          Instruction.executeLine line m.store = .error (.fault f) m.store) ∧
    (m.status = .halted →
      ¬ (0 ≤ m.pc ∧ m.pc < m.program.size) ∨
        ∃ line, m.program[m.pc.toNat]? = some line ∧
          Instruction.decode line = .ok .halt) ∧
    (m.status ≠ .running →
      step m = .ok m.status m ∧
        ∀ patience budget, run patience budget m = .ok m.status m) := by
  have hlife := lifecycle_of_reachable hm
  refine ⟨hlife.fault, fun hfaulted => ?_, fun hhalted => ?_, fun hstopped => ?_⟩
  · obtain ⟨f, hf⟩ := Option.isSome_iff_exists.mp (hlife.fault.mpr hfaulted)
    obtain ⟨line, hline, hexec⟩ := hlife.faulted f hf
    obtain ⟨hpc, hlt, hget⟩ := lineAt?_eq_some hline
    exact ⟨hpc, hlt, line, f, hget, hf, faultReport?_eq_some hf hline, hexec⟩
  · rcases hlife.halted hhalted with hline | ⟨line, hline, hdecode⟩
    · exact Or.inl (lineAt?_eq_none hline)
    · exact Or.inr ⟨line, (lineAt?_eq_some hline).2.2, hdecode⟩
  · exact ⟨step_of_stopped hstopped, run_of_stopped hstopped⟩

/-- A machine that has met a fault in a run. -/
def outOfRange : Machine :=
  (Call.run 9 none).perform (ofProgram #["VARLIST x 7", "SET 1 1 x", "HLT"])

/-- A machine that has jumped to a line before the first. -/
def beforeFirst : Machine :=
  (Call.run 9 none).perform (ofProgram #["VARINT x 0", "IF x -3", "HLT"])

theorem status_tells_all_outOfRange_and_beforeFirst :
    (outOfRange.status = .faulted ∧ outOfRange.fault.isSome = true ∧
      outOfRange.pc < outOfRange.program.size ∧
      step outOfRange = .ok .faulted outOfRange) ∧
    (beforeFirst.status = .halted ∧
      (¬ (0 ≤ beforeFirst.pc ∧ beforeFirst.pc < beforeFirst.program.size) ∨
        ∃ line, beforeFirst.program[beforeFirst.pc.toNat]? = some line ∧
          Instruction.decode line = .ok .halt) ∧
      step beforeFirst = .ok .halted beforeFirst) := by
  have hfaulted : outOfRange.status = .faulted := by decide
  have hhalted : beforeFirst.status = .halted := by decide
  have houtside := status_tells_all (Reachable.call (.run 9 none)
    (Reachable.start #["VARLIST x 7", "SET 1 1 x", "HLT"]))
  have hbefore := status_tells_all (Reachable.call (.run 9 none)
    (Reachable.start #["VARINT x 0", "IF x -3", "HLT"]))
  refine ⟨⟨hfaulted, houtside.1.mpr hfaulted, (houtside.2.1 hfaulted).2.1, ?_⟩,
    hhalted, hbefore.2.2.1 hhalted, ?_⟩
  · have hstep := (houtside.2.2.2 (by decide)).1
    exact hstep
  · have hstep := (hbefore.2.2.2 (by decide)).1
    exact hstep

end Machine
end LineMachine
