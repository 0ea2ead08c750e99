import LineMachine.Proofs.Instruction.Decoding
import LineMachine.Proofs.Machine.Lifecycle

/-!
# Runs that end at a line that cannot be read

No step changes the program.  So a machine that has met a decode error after its
program was loaded stands on a line of this program that cannot be read, and its
report quotes the line.

**Results.**
* `Machine.program_iterate`: steps keep the program.
* `Machine.unreadable_line_of_fault`: where a run stands that has met a decode error.
-/

namespace LineMachine
namespace Machine

theorem program_next (m : Machine) : m.next.program = m.program := by
  cases outcome m with
  | stopped _ hstep => rw [next, hstep, final]
  | left _ _ hstep => rw [next, hstep, final]
  | executed _ _ _ _ hstep => rw [next, hstep, final, executed]
  | faulted _ _ _ hstep => rw [next, hstep, final]
  | escaped _ _ _ hstep => rw [next, hstep, final]

theorem program_iterate (m : Machine) (n : Nat) : (next^[n] m).program = m.program := by
  refine iterate_invariant (P := fun m' => m'.program = m.program) (fun m' h => ?_) rfl n
  exact (program_next m').trans h

/-- **A run that has met a decode error stands on a line that cannot be read.**  The
report of the machine has the number of the line, the error and the line itself. -/
theorem unreadable_line_of_fault {m : Machine} {program : Array String} {calls : List Call}
    (hcalls : ∀ other, Call.load other ∉ calls) {e : DecodeError}
    (hfault : ((m.load program).after calls).fault = some (.decode e)) :
    ∃ (i : Nat) (line : String),
      program[i]? = some line ∧ Instruction.decode line = .error (.fault (.decode e)) ∧
      ((m.load program).after calls).pc = i ∧
      ((m.load program).after calls).status = .faulted ∧
      ((m.load program).after calls).faultReport? = some ⟨i, .decode e, line⟩ := by
  obtain ⟨k, hk⟩ := after_eq_iterate hcalls (m.load program)
  rw [hk] at hfault ⊢
  have hprogram : (next^[k] (m.load program)).program = program := program_iterate _ k
  have hlife : Lifecycle (next^[k] (m.load program)) :=
    iterate_invariant (fun _ h => lifecycle_next h) (lifecycle_load program m) k
  obtain ⟨line, hline, hexec⟩ := hlife.faulted _ hfault
  obtain ⟨hpos, _, hget⟩ := lineAt?_eq_some hline
  rw [hprogram] at hget
  have hpc : (next^[k] (m.load program)).pc = ((next^[k] (m.load program)).pc.toNat : Int) :=
    (Int.toNat_of_nonneg hpos).symm
  refine ⟨_, line, hget, (Instruction.executeLine_eq_decodeError_iff.mp hexec).1, hpc, ?_, ?_⟩
  · exact hlife.fault.mp (by rw [hfault, Option.isSome_some])
  · rw [← hpc]
    exact faultReport?_eq_some hfault hline

end Machine
end LineMachine
