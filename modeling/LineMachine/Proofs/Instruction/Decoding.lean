import LineMachine.Proofs.Instruction.Failing

/-!
# Faults of reading and faults of executing

A line that is no instruction fails to be read, whatever the store; an instruction
never fails for such a reason.  So a fault of reading tells about the line alone.

**Results.**
* `Instruction.exists_decodeError`: the faults of reading are the decode errors.
* `Instruction.execute_neverUnreadable`: no instruction fails with a decode error.
* `Instruction.executeLine_eq_decodeError_iff`: a line fails with a decode error
  exactly if it cannot be read.
-/

namespace LineMachine
namespace Execution

/-- The computation never fails with a decode error. -/
def NeverUnreadable {α : Type} (x : Execution α) : Prop :=
  ∀ s s' e, x s ≠ .error (.fault (.decode e)) s'

end Execution

namespace Instruction

/-- **The faults of reading are the decode errors.** -/
theorem exists_decodeError {line : String} {f : Fault} (h : decode line = .error (.fault f)) :
    ∃ e, f = .decode e := by
  rcases decode_eq_error h with ⟨e, he⟩ | ⟨_, _, _, _, he⟩
  · cases he
    exact ⟨e, rfl⟩
  · cases he

/-- **No instruction fails with a decode error.** -/
theorem execute_neverUnreadable (inst : Instruction) :
    Execution.NeverUnreadable inst.execute := by
  intro s s' e h
  cases execute_failsWith inst s s' _ h

/-- **A line fails with a decode error exactly if it cannot be read**, whatever the
store. -/
theorem executeLine_eq_decodeError_iff {line : String} {s s' : Store} {e : DecodeError} :
    executeLine line s = .error (.fault (.decode e)) s' ↔
      decode line = .error (.fault (.decode e)) ∧ s' = s := by
  rw [executeLine]
  cases hdecode : decode line with
  | ok inst =>
      constructor
      · intro h
        exact absurd h (execute_neverUnreadable inst s s' e)
      · rintro ⟨h, _⟩
        cases h
  | error failure =>
      constructor
      · intro h
        cases h
        exact ⟨rfl, rfl⟩
      · rintro ⟨h, rfl⟩
        cases h
        rfl

end Instruction
end LineMachine
