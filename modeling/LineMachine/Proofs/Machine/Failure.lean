import LineMachine.Proofs.Machine.Step
import LineMachine.Proofs.Numeral.Literal

/-!
# Failing instructions

An instruction may fail at any of its operands, at the last element of a list as
well as at the first.  It has changed nothing then: a machine that meets a fault
keeps the fault and is otherwise as it was, and a refused conversion leaves no
trace at all.

**Results.**
* `Machine.step_eq_faulted_iff`, `Machine.step_eq_error_iff`,
  `Machine.execute_eq_error_iff`: when a step or an instruction fails, and what it
  leaves behind.
* `Machine.failure_changes_nothing`: all three together.
* `Instruction.decode_of_digitLimit_lt`: a literal beyond the digit limit is refused.
-/

namespace LineMachine

namespace Numeral

theorem readChars_of_digitLimit_lt {cs : List Char}
    (hcs : isDigitRun cs = true)
    (hlen : digitLimit < cs.length) :
    readChars cs = .error (.reading cs.length) := by
  have hvalue : Literal.value ⟨false, cs⟩ = .error (.reading cs.length) := by
    rw [Literal.value, if_neg (Nat.not_le_of_lt hlen)]
  rw [readChars, Literal.ofWord?_of_isDigitRun hcs]
  simp only [hvalue, Except.map]

end Numeral

namespace Instruction

/-- The words of a line with a literal of the given digits. -/
theorem splitWords_literalLine {cs : List Char} (hcs : Numeral.isDigitRun cs = true) :
    Text.splitWords (String.ofList ("VARINT x ".toList ++ cs)) =
      ["VARINT", "x", String.ofList cs] := by
  obtain ⟨hne, hdigits⟩ := Numeral.isDigitRun_iff.mp hcs
  have hcut := Text.words_append_blank (c := ' ') rfl "VARINT x".toList cs
  rw [Text.words_of_forall_not_isBlank hne fun c hc =>
    Numeral.not_isBlank_of_isDigit (hdigits c hc)] at hcut
  have hwords : Text.words ("VARINT x ".toList ++ cs) = ["VARINT".toList, "x".toList, cs] := hcut
  rw [Text.splitWords, String.toList_ofList, hwords]
  rfl

theorem decode_of_digitLimit_lt {cs : List Char}
    (hcs : Numeral.isDigitRun cs = true)
    (hlen : Numeral.digitLimit < cs.length) :
    decode (String.ofList ("VARINT x ".toList ++ cs)) = .error (.limit (.reading cs.length)) := by
  have hread : Numeral.readWord (String.ofList cs) = .error (.reading cs.length) := by
    rw [Numeral.readWord, String.toList_ofList]
    exact Numeral.readChars_of_digitLimit_lt hcs hlen
  have hop : Opcode.ofMnemonic? "VARINT" = some .varInt := Opcode.ofMnemonic?_mnemonic .varInt
  rw [decode, splitWords_literalLine hcs]
  simp only [ofWords, hop, ofOperands, integerOperand, Opcode.hasIntegerOperand, if_true, hread]

end Instruction

namespace Machine

section Failures

variable {m m' : Machine}

theorem step_eq_faulted_iff (hrunning : m.status = .running) :
    step m = .ok .faulted m' ↔
      ∃ line f, m.line? = some line ∧
        Instruction.executeLine line m.store = .error (.fault f) m.store ∧
        m' = { m with status := .faulted, fault := some f } := by
  constructor
  · intro hfaulted
    cases outcome m with
    | stopped hstatus => exact absurd hrunning hstatus
    | left _ _ hstep =>
        rw [hstep] at hfaulted
        cases hfaulted
    | @executed line inst control s' _ _ _ _ hstep =>
        rw [hstep] at hfaulted
        cases control <;> cases hfaulted
    | @faulted line f _ hline hfault hstep =>
        rw [hstep] at hfaulted
        cases hfaulted
        exact ⟨line, f, hline, hfault, rfl⟩
    | escaped _ _ _ hstep =>
        rw [hstep] at hfaulted
        cases hfaulted
  · rintro ⟨line, f, hline, hfault, rfl⟩
    exact step_of_executeLine_fault hrunning hline hfault

theorem step_eq_error_iff {e : Numeral.DigitLimit} :
    step m = .error e m' ↔
      m' = m ∧ m.status = .running ∧
        ∃ line, m.line? = some line ∧
          Instruction.executeLine line m.store = .error (.limit e) m.store := by
  constructor
  · intro hescaped
    cases outcome m with
    | stopped _ hstep =>
        rw [hstep] at hescaped
        cases hescaped
    | left _ _ hstep =>
        rw [hstep] at hescaped
        cases hescaped
    | executed _ _ _ _ hstep =>
        rw [hstep] at hescaped
        cases hescaped
    | faulted _ _ _ hstep =>
        rw [hstep] at hescaped
        cases hescaped
    | @escaped line e' hstatus hline hlimit hstep =>
        rw [hstep] at hescaped
        cases hescaped
        exact ⟨rfl, hstatus, line, hline, hlimit⟩
  · rintro ⟨rfl, hrunning, line, hline, hlimit⟩
    exact step_of_executeLine_limit hrunning hline hlimit

theorem execute_eq_error_iff {inst : Instruction} {e : Failure} :
    execute inst m = .error e m' ↔ m' = m ∧ inst.execute m.store = .error e m.store := by
  obtain ⟨program, store, pc, status, fault, steps⟩ := m
  constructor
  · intro hfails
    cases hexec : inst.execute store with
    | ok control s' =>
        simp only [execute, hexec] at hfails
        cases hfails
    | error e' s' =>
        have hs := Instruction.execute_atomic inst store s' e' hexec
        subst hs
        simp only [execute, hexec] at hfails
        cases hfails
        exact ⟨rfl, rfl⟩
  · rintro ⟨rfl, hexec⟩
    have hexec' : inst.execute store = .error e store := hexec
    simp only [execute, hexec']

end Failures

/-- **A failing instruction changes nothing.**  A step faults exactly if its line
does, and then adds the fault and the status; an error escapes, from a step or
from an instruction, exactly if it comes from there, and the machine is as it was. -/
theorem failure_changes_nothing (m : Machine) :
    (m.status = .running → ∀ m', step m = .ok .faulted m' ↔
      ∃ line f, m.line? = some line ∧
        Instruction.executeLine line m.store = .error (.fault f) m.store ∧
        m' = { m with status := .faulted, fault := some f }) ∧
    (∀ e m', step m = .error e m' ↔
      m' = m ∧ m.status = .running ∧
        ∃ line, m.line? = some line ∧
          Instruction.executeLine line m.store = .error (.limit e) m.store) ∧
    (∀ inst e m', execute inst m = .error e m' ↔
      m' = m ∧ inst.execute m.store = .error e m.store) :=
  ⟨fun hrunning _ => step_eq_faulted_iff hrunning, fun _ _ => step_eq_error_iff,
    fun _ _ _ => execute_eq_error_iff⟩

/-- A machine whose next instruction replaces an item outside a list. -/
def outsideList : Machine :=
  { ofProgram #["VARLIST x 7", "SET 1 1 x"] with
    store := ⟨⟨[("x", .list 0)]⟩, ⟨#[[.int 7]]⟩⟩, pc := 1, steps := 1 }

/-- A machine whose next line has a literal of the given digits. -/
def beforeLiteral (cs : List Char) : Machine :=
  ofProgram #[String.ofList ("VARINT x ".toList ++ cs)]

theorem step_beforeLiteral {cs : List Char}
    (hcs : Numeral.isDigitRun cs = true)
    (hlen : Numeral.digitLimit < cs.length) :
    step (beforeLiteral cs) = .error (.reading cs.length) (beforeLiteral cs) := by
  have hdecode := Instruction.decode_of_digitLimit_lt hcs hlen
  have hexec : Instruction.executeLine (String.ofList ("VARINT x ".toList ++ cs))
      ⟨.empty, .empty⟩ = .error (.limit (.reading cs.length)) ⟨.empty, .empty⟩ := by
    rw [Instruction.executeLine, hdecode]
    rfl
  exact step_of_executeLine_limit rfl rfl hexec

theorem failure_changes_nothing_outside_and_overlong :
    (∃ m', step outsideList = .ok .faulted m' ∧
      m'.store = outsideList.store ∧ m'.pc = 1 ∧ m'.steps = 1) ∧
    (∃ e m', step (beforeLiteral (List.replicate 4301 '1')) = .error e m' ∧
      m' = beforeLiteral (List.replicate 4301 '1')) ∧
    (∃ e m', execute (.changeSign "x") outsideList = .error e m' ∧ m' = outsideList) := by
  have houtside : step outsideList = .ok .faulted
      { outsideList with status := .faulted, fault := some (.indexOutOfRange 1 1) } := rfl
  have hsign : execute (.changeSign "x") outsideList =
      .error (.fault (.typeMismatch .int .list)) outsideList := rfl
  have hlimit : Numeral.digitLimit < (List.replicate 4301 '1').length := by
    rw [List.length_replicate]
    decide
  have hlong := step_beforeLiteral (Numeral.isDigitRun_replicate rfl (by decide)) hlimit
  refine ⟨⟨_, houtside, ?_⟩, ⟨_, _, hlong, ?_⟩, ⟨_, _, hsign, ?_⟩⟩
  · obtain ⟨_, _, _, _, hm'⟩ := ((failure_changes_nothing outsideList).1 rfl _).mp houtside
    rw [hm']
    exact ⟨rfl, rfl, rfl⟩
  · exact (((failure_changes_nothing _).2.1 _ _).mp hlong).1
  · exact (((failure_changes_nothing _).2.2 _ _ _).mp hsign).1

end Machine
end LineMachine
