import LineMachine.Proofs.CommandLine.Shell
import LineMachine.Proofs.Instruction.Failing
import LineMachine.Proofs.Machine.Failure
import LineMachine.Proofs.Machine.Reading

/-!
# Whatever goes wrong is a fault

A machine is driven by steps and runs.  As long as no word of its program is an
oversized literal, nothing escapes from them: every failure becomes the fault of the
machine.  This holds whatever integers the machine has computed, as none of them is
written.  An oversized literal does escape, and does so on every further try.

**Input.**  A reachable machine.

**Invariant.**  No step changes the program, so that a program without oversized
literals stays one.

**Results.**
* `Machine.step_of_withinLimit`, `Machine.runFor_of_withinLimit`: steps and runs return.
* `Machine.checks_of_reachable`: what the machine takes for granted holds.
* `Machine.only_faults_occur`: the failures of a machine are faults of four kinds.
-/

namespace LineMachine

/-- The index that the fault is reported with, if there is one, can be written. -/
def Fault.Writable : Fault → Prop
  | .indexOutOfRange index _ => Numeral.text index = .ok (Numeral.intText index)
  | _ => True

theorem Instruction.LineFailure.writable {line : String} {f : Fault}
    (h : LineFailure line (.fault f)) : f.Writable := by
  cases h with
  | unreadable error => trivial
  | undefined hname => trivial
  | mismatch hne => trivial
  | outOfRange _ hread _ => exact Numeral.text_eq_ok (Numeral.writable_of_readWord hread)

namespace Machine

/-- No word of the program is an oversized literal. -/
def WithinLimit (m : Machine) : Prop :=
  ∀ line, line ∈ m.program.toList → ∀ word, word ∈ Text.splitWords line →
    ∀ n, ¬ Numeral.Oversized word n

/-- What the parts of a machine take for granted of each other. -/
structure Checks (m : Machine) : Prop where
  /-- A line that is read is an instruction or refused with a decode error. -/
  decode : ∀ line, line ∈ m.program.toList →
    (∃ inst, Instruction.decode line = .ok inst) ∨
      ∃ error, Instruction.decode line = .error (.fault (.decode error))
  /-- A word is an integer or no literal. -/
  literal : ∀ line, line ∈ m.program.toList → ∀ word, word ∈ Text.splitWords line →
    ∃ number, Numeral.readMargined word = .ok number
  /-- The copy of a list is a list, as are all that are copied on the way. -/
  copy : ∀ name r, m.memory.get? name = some (.list r) →
    (∃ q, (m.heap.deepCopy (.list r)).1 = .list q ∧ m.heap.IsNew (.list r) q) ∧
      ∀ p q, m.heap.IsCopy (.list r) p q → p < m.heap.size ∧ m.heap.IsNew (.list r) q
  /-- A machine that has met a fault has one, and stands on a line. -/
  fault : m.status = .faulted → ∃ f line, f.Writable ∧ m.fault = some f ∧
    m.line? = some line ∧ ∀ file budget s,
      Shell.report file budget m s = .ok 1 (s.print [.fault file ⟨m.pc, f, line⟩])
  /-- A machine whose report is good has halted. -/
  halted : ∀ file budget s s', Shell.report file budget m s = .ok 0 s' ↔
    m.status = .halted ∧ s' = s

section Steps

variable {m m' : Machine} {line : String}

theorem mem_program_of_line? (hline : m.line? = some line) : line ∈ m.program.toList :=
  Array.mem_toList_iff.mpr (Array.mem_of_getElem? (lineAt?_eq_some hline).2.2)

theorem WithinLimit.next (hm : m.WithinLimit) : m.next.WithinLimit := by
  rw [WithinLimit, program_next]
  exact hm

/-- **A line within the limit fails with a fault.** -/
theorem WithinLimit.exists_fault (hm : m.WithinLimit) (hline : m.line? = some line)
    {s' : Store} {e : Failure} (h : Instruction.executeLine line m.store = .error e s') :
    ∃ f, e = .fault f := by
  cases Instruction.executeLine_failsWith line m.store s' e h with
  | unreadable error => exact ⟨_, rfl⟩
  | undefined hname => exact ⟨_, rfl⟩
  | mismatch hne => exact ⟨_, rfl⟩
  | outOfRange _ _ _ => exact ⟨_, rfl⟩
  | refused hword hover => exact absurd hover (hm line (mem_program_of_line? hline) _ hword _)

theorem step_of_withinLimit (hm : m.WithinLimit) : step m = .ok m.next.status m.next := by
  cases hstep : step m with
  | ok status m' =>
      rw [next, hstep, final, status_step hstep]
  | error e m' =>
      obtain ⟨_, _, line, hline, hlimit⟩ := step_eq_error_iff.mp hstep
      obtain ⟨f, hf⟩ := hm.exists_fault hline hlimit
      cases hf

/-- An error that escapes from a run has escaped from a step. -/
theorem step_of_runFor_error {n : Nat} {e : Numeral.DigitLimit}
    (h : runFor n m = .error e m') : step m' = .error e m' := by
  induction n generalizing m with
  | zero => cases h
  | succ n ih =>
      cases hstep : step m with
      | error e' m₁ =>
          rw [runFor_succ_of_error n hstep] at h
          cases h
          obtain rfl := eq_of_step_error hstep
          exact hstep
      | ok status m₁ =>
          by_cases hrunning : status = .running
          · subst hrunning
            rw [runFor_succ_of_running n hstep] at h
            exact ih h
          · rw [runFor_succ_of_stopped n hstep hrunning] at h
            cases h

theorem runFor_of_withinLimit (hm : m.WithinLimit) (n : Nat) :
    runFor n m = .ok (Machine.next^[n] m).status (Machine.next^[n] m) := by
  cases hrun : runFor n m with
  | ok status m' => rw [← eq_iterate_of_runFor hrun, status_runFor hrun]
  | error e m' =>
      -- the error would have escaped from the step at which the run ends
      have hend : (final (runFor n m)).WithinLimit := by
        rw [final_runFor]
        exact iterate_invariant (fun _ h => WithinLimit.next h) hm n
      rw [hrun, final] at hend
      have hstep := step_of_runFor_error hrun
      rw [step_of_withinLimit hend] at hstep
      cases hstep

/-- **What a step refuses, it refuses again.** -/
theorem step_iterate_of_error {e : Numeral.DigitLimit} (h : step m = .error e m') (n : Nat) :
    step (Machine.next^[n] m) = .error e m := by
  obtain rfl := eq_of_step_error h
  have hnext : m'.next = m' := by rw [next, h, final]
  rw [Function.iterate_fixed hnext]
  exact h

end Steps

section Assertions

variable {m : Machine}

theorem report_eq_zero_iff {file : String} {budget : Option Int} {s s' : Session} :
    Shell.report file budget m s = .ok 0 s' ↔ m.status = .halted ∧ s' = s := by
  constructor
  · intro h
    have hexit := Shell.eq_exitStatus_of_report h
    have hhalted : m.status = .halted := by
      by_contra hne
      rw [Shell.exitStatus, if_neg hne] at hexit
      cases hexit
    rw [Shell.report_of_halted hhalted] at h
    cases h
    exact ⟨hhalted, rfl⟩
  · rintro ⟨hhalted, rfl⟩
    exact Shell.report_of_halted hhalted file budget _

theorem fault_of_reachable (hm : Reachable m) (hfaulted : m.status = .faulted) :
    ∃ f line, f.Writable ∧ m.fault = some f ∧ m.line? = some line ∧ ∀ file budget s,
      Shell.report file budget m s = .ok 1 (s.print [.fault file ⟨m.pc, f, line⟩]) := by
  have hlife := lifecycle_of_reachable hm
  obtain ⟨f, hf⟩ := Option.isSome_iff_exists.mp (hlife.fault.mpr hfaulted)
  obtain ⟨line, hline, hexec⟩ := hlife.faulted f hf
  refine ⟨f, line, ?_, hf, hline,
    Shell.report_of_fault hfaulted (faultReport?_eq_some hf hline)⟩
  exact (Instruction.executeLine_failsWith line _ _ _ hexec).writable

/-- **What a machine takes for granted holds.** -/
theorem checks_of_reachable (hm : Reachable m) (hlimit : m.WithinLimit) : Checks m where
  decode := fun line hline => by
    cases hdecode : Instruction.decode line with
    | ok inst => exact Or.inl ⟨inst, rfl⟩
    | error e =>
        rcases Instruction.decode_eq_error hdecode with ⟨error, rfl⟩ | ⟨word, n, hword, hover, _⟩
        · exact Or.inr ⟨error, rfl⟩
        · exact absurd hover (hlimit line hline word hword n)
  literal := fun line hline word hword => by
    rw [Text.readMargined_of_isWord (Text.isWord_of_mem_splitWords hword)]
    exact Numeral.exists_readWord (hlimit line hline word hword)
  copy := fun name r hr => by
    have hexists : r < m.heap.size := (closed_of_reachable hm).memory hr
    obtain ⟨q, hcopy, hnew⟩ := Instruction.new_deepCopy hexists
    exact ⟨⟨q, hcopy, hnew⟩, fun p q hpq => ⟨hpq.lt_size, hpq.isNew⟩⟩
  fault := fault_of_reachable hm
  halted := fun _ _ _ _ => report_eq_zero_iff

end Assertions

/-- **The failures of a machine are faults, unless a literal is oversized.**  Within
the limit steps and runs return, a line that fails leaves the machine with the fault,
and what the parts of the machine take for granted holds.  Without the limit an error
that escapes comes from an oversized word of the line, and comes again. -/
theorem only_faults_occur {m : Machine} (hm : Reachable m) :
    (m.WithinLimit →
      step m = .ok m.next.status m.next ∧
      (∀ patience budget, run patience budget m =
        .ok (Machine.next^[stepsAllowed patience budget] m).status
          (Machine.next^[stepsAllowed patience budget] m)) ∧
      (∀ line e s', m.status = .running → m.line? = some line →
        Instruction.executeLine line m.store = .error e s' →
        ∃ f : Fault, e = .fault f ∧ Instruction.LineFailure line e ∧ f.Writable ∧
          m.next = { m with status := .faulted, fault := some f }) ∧
      Checks m) ∧
    (∀ e m', step m = .error e m' →
      ∃ line word n, m.line? = some line ∧ word ∈ Text.splitWords line ∧
        Numeral.Oversized word n ∧ e = .reading n ∧ m' = m ∧
        ∀ k, step (Machine.next^[k] m) = .error e m) ∧
    (∀ patience budget e m', run patience budget m = .error e m' →
      step m' = .error e m') := by
  refine ⟨fun hlimit => ⟨step_of_withinLimit hlimit, ?_, ?_, checks_of_reachable hm hlimit⟩,
    ?_, ?_⟩
  · exact fun patience budget => runFor_of_withinLimit hlimit _
  · intro line e s' hrunning hline hexec
    have hfails := Instruction.executeLine_failsWith line _ _ _ hexec
    obtain ⟨f, rfl⟩ := hlimit.exists_fault hline hexec
    refine ⟨f, rfl, hfails, hfails.writable, ?_⟩
    rw [next, step_of_executeLine_fault hrunning hline hexec, final]
  · intro e m' hstep
    obtain ⟨rfl, _, line, hline, hexec⟩ := step_eq_error_iff.mp hstep
    cases Instruction.executeLine_failsWith line _ _ _ hexec with
    | refused hword hover =>
        exact ⟨line, _, _, hline, hword, hover, rfl, rfl, step_iterate_of_error hstep⟩
  · exact fun patience budget e m' hrun => step_of_runFor_error hrun

section Doubling

/-- A program that doubles a literal of the given digits, and takes the sum for a list. -/
def doubling (cs : List Char) : Array String :=
  #[String.ofList ("VARINT x ".toList ++ cs), "ADD x x", "GET y 5 x"]

variable {cs : List Char}

theorem withinLimit_doubling (hcs : Numeral.isDigitRun cs = true)
    (hlimit : cs.length ≤ Numeral.digitLimit) {m : Machine} (hm : m.program = doubling cs) :
    m.WithinLimit := by
  have hfirst : ∀ word, word ∈ Text.splitWords (String.ofList ("VARINT x ".toList ++ cs)) →
      word.toList.length ≤ Numeral.digitLimit := by
    rw [Instruction.splitWords_literalLine hcs]
    refine List.forall_mem_cons.mpr ⟨by decide, List.forall_mem_cons.mpr ⟨by decide, ?_⟩⟩
    intro word hword
    rwa [List.mem_singleton.mp hword, String.toList_ofList]
  have hlines : ∀ line, line ∈ (doubling cs).toList → ∀ word, word ∈ Text.splitWords line →
      word.toList.length ≤ Numeral.digitLimit :=
    List.forall_mem_cons.mpr ⟨hfirst, by decide⟩
  intro line hline word hword n
  rw [hm] at hline
  exact Numeral.not_oversized_of_length_le (hlines line hline word hword)

/-- The sum is in memory after two steps. -/
theorem perform_doubling (hcs : Numeral.isDigitRun cs = true)
    (hlimit : cs.length ≤ Numeral.digitLimit) :
    (Call.run 2 none).perform (ofProgram (doubling cs)) =
      { ofProgram (doubling cs) with
        store := ⟨⟨[("x", .int (Nat.ofDigitChars 10 cs 0 + Nat.ofDigitChars 10 cs 0))]⟩, .empty⟩,
        pc := 2, steps := 2 } := by
  have hread := Numeral.readWord_of_isDigitRun hcs hlimit
  -- the steps are the same for every number, and this one is too long to be evaluated
  generalize Nat.ofDigitChars 10 cs 0 = n at hread ⊢
  have hfirst : Instruction.executeLine (String.ofList ("VARINT x ".toList ++ cs))
      ⟨.empty, .empty⟩ = .ok .next ⟨⟨[("x", .int n)]⟩, .empty⟩ := by
    have hop : Opcode.ofMnemonic? "VARINT" = some .varInt := Opcode.ofMnemonic?_mnemonic .varInt
    rw [Instruction.executeLine, Instruction.decode, Instruction.splitWords_literalLine hcs]
    simp only [Instruction.ofWords, hop, Instruction.ofOperands, Instruction.integerOperand,
      Opcode.hasIntegerOperand, if_true, hread]
    rfl
  have hsecond : Instruction.executeLine "ADD x x" ⟨⟨[("x", .int n)]⟩, .empty⟩ =
      .ok .next ⟨⟨[("x", .int (n + n))]⟩, .empty⟩ := rfl
  have hstep₁ := step_of_executeLine_ok (m := ofProgram (doubling cs)) rfl rfl hfirst
  have hstep₂ := step_of_executeLine_ok
    (m := (ofProgram (doubling cs)).executed .next ⟨⟨[("x", .int n)]⟩, .empty⟩) rfl rfl hsecond
  show final (runFor 2 (ofProgram (doubling cs))) = _
  rw [runFor_succ_of_running 1 hstep₁, runFor_succ_of_running 0 hstep₂]
  rfl

/-- As many nines as are converted, doubled, are a number of one digit more. -/
theorem not_fitsIn_nines {k : Nat} (hk : 0 < k) :
    Numeral.fitsIn k (Nat.ofDigitChars 10 (List.replicate k '9') 0 +
      Nat.ofDigitChars 10 (List.replicate k '9') 0) = false := by
  have hnines : ∀ k init,
      Nat.ofDigitChars 10 (List.replicate k '9') init + 1 = (init + 1) * 10 ^ k := by
    intro k
    induction k with
    | zero => simp [Nat.ofDigitChars]
    | succ k ih =>
        intro init
        have hten : 10 * init + ('9'.toNat - '0'.toNat) + 1 = (init + 1) * 10 := by
          show 10 * init + 9 + 1 = (init + 1) * 10
          omega
        rw [List.replicate_succ, Nat.ofDigitChars_cons, ih, hten, Nat.pow_succ, Nat.mul_assoc,
          Nat.mul_comm 10]
  have hvalue := hnines k 0
  have hpow : 10 ^ 1 ≤ 10 ^ k := Nat.pow_le_pow_right (by decide) hk
  rw [Bool.eq_false_iff, Ne, Numeral.fitsIn_iff, Nat.pow_eq]
  omega

end Doubling

theorem only_faults_occur_doubling_and_overlong :
    (∃ m n, Reachable m ∧ m.memory.get? "x" = some (.int n) ∧
      Numeral.text n = .error .writing ∧ step m = .ok .faulted m.next ∧
      m.next.fault = some (.typeMismatch .list .int)) ∧
    (∃ word, Numeral.Oversized word 4301 ∧
      ∀ k, step (Machine.next^[k] (beforeLiteral (List.replicate 4301 '1'))) =
        .error (.reading 4301) (beforeLiteral (List.replicate 4301 '1'))) := by
  constructor
  · have hdigits : Numeral.isDigitRun (List.replicate Numeral.digitLimit '9') = true := by
      refine Numeral.isDigitRun_iff.mpr ⟨List.cons_ne_nil _ _, fun c hc => ?_⟩
      rw [List.eq_of_mem_replicate hc]
      rfl
    have hlength := Nat.le_of_eq (List.length_replicate (n := Numeral.digitLimit) (a := '9'))
    have hbig := not_fitsIn_nines (k := Numeral.digitLimit) (by decide)
    have hm := perform_doubling hdigits hlength
    have hreach := Reachable.call (.run 2 none)
      (Reachable.start (doubling (List.replicate Numeral.digitLimit '9')))
    generalize List.replicate Numeral.digitLimit '9' = cs at hdigits hlength hbig hm hreach
    rw [hm] at hreach
    have hsafe := (only_faults_occur hreach).1 (withinLimit_doubling hdigits hlength rfl)
    obtain ⟨f, hf, _, _, hnext⟩ := hsafe.2.2.1 "GET y 5 x" _ _ rfl rfl rfl
    cases hf
    refine ⟨_, _, hreach, rfl, Numeral.text_eq_error ?_, ?_, ?_⟩
    · rw [Numeral.writable]
      exact hbig
    · have hstep := hsafe.1
      rw [hnext] at hstep ⊢
      exact hstep
    · rw [hnext]
  · have hlong : Numeral.digitLimit < (List.replicate 4301 '1').length := by
      rw [List.length_replicate]
      decide
    have hstep := step_beforeLiteral (Numeral.isDigitRun_replicate rfl (by decide)) hlong
    rw [List.length_replicate] at hstep
    obtain ⟨_, word, n, _, _, hover, hn, _, hretry⟩ :=
      (only_faults_occur (Reachable.start _)).2.1 _ _ hstep
    cases hn
    exact ⟨word, hover, hretry⟩

end Machine
end LineMachine
