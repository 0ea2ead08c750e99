import LineMachine.Proofs.Machine.Budget
import Mathlib.Data.Int.Interval

/-!
# Programs that only jump forward

If every jump of a program leads to a later line, or to none because its number is
negative, a run never comes back to a line.  So it executes each line once at most, and has
stopped after one step more than there are lines: this one leaves the program at its end.

**Input.**  A program whose jumps all lead forward, and which has no oversized literal.

**Invariant.**  The machine has executed only lines before the one that it executes next; a
machine that does not execute its line executes no other line afterwards.

**Results.**
* `Machine.pc_lt_next`: the line that is executed next is a later one.
* `Machine.pairwise_executedLines`: lines are executed in their order, and none twice.
* `Machine.length_executedLines_le`: no more lines are executed than there are.
* `Machine.forward_programs_end`: a run ends, with a budget of one step more than there are
  lines or without any.
-/

namespace LineMachine

/-- A jump from the line, if it is one, leads to a later line, or to a negative number. -/
def JumpsForwardAt (i : Nat) (line : String) : Prop :=
  ∀ var target, Instruction.decode line = .ok (.branch var target) → (i : Int) < target ∨ target < 0

/-- All jumps of the program lead to later lines, or to negative numbers. -/
def JumpsForward (program : Array String) : Prop :=
  ∀ i line, program[i]? = some line → JumpsForwardAt i line

instance decidableJumpsForwardAt (i : Nat) (line : String) : Decidable (JumpsForwardAt i line) :=
  match hdecode : Instruction.decode line with
  | .ok (.branch _ target) =>
    if htarget : (i : Int) < target ∨ target < 0 then
      .isTrue fun _ _ h => by
        rw [hdecode] at h
        cases h
        exact htarget
    else .isFalse fun h => htarget (h _ _ hdecode)
  | .ok (.varInt ..) | .ok (.varList ..) | .ok (.combine ..) | .ok (.get ..) | .ok (.set ..)
  | .ok (.copy ..) | .ok (.changeSign ..) | .ok (.add ..) | .ok .halt | .error _ =>
    .isTrue fun _ _ h => by
      rw [hdecode] at h
      cases h

theorem jumpsForward_iff {program : Array String} :
    JumpsForward program ↔ ∀ i (h : i < program.size), JumpsForwardAt i program[i] := by
  constructor
  · exact fun h i hi => h i _ (Array.getElem?_eq_getElem hi)
  · intro h i line hline
    obtain ⟨hi, rfl⟩ := Array.getElem?_eq_some_iff.mp hline
    exact h i hi

instance decidableJumpsForward (program : Array String) : Decidable (JumpsForward program) :=
  decidable_of_iff' _ jumpsForward_iff

namespace Machine

/-- The numbers of the lines that are executed within some steps, in the order of the steps. -/
def executedLines (n : Nat) (m : Machine) : List Int :=
  (executing n m).map fun k => (next^[k] m).pc

section Steps

variable {m : Machine}

/-- A machine that does not execute its line will not execute another one. -/
theorem executes_next_of_not (hidle : m.executes = false) : m.next.executes = false := by
  cases outcome m with
  | stopped _ hstep =>
      rw [next, hstep, final]
      exact hidle
  | left _ _ hstep =>
      rw [next, hstep, final]
      rfl
  | executed hstatus hline hdecode heffect _ =>
      have hexec : m.executes = true :=
        executes_iff.mpr ⟨_, hstatus, ⟨_, hline, hdecode⟩, _, _,
          Instruction.execute_of_effect heffect⟩
      rw [hidle] at hexec
      cases hexec
  | faulted _ _ _ hstep =>
      rw [next, hstep, final]
      rfl
  | escaped _ _ _ hstep =>
      rw [next, hstep, final]
      exact hidle

theorem executing_of_not_executes (hidle : m.executes = false) (n : Nat) : executing n m = [] := by
  induction n generalizing m with
  | zero => rfl
  | succ n ih =>
      rw [executing_succ, hidle, ih (executes_next_of_not hidle)]
      rfl

/-- What a machine executes is a line of its program. -/
theorem pc_bounds_of_executes (hexec : m.executes = true) : 0 ≤ m.pc ∧ m.pc < m.program.size := by
  obtain ⟨inst, _, ⟨line, hline, _⟩, _⟩ := executes_iff.mp hexec
  obtain ⟨hpc, hlt, _⟩ := lineAt?_eq_some hline
  exact ⟨hpc, hlt⟩

/-- **The line that is executed next is a later one.** -/
theorem pc_lt_next (hforward : JumpsForward m.program) (hexec : m.executes = true)
    (hgoes : m.next.executes = true) : m.pc < m.next.pc := by
  obtain ⟨inst, hinst⟩ := executes_iff.mp hexec
  obtain ⟨control, s', heffect, hnext⟩ := hinst.exists_effect
  obtain ⟨_, ⟨line, hline, hdecode⟩, _⟩ := hinst
  have hafter := (pc_bounds_of_executes hgoes).1
  rw [hnext] at hgoes hafter ⊢
  cases control with
  | next => exact Int.lt_succ m.pc
  | jump target =>
      -- a jump to a negative number would have left the program
      obtain ⟨var, rfl⟩ := Instruction.eq_branch_of_effect heffect
      obtain ⟨hpc, _, hget⟩ := lineAt?_eq_some hline
      have hafter' : 0 ≤ target := hafter
      have htarget := hforward _ _ hget var target hdecode
      show m.pc < target
      omega
  | halt => cases hgoes

end Steps

section Runs

variable {m : Machine}

theorem executedLines_succ (n : Nat) (m : Machine) :
    executedLines (n + 1) m = (if m.executes then [m.pc] else []) ++ executedLines n m.next := by
  rw [executedLines, executing_succ, List.map_append, List.map_map]
  split <;> rfl

theorem executedLines_of_not_executes (hidle : m.executes = false) (n : Nat) :
    executedLines n m = [] := by
  rw [executedLines, executing_of_not_executes hidle, List.map_nil]

theorem executedLines_succ_of_executes (hexec : m.executes = true) (n : Nat) :
    executedLines (n + 1) m = m.pc :: executedLines n m.next := by
  rw [executedLines_succ, if_pos hexec, List.singleton_append]

theorem bounds_of_mem_executedLines {n : Nat} {line : Int} (hline : line ∈ executedLines n m) :
    0 ≤ line ∧ line < m.program.size := by
  obtain ⟨k, hk, rfl⟩ := List.mem_map.mp hline
  have hbounds := pc_bounds_of_executes (List.mem_filter.mp hk).2
  rw [program_iterate] at hbounds
  exact hbounds

theorem isChain_executedLines (hforward : JumpsForward m.program) (n : Nat) :
    (executedLines n m).IsChain (· < ·) := by
  induction n generalizing m with
  | zero => exact .nil
  | succ n ih =>
      cases hexec : m.executes with
      | false =>
          rw [executedLines_of_not_executes hexec]
          exact .nil
      | true =>
          have hforward' : JumpsForward m.next.program := by
            rw [program_next]
            exact hforward
          have htail := ih hforward'
          rw [executedLines_succ_of_executes hexec]
          cases hgoes : m.next.executes with
          | false =>
              rw [executedLines_of_not_executes hgoes]
              exact .singleton m.pc
          | true =>
              cases n with
              | zero => exact .singleton m.pc
              | succ n =>
                  rw [executedLines_succ_of_executes hgoes] at htail ⊢
                  exact .cons_cons (pc_lt_next hforward hexec hgoes) htail

/-- **Lines are executed in their order, and none twice.** -/
theorem pairwise_executedLines (hforward : JumpsForward m.program) (n : Nat) :
    (executedLines n m).Pairwise (· < ·) :=
  List.isChain_iff_pairwise.mp (isChain_executedLines hforward n)

/-- **No more lines are executed than there are.** -/
theorem length_executedLines_le (hforward : JumpsForward m.program) (n : Nat) :
    (executedLines n m).length ≤ m.program.size := by
  have hnodup : (executedLines n m).Nodup :=
    (pairwise_executedLines hforward n).imp fun hlt => Int.ne_of_lt hlt
  have hsubset : (executedLines n m).toFinset ⊆ Finset.Ico 0 (m.program.size : Int) := by
    intro line hline
    exact Finset.mem_Ico.mpr (bounds_of_mem_executedLines (List.mem_toFinset.mp hline))
  calc (executedLines n m).length
      = (executedLines n m).toFinset.card := (List.toFinset_card_of_nodup hnodup).symm
    _ ≤ (Finset.Ico 0 (m.program.size : Int)).card := Finset.card_le_card hsubset
    _ = m.program.size := by simp

theorem steps_iterate_le (hforward : JumpsForward m.program) (n : Nat) :
    (next^[n] m).steps ≤ m.steps + m.program.size := by
  have hlength := length_executedLines_le hforward n
  rw [executedLines, List.length_map] at hlength
  rw [steps_iterate]
  exact Nat.add_le_add_left hlength m.steps

/-- One step more than there are lines stops the machine. -/
theorem status_of_runFor_succ_size {m' : Machine} {status : Status}
    (hforward : JumpsForward m.program) (hrun : runFor (m.program.size + 1) m = .ok status m') :
    status ≠ .running := by
  rintro rfl
  have hsteps := steps_of_runFor_running hrun
  have hle := steps_iterate_le hforward (m.program.size + 1)
  rw [← eq_iterate_of_runFor hrun] at hle
  omega

end Runs

/-- **Programs that only jump forward end.**  A run with a budget of one step more than there
are lines returns and has stopped the machine, and a run without a budget ends with the same
machine.  Whatever the number of steps, no more instructions have been executed than there
are lines, and no line has been executed twice. -/
theorem forward_programs_end {program : Array String} {m : Machine}
    (hforward : JumpsForward program) (hlimit : (m.load program).WithinLimit) :
    (∃ status m', status ≠ .running ∧
      (∀ patience, run patience (some (program.size + 1)) (m.load program) = .ok status m') ∧
      ∀ patience, program.size < patience → run patience none (m.load program) = .ok status m') ∧
    ∀ n, (next^[n] (m.load program)).steps ≤ program.size ∧
      (executedLines n (m.load program)).length = (next^[n] (m.load program)).steps ∧
      (executedLines n (m.load program)).Nodup := by
  have hrun := runFor_of_withinLimit hlimit (program.size + 1)
  have hstopped := status_of_runFor_succ_size hforward hrun
  have hlonger : ∀ k, runFor (program.size + 1 + k) (m.load program) =
      runFor (program.size + 1) (m.load program) := by
    intro k
    rw [runFor_add, bind_runFor_of_ok k hrun, runFor_of_stopped hstopped, hrun]
  refine ⟨⟨_, _, hstopped, fun patience => hrun, fun patience hpatience => ?_⟩,
    fun n => ⟨?_, ?_, ?_⟩⟩
  · obtain ⟨k, rfl⟩ := Nat.exists_eq_add_of_lt hpatience
    show runFor (program.size + k + 1) (m.load program) = _
    rw [Nat.add_right_comm, hlonger k, hrun]
  · have hsteps := steps_iterate_le hforward n (m := m.load program)
    rwa [show (m.load program).steps = 0 from rfl, Nat.zero_add] at hsteps
  · rw [steps_iterate, executedLines, List.length_map]
    exact (Nat.zero_add _).symm
  · exact (pairwise_executedLines hforward n).imp fun hlt => Int.ne_of_lt hlt

/-- One step fewer is not enough to leave a program that executes all its lines. -/
example : (final (runFor 1 (ofProgram #["VARINT x 1"]))).status = .running := by decide

/-- A program that jumps over a line that is no instruction, and then out at the top. -/
def skipping : Array String :=
  #["VARINT x 0", "IF x 3", "HLT x", "VARLIST y x", "IF x -1", "HLT"]

theorem forward_programs_end_skipping :
    executedLines 7 (ofProgram skipping) = [0, 1, 3, 4] ∧
      ∀ patience, 6 < patience →
        ∃ m', run patience none (ofProgram skipping) = .ok .halted m' ∧ m'.steps = 4 := by
  have hlimit : ((ofProgram #[]).load skipping).WithinLimit := by
    have hlines : ∀ line, line ∈ skipping.toList → ∀ word, word ∈ Text.splitWords line →
        word.toList.length ≤ Numeral.digitLimit := by decide
    exact fun line hline word hword n =>
      Numeral.not_oversized_of_length_le (hlines line hline word hword)
  have hhalted : (final (runFor 7 (ofProgram skipping))).status = .halted := by decide +kernel
  have hfour : (final (runFor 7 (ofProgram skipping))).steps = 4 := by decide +kernel
  obtain ⟨⟨status, m', _, hbudget, hnone⟩, _⟩ :=
    forward_programs_end (m := ofProgram #[]) (by decide : JumpsForward skipping) hlimit
  have hrun : runFor 7 (ofProgram skipping) = .ok status m' := hbudget 0
  rw [hrun, final] at hhalted hfour
  obtain rfl := (status_runFor hrun).symm.trans hhalted
  exact ⟨by decide +kernel, fun patience hpatience => ⟨m', hnone patience hpatience, hfour⟩⟩

end Machine
end LineMachine
