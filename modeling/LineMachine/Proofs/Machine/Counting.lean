import LineMachine.Proofs.Machine.Reachable

/-!
# Which steps execute an instruction

Not every step executes an instruction: a step may leave the program, meet a fault or
be cut short by a refused conversion, and a machine that has stopped only stays.  The
machine counts the steps that do.

**Results.**
* `Machine.executes_iff`: the steps that execute an instruction.
* `Machine.steps_iterate`: the machine counts the steps that execute an instruction.
-/

namespace LineMachine
namespace Machine

/-- Whether the next step executes an instruction. -/
def executes (m : Machine) : Bool :=
  match m.status, m.line? with
  | .running, some line =>
    match Instruction.executeLine line m.store with
    | .ok _ _ => true
    | .error _ _ => false
  | _, _ => false

/-- The numbers of the steps, below a bound, that execute an instruction. -/
def executing (n : Nat) (m : Machine) : List Nat :=
  (List.range n).filter fun k => (next^[k] m).executes

section Steps

variable {m : Machine}

theorem executes_iff : m.executes = true ↔ ∃ inst, m.Executes inst := by
  constructor
  · intro h
    unfold executes at h
    split at h
    · rename_i line hstatus hline
      split at h
      · rename_i control s' hexec
        obtain ⟨inst, hdecode, heffect⟩ := executeLine_eq_ok hexec
        exact ⟨inst, hstatus, ⟨line, hline, hdecode⟩, control, s',
          Instruction.execute_of_effect heffect⟩
      · cases h
    · cases h
  · rintro ⟨inst, hinst⟩
    obtain ⟨hstatus, line, control, s', hline, hexec, _⟩ := hinst.exists_line
    simp only [executes, hstatus, hline, hexec]

theorem executes_of_stopped (hstatus : m.status ≠ .running) : m.executes = false := by
  rw [Bool.eq_false_iff, ne_eq, executes_iff]
  rintro ⟨inst, hrunning, _⟩
  exact hstatus hrunning

/-- The machine counts a step exactly if it executes an instruction. -/
theorem steps_next (m : Machine) : m.next.steps = m.steps + m.executes.toNat := by
  cases outcome m with
  | stopped hstatus _ =>
      rw [next_of_stopped hstatus, executes_of_stopped hstatus]
      rfl
  | left hstatus hline hstep =>
      have hnone : m.executes = false := by simp only [executes, hstatus, hline]
      rw [next, hstep, hnone]
      rfl
  | executed hstatus hline hdecode heffect hstep =>
      have hexec : m.executes = true :=
        executes_iff.mpr ⟨_, hstatus, ⟨_, hline, hdecode⟩, _, _,
          Instruction.execute_of_effect heffect⟩
      rw [next, hstep, hexec]
      rfl
  | faulted hstatus hline hfault hstep =>
      have hnone : m.executes = false := by simp only [executes, hstatus, hline, hfault]
      rw [next, hstep, hnone]
      rfl
  | escaped hstatus hline hlimit hstep =>
      have hnone : m.executes = false := by simp only [executes, hstatus, hline, hlimit]
      rw [next, hstep, hnone]
      rfl

end Steps

section Runs

variable {m : Machine}

theorem executing_succ (n : Nat) (m : Machine) :
    executing (n + 1) m =
      (if m.executes then [0] else []) ++ (executing n m.next).map Nat.succ := by
  have hshift : ((fun k => (next^[k] m).executes) ∘ Nat.succ) =
      fun k => (next^[k] m.next).executes := by
    funext k
    rw [Function.comp_apply, Nat.succ_eq_add_one, Function.iterate_succ_apply]
  rw [executing, List.range_succ_eq_map, List.filter_cons, List.filter_map, hshift,
    Function.iterate_zero_apply, executing]
  split <;> rfl

theorem executing_of_stopped (hstatus : m.status ≠ .running) (n : Nat) : executing n m = [] := by
  induction n with
  | zero => rfl
  | succ n ih =>
      rw [executing_succ, next_of_stopped hstatus, ih, executes_of_stopped hstatus]
      rfl

/-- **The machine counts the steps that execute an instruction.** -/
theorem steps_iterate (n : Nat) (m : Machine) :
    (next^[n] m).steps = m.steps + (executing n m).length := by
  induction n generalizing m with
  | zero => rfl
  | succ n ih =>
      rw [Function.iterate_succ_apply, ih, steps_next, executing_succ, List.length_append,
        List.length_map]
      cases m.executes with
      | false => simp
      | true =>
          simp
          omega

end Runs

end Machine
end LineMachine
