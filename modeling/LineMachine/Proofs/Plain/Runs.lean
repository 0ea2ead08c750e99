import LineMachine.Proofs.Machine.Reachable
import LineMachine.Proofs.Plain.Execution

/-!
# Runs without lists in lists are plain

As long as no list is stored in a list, a machine goes through its program as the
plain machine does: no two names ever share a list, so that no sharing can be seen.

**Results.**
* `Machine.Agrees`: a machine and a plain machine are at the same point.
* `Machine.agrees_next`: they are after one more step of both.
* `Machine.flat_runs_are_plain`: they are after any number of steps from a program.
-/

namespace LineMachine

/-- The machines are at the same point of the same program, and their names hold
the same. -/
structure Machine.Agrees (m : Machine) (p : PlainMachine) : Prop where
  program : m.program = p.program
  memory : m.store.Represents p.memory
  pc : m.pc = p.pc
  status : m.status = p.status
  fault : m.fault = p.fault
  steps : m.steps = p.steps

/-- The next step does not succeed in storing a list in a list. -/
def Machine.StaysFlat (m : Machine) : Prop :=
  ∀ inst, m.Executes inst → inst.KeepsFlat m.store

/-- Tokens that name no variable have no list values. -/
theorem Instruction.keepsFlat_of_get?_eq_none {inst : Instruction} {s : Store}
    (hstored : ∀ token, token ∈ inst.stored → s.memory.get? token = none) :
    inst.KeepsFlat s := by
  intro token htoken r hr
  cases hr with
  | bound hname =>
      rw [hstored token htoken] at hname
      cases hname

namespace Machine

section Steps

variable {m : Machine} {p : PlainMachine}

theorem agrees_load (program : Array String) (m : Machine) :
    (m.load program).Agrees (.start program) :=
  ⟨rfl, Store.represents_empty m.heap, rfl, rfl, rfl, rfl⟩

/-- **A machine and a plain machine that agree do so after one more step.** -/
theorem agrees_next (hs : m.store.Closed) (h : m.Agrees p) (hflat : m.StaysFlat) :
    m.next.Agrees p.next := by
  obtain ⟨program, store, pc, status, fault, steps⟩ := m
  obtain ⟨program', memory, pc', status', fault', steps'⟩ := p
  obtain ⟨hprogram, hmemory, hpc, hstatus, hfault, hsteps⟩ := h
  dsimp only at hs hprogram hmemory hpc hstatus hfault hsteps
  subst hprogram hpc hstatus hfault hsteps
  cases status with
  | halted => exact ⟨rfl, hmemory, rfl, rfl, rfl, rfl⟩
  | faulted => exact ⟨rfl, hmemory, rfl, rfl, rfl, rfl⟩
  | running =>
      cases hline : lineAt? program pc with
      | none =>
          simp only [next, step, hline, final, PlainMachine.next]
          exact ⟨rfl, hmemory, rfl, rfl, rfl, rfl⟩
      | some line =>
          have hmatches := Instruction.matches_executeLine hs hmemory line fun inst hdecode hexec =>
            hflat inst ⟨rfl, ⟨line, hline, hdecode⟩, hexec⟩
          rcases hmatches.cases with ⟨control, store', ⟨control', memory'⟩, hrun, hplain, hsame⟩ |
            ⟨e, store', hrun, hplain⟩
          · obtain ⟨rfl, hmemory'⟩ := hsame
            simp only [next, step, hline, hrun, final, PlainMachine.next, hplain]
            exact ⟨rfl, hmemory', rfl, rfl, rfl, rfl⟩
          · obtain rfl := Instruction.executeLine_atomic line store store' e hrun
            cases e with
            | fault f =>
                simp only [next, step, hline, hrun, final, PlainMachine.next, hplain]
                exact ⟨rfl, hmemory, rfl, rfl, rfl, rfl⟩
            | limit e =>
                simp only [next, step, hline, hrun, final, PlainMachine.next, hplain]
                exact ⟨rfl, hmemory, rfl, rfl, rfl, rfl⟩

theorem agrees_iterate (hm : Reachable m) (h : m.Agrees p) {n : Nat}
    (hflat : ∀ k, k < n → (next^[k] m).StaysFlat) :
    (next^[n] m).Agrees (PlainMachine.next^[n] p) := by
  induction n with
  | zero => exact h
  | succ n ih =>
      rw [Function.iterate_succ_apply', Function.iterate_succ_apply']
      have hbefore := ih fun k hk => hflat k (Nat.lt_succ_of_lt hk)
      exact agrees_next (closed_of_reachable (hm.iterate n)) hbefore (hflat n (Nat.lt_succ_self n))

end Steps

/-- **Runs without lists in lists are plain.**  For as long as no step succeeds in
storing a list in a list, a machine with a program loaded agrees step by step with
the plain machine that starts on the program. -/
theorem flat_runs_are_plain {m : Machine} (hm : Reachable m) (program : Array String) (n : Nat)
    (hflat : ∀ k, k < n → (next^[k] (m.load program)).StaysFlat) :
    (next^[n] (m.load program)).Agrees (PlainMachine.next^[n] (.start program)) :=
  agrees_iterate (hm.call (.load program)) (agrees_load program m) hflat

/-- A program whose lists are copied, changed and combined, but never nested. -/
def flatProgram : Array String :=
  #["VARLIST a 1 2", "COPY b a", "SET 3 0 b", "COMBINE b a", "GET b 0 b"]

theorem flat_runs_are_plain_flatProgram :
    (next^[5] ((ofProgram #[]).load flatProgram)).Agrees
        (PlainMachine.next^[5] (.start flatProgram)) ∧
      (PlainMachine.next^[5] (.start flatProgram)).memory.get? "a" = some (.seq [3, 2, 1, 2]) ∧
      (PlainMachine.next^[5] (.start flatProgram)).memory.get? "b" = some (.int 3) := by
  refine ⟨flat_runs_are_plain (Reachable.start #[]) flatProgram 5 ?_, by decide +kernel,
    by decide +kernel⟩
  intro k hk inst hinst
  refine Instruction.keepsFlat_of_get?_eq_none ?_
  obtain rfl | rfl | rfl | rfl | rfl : k = 0 ∨ k = 1 ∨ k = 2 ∨ k = 3 ∨ k = 4 := by omega
  · have hdecode : Instruction.decode "VARLIST a 1 2" = .ok (.varList "a" ["1", "2"]) := rfl
    rw [hinst.eq_of_line (by decide +kernel) hdecode]
    decide +kernel
  · have hdecode : Instruction.decode "COPY b a" = .ok (.copy "b" "a") := rfl
    rw [hinst.eq_of_line (by decide +kernel) hdecode]
    decide +kernel
  · have hdecode : Instruction.decode "SET 3 0 b" = .ok (.set "3" 0 "b") := rfl
    rw [hinst.eq_of_line (by decide +kernel) hdecode]
    decide +kernel
  · have hdecode : Instruction.decode "COMBINE b a" = .ok (.combine "b" "a") := rfl
    rw [hinst.eq_of_line (by decide +kernel) hdecode]
    decide +kernel
  · have hdecode : Instruction.decode "GET b 0 b" = .ok (.get "b" 0 "b") := rfl
    rw [hinst.eq_of_line (by decide +kernel) hdecode]
    decide +kernel

end Machine
end LineMachine
