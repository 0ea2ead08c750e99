import LineMachine.Proofs.Machine.Counting
import LineMachine.Proofs.Machine.Safety
import Mathlib.Order.Bounds.Basic

/-!
# Budgets

A run may be cut short by its budget and taken up again with another one; together the
two do what one run with both budgets does.  So the budgets that are large enough are
told by the step that stops the machine.  A halting instruction is executed by that step,
and counted.  A step that leaves the program or meets a fault executes nothing.

**Input.**  A machine in any state.

**Invariant.**  Every step that leaves a machine running has executed an instruction.

**Results.**
* `Machine.runFor_add`: budgets add up.
* `Machine.steps_of_runFor_running`: a run that leaves the machine running has executed
  an instruction with every step.
* `Machine.tally_of_step`: what the step that stops a machine has counted.
* `Machine.budgets_add_up_and_count`: both together, and the least budget that is enough.
-/

namespace LineMachine
namespace Machine

/-- The machine stands on a halting instruction. -/
def AtHalt (m : Machine) : Prop :=
  ∃ line, m.line? = some line ∧ Instruction.decode line = .ok .halt

/-- How a machine that had executed so many instructions before was stopped by its `k`-th
step, and what it has counted then. -/
inductive Tally (before k : Nat) (m : Machine) : Prop
  | halt (hstatus : m.status = .halted) (hline : m.AtHalt) (hsteps : m.steps = before + k)
  | left (hstatus : m.status = .halted) (hline : m.line? = none)
      (hsteps : m.steps + 1 = before + k)
  | faulted (hstatus : m.status = .faulted) (hfault : m.fault.isSome = true)
      (hsteps : m.steps + 1 = before + k)

/-- The budgets with which a run stops the machine. -/
def finishing (m : Machine) : Set Int :=
  {budget | ∃ patience status m', run patience (some budget) m = .ok status m' ∧
    status ≠ .running}

section Composition

variable {m m' : Machine} {status : Status}

theorem bind_runFor_of_ok {n : Nat} (k : Nat) (h : runFor n m = .ok status m') :
    (runFor n >>= fun _ => runFor k) m = runFor k m' := by
  show EStateM.bind (runFor n) (fun _ => runFor k) m = runFor k m'
  rw [EStateM.bind, h]

theorem bind_runFor_of_error {n : Nat} (k : Nat) {e : Numeral.DigitLimit}
    (h : runFor n m = .error e m') :
    (runFor n >>= fun _ => runFor k) m = .error e m' := by
  show EStateM.bind (runFor n) (fun _ => runFor k) m = .error e m'
  rw [EStateM.bind, h]

theorem runFor_of_stopped (hstatus : m.status ≠ .running) (n : Nat) :
    runFor n m = .ok m.status m := by
  cases n with
  | zero => rfl
  | succ n => exact runFor_succ_of_stopped n (step_of_stopped hstatus) hstatus

/-- **Budgets add up**, whether the first run returns or an error escapes from it. -/
theorem runFor_add (n k : Nat) : runFor (n + k) = runFor n >>= fun _ => runFor k := by
  funext m
  induction n generalizing m with
  | zero =>
      rw [Nat.zero_add, bind_runFor_of_ok k (rfl : runFor 0 m = .ok m.status m)]
  | succ n ih =>
      rw [Nat.succ_add]
      cases hstep : step m with
      | error e m' =>
          rw [bind_runFor_of_error k (runFor_succ_of_error n hstep),
            runFor_succ_of_error _ hstep]
      | ok status m' =>
          by_cases hrunning : status = .running
          · subst hrunning
            rw [runFor_succ_of_running _ hstep, ih m']
            show EStateM.bind (runFor n) (fun _ => runFor k) m' =
              EStateM.bind (runFor (n + 1)) (fun _ => runFor k) m
            rw [EStateM.bind, EStateM.bind, runFor_succ_of_running n hstep]
          · have hstopped : m'.status ≠ .running := by
              rw [status_step hstep]
              exact hrunning
            rw [bind_runFor_of_ok k (runFor_succ_of_stopped n hstep hrunning),
              runFor_of_stopped hstopped, runFor_succ_of_stopped _ hstep hrunning,
              status_step hstep]

end Composition

section Counting

variable {m m₁ m' : Machine} {status : Status} {k : Nat}

/-- A step that leaves the machine running has executed an instruction. -/
theorem steps_of_step_running (h : step m = .ok .running m') : m'.steps = m.steps + 1 := by
  cases outcome m with
  | stopped hstatus hstep =>
      rw [hstep] at h
      injection h with hrunning
      exact absurd hrunning hstatus
  | left _ _ hstep =>
      rw [hstep] at h
      cases h
  | executed _ _ _ _ hstep =>
      rw [hstep] at h
      injection h with _ hm'
      rw [← hm']
      rfl
  | faulted _ _ _ hstep =>
      rw [hstep] at h
      cases h
  | escaped _ _ _ hstep =>
      rw [hstep] at h
      cases h

/-- **What the step that stops a machine has counted.** -/
theorem tally_of_step {before : Nat} (hrunning : m.status = .running)
    (hbefore : m.steps = before + k) (h : step m = .ok status m') (hstopped : status ≠ .running) :
    Tally before (k + 1) m' := by
  cases outcome m with
  | stopped hstatus _ => exact absurd hrunning hstatus
  | left _ hline hstep =>
      rw [hstep] at h
      cases h
      exact .left rfl hline (congrArg Nat.succ hbefore)
  | @executed line inst control s' _ hline hdecode heffect hstep =>
      rw [hstep] at h
      cases h
      cases control with
      | next => exact absurd rfl hstopped
      | jump target => exact absurd rfl hstopped
      | halt =>
          obtain rfl := Instruction.eq_halt_of_effect heffect
          exact .halt rfl ⟨line, hline, hdecode⟩ (congrArg Nat.succ hbefore)
  | faulted _ _ _ hstep =>
      rw [hstep] at h
      cases h
      exact .faulted rfl rfl (congrArg Nat.succ hbefore)
  | escaped _ _ _ hstep =>
      rw [hstep] at h
      cases h

/-- A run that leaves the machine running has executed an instruction with every step. -/
theorem steps_of_runFor_running (h : runFor k m = .ok .running m') :
    m'.steps = m.steps + k := by
  induction k generalizing m with
  | zero =>
      injection h with _ hm'
      rw [← hm']
      rfl
  | succ k ih =>
      cases hstep : step m with
      | error e m₁ =>
          rw [runFor_succ_of_error k hstep] at h
          cases h
      | ok status m₁ =>
          by_cases hrunning : status = .running
          · subst hrunning
            rw [runFor_succ_of_running k hstep] at h
            rw [ih h, steps_of_step_running hstep]
            omega
          · rw [runFor_succ_of_stopped k hstep hrunning] at h
            cases h
            exact absurd rfl hrunning

/-- A run that stops a running machine does so with one of its steps. -/
theorem exists_stopping_step {n : Nat} (hrunning : m.status = .running)
    (h : runFor n m = .ok status m') (hstopped : status ≠ .running) :
    ∃ k m₁, k < n ∧ runFor k m = .ok .running m₁ ∧ step m₁ = .ok status m' := by
  induction n generalizing m with
  | zero =>
      cases h
      exact absurd hrunning hstopped
  | succ n ih =>
      cases hstep : step m with
      | error e m₁ =>
          rw [runFor_succ_of_error n hstep] at h
          cases h
      | ok status₁ m₁ =>
          by_cases hgoes : status₁ = .running
          · subst hgoes
            rw [runFor_succ_of_running n hstep] at h
            obtain ⟨k, m₂, hk, hrun, hlast⟩ := ih (status_step hstep) h
            exact ⟨k + 1, m₂, Nat.succ_lt_succ hk, (runFor_succ_of_running k hstep).trans hrun,
              hlast⟩
          · rw [runFor_succ_of_stopped n hstep hgoes] at h
            cases h
            refine ⟨0, m, Nat.succ_pos n, ?_, hstep⟩
            rw [runFor, hrunning]

end Counting

section LeastBudget

variable {m m₁ m' : Machine} {status : Status} {k n : Nat}

/-- A run with a smaller budget leaves running what a run with a larger one does. -/
theorem exists_runFor_running_of_le (hrun : runFor k m = .ok .running m₁) (hn : n ≤ k) :
    ∃ m₂, runFor n m = .ok .running m₂ := by
  obtain ⟨rest, rfl⟩ := Nat.exists_eq_add_of_le hn
  rw [runFor_add] at hrun
  cases hfirst : runFor n m with
  | error e m₂ =>
      rw [bind_runFor_of_error rest hfirst] at hrun
      cases hrun
  | ok status m₂ =>
      by_cases hgoes : status = .running
      · exact ⟨m₂, by rw [hgoes]⟩
      · have hstopped : m₂.status ≠ .running := by
          rw [status_runFor hfirst]
          exact hgoes
        rw [bind_runFor_of_ok rest hfirst, runFor_of_stopped hstopped] at hrun
        injection hrun with hrunning
        exact absurd hrunning hstopped

/-- A run with a budget beyond the step that stops the machine ends with that step. -/
theorem runFor_of_stopping_step (hrun : runFor k m = .ok .running m₁)
    (hlast : step m₁ = .ok status m') (hstopped : status ≠ .running) (hn : k < n) :
    runFor n m = .ok status m' := by
  obtain ⟨rest, rfl⟩ := Nat.exists_eq_add_of_lt hn
  rw [Nat.add_assoc, runFor_add, bind_runFor_of_ok _ hrun,
    runFor_succ_of_stopped rest hlast hstopped]

/-- **The least budget that is enough** is that of the step that stops the machine. -/
theorem isLeast_finishing (hrun : runFor k m = .ok .running m₁)
    (hlast : step m₁ = .ok status m') (hstopped : status ≠ .running) :
    IsLeast m.finishing ((k + 1 : Nat) : Int) := by
  constructor
  · exact ⟨0, status, m', runFor_of_stopping_step hrun hlast hstopped (Nat.lt_succ_self k),
      hstopped⟩
  · rintro budget ⟨patience, status₂, m₂, hfinished, hstopped₂⟩
    by_contra hsmall
    have hle : budget.toNat ≤ k := by omega
    obtain ⟨m₃, hshort⟩ := exists_runFor_running_of_le hrun hle
    have hfinished' : runFor budget.toNat m = .ok status₂ m₂ := hfinished
    rw [hshort] at hfinished'
    cases hfinished'
    exact hstopped₂ rfl

end LeastBudget

/-- **Budgets add up, and they count the instructions.**  Two runs in turn do what one
run with both budgets does, and an error that escapes comes again; a negative budget does
nothing.  A run that leaves a running machine running has executed as many instructions
as its budget allows.  A run that stops it has done so with the `k`-th step, which counts
if it executes a halting instruction; `k` is the least budget that is enough, and with
any larger one, or none, the machine is the same in the end. -/
theorem budgets_add_up_and_count (m : Machine) :
    (∀ patience (n k : Nat), run patience (some (n + k)) m =
      (run patience (some n) >>= fun _ => run patience (some k)) m) ∧
    (∀ patience budget e m', run patience budget m = .error e m' →
      ∀ k : Nat, 0 < k → run patience (some k) m' = .error e m') ∧
    (∀ patience budget, budget < 0 → run patience (some budget) m = .ok m.status m) ∧
    (∀ patience budget status m', m.status = .running →
      run patience budget m = .ok status m' →
      m'.steps = m.steps + (executing (stepsAllowed patience budget) m).length ∧
      (status = .running → m'.steps = m.steps + stepsAllowed patience budget) ∧
      (status ≠ .running → ∃ k : Nat, 0 < k ∧ k ≤ stepsAllowed patience budget ∧
        Tally m.steps k m' ∧ IsLeast m.finishing k ∧
        (∀ p larger, (k : Int) ≤ larger → run p (some larger) m = .ok status m') ∧
        (∀ p, k ≤ p → run p none m = .ok status m'))) := by
  refine ⟨fun patience n k => ?_, fun patience budget e m' hrun k hk => ?_,
    fun patience budget hnegative => ?_, fun patience budget status m' hrunning hrun => ?_⟩
  · have hboth : ((n : Int) + k).toNat = n + k := by omega
    show runFor ((n : Int) + k).toNat m = _
    rw [hboth, runFor_add]
    rfl
  · obtain ⟨k, rfl⟩ := Nat.exists_eq_succ_of_ne_zero (Nat.ne_of_gt hk)
    exact runFor_succ_of_error k (step_of_runFor_error hrun)
  · have hnone : budget.toNat = 0 := by omega
    show runFor budget.toNat m = _
    rw [hnone, runFor]
  · refine ⟨?_, fun hgoes => ?_, fun hstopped => ?_⟩
    · rw [eq_iterate_of_runFor hrun, steps_iterate]
    · subst hgoes
      exact steps_of_runFor_running hrun
    · obtain ⟨k, m₁, hk, hfirst, hlast⟩ := exists_stopping_step hrunning hrun hstopped
      have htally := tally_of_step (status_runFor hfirst) (steps_of_runFor_running hfirst) hlast
        hstopped
      refine ⟨k + 1, Nat.succ_pos k, hk, htally, isLeast_finishing hfirst hlast hstopped, ?_, ?_⟩
      · intro p larger hlarger
        have hlt : k < larger.toNat := by omega
        exact runFor_of_stopping_step hfirst hlast hstopped hlt
      · intro p hp
        exact runFor_of_stopping_step hfirst hlast hstopped hp

/-- Two instructions are executed in each case, but one step more is needed to leave the
program. -/
theorem budgets_add_up_and_count_halting_and_leaving :
    IsLeast (ofProgram #["VARINT x 7", "HLT"]).finishing 2 ∧
      IsLeast (ofProgram #["VARINT x 7", "CHS x"]).finishing 3 := by
  constructor
  · have hhalted : (final (runFor 9 (ofProgram #["VARINT x 7", "HLT"]))).status = .halted := by
      decide +kernel
    have hrun := runFor_eq_ok_of_stopped hhalted (by decide)
    obtain ⟨k, _, _, htally, hleast, _⟩ :=
      ((budgets_add_up_and_count _).2.2.2 9 none _ _ rfl hrun).2.2 (by decide)
    cases htally with
    | halt _ _ hsteps =>
        have hk : 2 = 0 + k := hsteps
        obtain rfl : k = 2 := by omega
        exact hleast
    | left _ hline => cases hline
    | faulted hstatus => cases hstatus
  · have hhalted : (final (runFor 9 (ofProgram #["VARINT x 7", "CHS x"]))).status = .halted := by
      decide +kernel
    have hrun := runFor_eq_ok_of_stopped hhalted (by decide)
    obtain ⟨k, _, _, htally, hleast, _⟩ :=
      ((budgets_add_up_and_count _).2.2.2 9 none _ _ rfl hrun).2.2 (by decide)
    cases htally with
    | halt _ hline =>
        obtain ⟨_, hnone, _⟩ := hline
        cases hnone
    | left _ _ hsteps =>
        have hk : 2 + 1 = 0 + k := hsteps
        obtain rfl : k = 3 := by omega
        exact hleast
    | faulted hstatus => cases hstatus

end Machine
end LineMachine
