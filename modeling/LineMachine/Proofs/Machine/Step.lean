import LineMachine.Machine
import LineMachine.Proofs.Instruction.Effect
import Mathlib.Logic.Function.Iterate

/-!
# What a step can do

A step of a machine has one of five outcomes: the machine has stopped before; it
leaves the program; it executes an instruction; it meets a fault; or a refused
conversion escapes.  A run is a number of steps: those that it is allowed but does not
make, as the machine has stopped or an error has escaped, would change nothing.

**Results.**
* `Machine.outcome`: every step has one of the five outcomes.
* `Machine.Executes.exists_effect`: an instruction that is executed has its effect.
* `Machine.store_next_cases`: what a step can do to the store.
* `Machine.final_runFor`: a run ends where as many steps lead as it is allowed.
-/

namespace LineMachine
namespace Machine

/-- The machine after a computation, whether this returned or an error escaped. -/
def final {ε α : Type} : EStateM.Result ε Machine α → Machine
  | .ok _ m => m
  | .error _ m => m

/-- The machine after one step. -/
def next (m : Machine) : Machine :=
  final (step m)

/-- The next step of the machine executes the instruction. -/
def Executes (m : Machine) (inst : Instruction) : Prop :=
  m.status = .running ∧
    (∃ line, m.line? = some line ∧ Instruction.decode line = .ok inst) ∧
    ∃ control s', inst.execute m.store = .ok control s'

/-- The machine that has executed an instruction. -/
def executed (m : Machine) (control : Control) (s' : Store) : Machine :=
  { m with
    store := s', pc := control.lineAfter m.pc, status := control.statusAfter .running,
    steps := m.steps + 1 }

/-- The outcomes of a step. -/
inductive Outcome (m : Machine) : Prop
  | stopped (hstatus : m.status ≠ .running) (hstep : step m = .ok m.status m)
  | left (hstatus : m.status = .running) (hline : m.line? = none)
      (hstep : step m = .ok .halted { m with status := .halted })
  | executed {line : String} {inst : Instruction} {control : Control} {s' : Store}
      (hstatus : m.status = .running) (hline : m.line? = some line)
      (hdecode : Instruction.decode line = .ok inst) (heffect : Effect inst m.store control s')
      (hstep : step m = .ok (control.statusAfter .running) (m.executed control s'))
  | faulted {line : String} {f : Fault}
      (hstatus : m.status = .running) (hline : m.line? = some line)
      (hfault : Instruction.executeLine line m.store = .error (.fault f) m.store)
      (hstep : step m = .ok .faulted { m with status := .faulted, fault := some f })
  | escaped {line : String} {e : Numeral.DigitLimit}
      (hstatus : m.status = .running) (hline : m.line? = some line)
      (hlimit : Instruction.executeLine line m.store = .error (.limit e) m.store)
      (hstep : step m = .error e m)

theorem executeLine_eq_ok {line : String} {s s' : Store} {control : Control}
    (h : Instruction.executeLine line s = .ok control s') :
    ∃ inst, Instruction.decode line = .ok inst ∧ Effect inst s control s' := by
  cases hdecode : Instruction.decode line with
  | ok inst =>
      rw [Instruction.executeLine, hdecode] at h
      exact ⟨inst, rfl, Instruction.effect_of_execute h⟩
  | error f =>
      rw [Instruction.executeLine, hdecode] at h
      cases h

section Lines

variable {m : Machine} {line : String}

theorem step_of_line_none (hstatus : m.status = .running) (hline : m.line? = none) :
    step m = .ok .halted { m with status := .halted } := by
  obtain ⟨program, store, pc, status, fault, steps⟩ := m
  cases hstatus
  have hline' : lineAt? program pc = none := hline
  simp only [step, hline']

theorem step_of_executeLine_ok {control : Control} {s' : Store}
    (hstatus : m.status = .running) (hline : m.line? = some line)
    (hexec : Instruction.executeLine line m.store = .ok control s') :
    step m = .ok (control.statusAfter .running) (m.executed control s') := by
  obtain ⟨program, store, pc, status, fault, steps⟩ := m
  cases hstatus
  have hline' : lineAt? program pc = some line := hline
  have hexec' : Instruction.executeLine line store = .ok control s' := hexec
  simp only [step, hline', hexec', executed]

theorem step_of_executeLine_fault {f : Fault} {s' : Store}
    (hstatus : m.status = .running) (hline : m.line? = some line)
    (hexec : Instruction.executeLine line m.store = .error (.fault f) s') :
    step m = .ok .faulted { m with status := .faulted, fault := some f } := by
  obtain rfl := Instruction.executeLine_atomic line _ s' _ hexec
  obtain ⟨program, store, pc, status, fault, steps⟩ := m
  cases hstatus
  have hline' : lineAt? program pc = some line := hline
  have hexec' : Instruction.executeLine line store = .error (.fault f) store := hexec
  simp only [step, hline', hexec']

theorem step_of_executeLine_limit {e : Numeral.DigitLimit} {s' : Store}
    (hstatus : m.status = .running) (hline : m.line? = some line)
    (hexec : Instruction.executeLine line m.store = .error (.limit e) s') :
    step m = .error e m := by
  obtain rfl := Instruction.executeLine_atomic line _ s' _ hexec
  obtain ⟨program, store, pc, status, fault, steps⟩ := m
  cases hstatus
  have hline' : lineAt? program pc = some line := hline
  have hexec' : Instruction.executeLine line store = .error (.limit e) store := hexec
  simp only [step, hline', hexec']

end Lines

section Instructions

variable {m : Machine} {line : String} {inst : Instruction}

/-- A line that is an instruction is executed by one of the rules. -/
theorem step_of_effect {control : Control} {s' : Store}
    (hstatus : m.status = .running) (hline : m.line? = some line)
    (hdecode : Instruction.decode line = .ok inst) (heffect : Effect inst m.store control s') :
    step m = .ok (control.statusAfter .running) (m.executed control s') := by
  refine step_of_executeLine_ok hstatus hline ?_
  rw [Instruction.executeLine, hdecode]
  exact Instruction.execute_of_effect heffect

theorem step_of_fault {f : Fault} {s' : Store}
    (hstatus : m.status = .running) (hline : m.line? = some line)
    (hdecode : Instruction.decode line = .ok inst)
    (hfault : inst.execute m.store = .error (.fault f) s') :
    step m = .ok .faulted { m with status := .faulted, fault := some f } := by
  have hexec : Instruction.executeLine line m.store = .error (.fault f) s' := by
    rw [Instruction.executeLine, hdecode]
    exact hfault
  exact step_of_executeLine_fault hstatus hline hexec

theorem step_of_decode_error {e : DecodeError}
    (hstatus : m.status = .running) (hline : m.line? = some line)
    (hdecode : Instruction.decode line = .error (.fault (.decode e))) :
    step m = .ok .faulted { m with status := .faulted, fault := some (.decode e) } := by
  have hexec : Instruction.executeLine line m.store = .error (.fault (.decode e)) m.store := by
    rw [Instruction.executeLine, hdecode]
    rfl
  exact step_of_executeLine_fault hstatus hline hexec

end Instructions

/-- **Every step has one of the outcomes.** -/
theorem outcome (m : Machine) : Outcome m := by
  cases hstatus : m.status with
  | halted =>
      refine .stopped (by simp [hstatus]) ?_
      obtain ⟨program, store, pc, status, fault, steps⟩ := m
      cases hstatus
      rfl
  | faulted =>
      refine .stopped (by simp [hstatus]) ?_
      obtain ⟨program, store, pc, status, fault, steps⟩ := m
      cases hstatus
      rfl
  | running =>
      cases hline : m.line? with
      | none => exact .left hstatus hline (step_of_line_none hstatus hline)
      | some line =>
          cases hexec : Instruction.executeLine line m.store with
          | ok control s' =>
              obtain ⟨inst, hdecode, heffect⟩ := executeLine_eq_ok hexec
              exact .executed hstatus hline hdecode heffect
                (step_of_executeLine_ok hstatus hline hexec)
          | error e s' =>
              obtain rfl := Instruction.executeLine_atomic line m.store s' e hexec
              cases e with
              | fault f =>
                  exact .faulted hstatus hline hexec
                    (step_of_executeLine_fault hstatus hline hexec)
              | limit e =>
                  exact .escaped hstatus hline hexec
                    (step_of_executeLine_limit hstatus hline hexec)

section Next

variable {m : Machine}

theorem step_of_stopped (hstatus : m.status ≠ .running) : step m = .ok m.status m := by
  cases outcome m with
  | stopped _ hstep => exact hstep
  | left hrunning => exact absurd hrunning hstatus
  | executed hrunning => exact absurd hrunning hstatus
  | faulted hrunning => exact absurd hrunning hstatus
  | escaped hrunning => exact absurd hrunning hstatus

theorem next_of_stopped (hstatus : m.status ≠ .running) : m.next = m := by
  rw [next, step_of_stopped hstatus, final]

/-- The line of an instruction that is executed, and what it does. -/
theorem Executes.exists_line {inst : Instruction} (h : m.Executes inst) :
    m.status = .running ∧ ∃ line control s', m.line? = some line ∧
      Instruction.executeLine line m.store = .ok control s' ∧ Effect inst m.store control s' := by
  obtain ⟨hstatus, ⟨line, hline, hdecode⟩, control, s', hexec⟩ := h
  refine ⟨hstatus, line, control, s', hline, ?_, Instruction.effect_of_execute hexec⟩
  rw [Instruction.executeLine, hdecode]
  exact hexec

/-- An instruction that is executed has its effect, and no other. -/
theorem Executes.exists_effect {inst : Instruction} (h : m.Executes inst) :
    ∃ control s', Effect inst m.store control s' ∧ m.next = m.executed control s' := by
  obtain ⟨hstatus, line, control, s', hline, hexec, heffect⟩ := h.exists_line
  refine ⟨control, s', heffect, ?_⟩
  rw [next, step_of_executeLine_ok hstatus hline hexec, final]

theorem Executes.eq_of_line {inst inst' : Instruction} {line : String}
    (h : m.Executes inst)
    (hline : m.line? = some line)
    (hdecode : Instruction.decode line = .ok inst') :
    inst = inst' := by
  obtain ⟨_, ⟨line', hline', hdecode'⟩, _⟩ := h
  rw [hline] at hline'
  cases hline'
  rw [hdecode] at hdecode'
  cases hdecode'
  rfl

theorem store_next (h : ∀ inst, ¬ m.Executes inst) : m.next.store = m.store := by
  cases outcome m with
  | stopped _ hstep => rw [next, hstep, final]
  | left _ _ hstep => rw [next, hstep, final]
  | @executed line inst control s' hstatus hline hdecode heffect _ =>
      exact absurd ⟨hstatus, ⟨line, hline, hdecode⟩, control, s',
        Instruction.execute_of_effect heffect⟩ (h inst)
  | faulted _ _ _ hstep => rw [next, hstep, final]
  | escaped _ _ _ hstep => rw [next, hstep, final]

/-- The store after a step is the one before, or one that the instruction that is
executed may lead to. -/
theorem store_next_cases {Q : Store → Prop}
    (hsame : Q m.store)
    (heffect : ∀ inst control s', m.Executes inst → Effect inst m.store control s' → Q s') :
    Q m.next.store := by
  by_cases hexec : ∃ inst, m.Executes inst
  · obtain ⟨inst, hinst⟩ := hexec
    obtain ⟨control, s', heff, hnext⟩ := hinst.exists_effect
    rw [hnext]
    exact heffect inst control s' hinst heff
  · rw [store_next fun inst hinst => hexec ⟨inst, hinst⟩]
    exact hsame

end Next

section Runs

theorem eq_of_step_error {m m' : Machine} {e : Numeral.DigitLimit} (h : step m = .error e m') :
    m' = m := by
  cases outcome m with
  | stopped _ hstep =>
      rw [hstep] at h
      cases h
  | left _ _ hstep =>
      rw [hstep] at h
      cases h
  | executed _ _ _ _ hstep =>
      rw [hstep] at h
      cases h
  | faulted _ _ _ hstep =>
      rw [hstep] at h
      cases h
  | escaped _ _ _ hstep =>
      rw [hstep] at h
      cases h
      rfl

theorem runFor_succ_of_error {m m' : Machine} {e : Numeral.DigitLimit} (n : Nat)
    (h : step m = .error e m') : runFor (n + 1) m = .error e m' := by
  simp only [runFor, h]

theorem runFor_succ_of_running {m m' : Machine} (n : Nat) (h : step m = .ok .running m') :
    runFor (n + 1) m = runFor n m' := by
  simp only [runFor, h]

theorem runFor_succ_of_stopped {m m' : Machine} {status : Status} (n : Nat)
    (h : step m = .ok status m') (hstatus : status ≠ .running) :
    runFor (n + 1) m = .ok status m' := by
  cases status with
  | running => exact absurd rfl hstatus
  | halted => simp only [runFor, h]
  | faulted => simp only [runFor, h]

/-- A machine that an error has escaped from is still running. -/
theorem status_of_step_error {m m' : Machine} {e : Numeral.DigitLimit}
    (h : step m = .error e m') : m'.status = .running := by
  obtain rfl := eq_of_step_error h
  by_contra hstopped
  rw [step_of_stopped hstopped] at h
  cases h

/-- A run has returned if the machine has stopped after it. -/
theorem runFor_eq_ok_of_stopped {n : Nat} {m : Machine} {status : Status}
    (hend : (final (runFor n m)).status = status) (hstopped : status ≠ .running) :
    runFor n m = .ok status (final (runFor n m)) := by
  induction n generalizing m with
  | zero =>
      subst hend
      rfl
  | succ n ih =>
      cases hstep : step m with
      | error e m' =>
          rw [runFor_succ_of_error n hstep] at hend
          exact absurd (hend.symm.trans (status_of_step_error hstep)) hstopped
      | ok st m' =>
          by_cases hrunning : st = .running
          · subst hrunning
            rw [runFor_succ_of_running n hstep] at hend ⊢
            exact ih hend
          · rw [runFor_succ_of_stopped n hstep hrunning] at hend ⊢
            rw [← hend, final, status_step hstep]

/-- **A run ends where as many steps lead as it is allowed**: nothing happens to a
machine that has stopped, and a refused conversion is refused again. -/
theorem final_runFor (n : Nat) (m : Machine) : final (runFor n m) = next^[n] m := by
  induction n generalizing m with
  | zero => rfl
  | succ n ih =>
      rw [Function.iterate_succ_apply]
      cases hstep : step m with
      | error e m' =>
          obtain rfl := eq_of_step_error hstep
          have hnext : m'.next = m' := by rw [next, hstep, final]
          rw [runFor_succ_of_error n hstep, hnext, Function.iterate_fixed hnext, final]
      | ok status m' =>
          have hnext : m.next = m' := by rw [next, hstep, final]
          rw [hnext]
          by_cases hrunning : status = .running
          · subst hrunning
            rw [runFor_succ_of_running n hstep, ih]
          · have hstopped : m'.status ≠ .running := by
              rw [status_step hstep]
              exact hrunning
            rw [runFor_succ_of_stopped n hstep hrunning,
              Function.iterate_fixed (next_of_stopped hstopped), final]

theorem eq_iterate_of_runFor {n : Nat} {m m' : Machine} {status : Status}
    (h : runFor n m = .ok status m') : m' = next^[n] m := by
  rw [← final_runFor, h, final]

end Runs

end Machine
end LineMachine
