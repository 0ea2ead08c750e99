import LineMachine.Instruction.Execute

/-!
# The machine

A machine holds a program, a store and a place in the program.  It runs until
it halts, at a halting instruction or outside the program, or until it meets a
fault, which it keeps.  Nothing happens to a machine that has stopped.

**Input.**  A program, line by line; lines are read when they are reached.

**Budgets.**  A run may be limited to a number of steps.  A run without a budget
ends when the machine stops; as nothing says that it will, such a run is given a
number of steps after which it is abandoned.

**Results.**
* `step`: one step.  A refused conversion escapes and leaves the machine as it was.
* `runFor`, `run`: steps up to a number, or up to a budget.
* `load`: a new program in a machine without names.
* `snapshot`: the place and the names, for later inspection.
* `status_step`: a step that returns tells the status of the machine.
-/

namespace LineMachine

/-- Whether a machine goes on, has come to an end, or has met a fault. -/
inductive Status where
  | running
  | halted
  | faulted
deriving DecidableEq, Repr

def Status.name : Status → String
  | running => "running"
  | halted => "halted"
  | faulted => "faulted"

/-- A machine; `pc` is the number of the line to be executed next. -/
structure Machine where
  program : Array String
  store : Store
  pc : Int
  status : Status
  fault : Option Fault
  steps : Nat
deriving DecidableEq, Repr

/-- A place in a program with the names and values of that moment. -/
structure Snapshot where
  pc : Int
  memory : Memory
deriving DecidableEq, Repr

/-- The line to go on with after a line. -/
def Control.lineAfter (line : Int) : Control → Int
  | next => line + 1
  | jump target => target
  | halt => line

/-- The status after an instruction. -/
def Control.statusAfter (status : Status) : Control → Status
  | next | jump _ => status
  | halt => .halted

namespace Machine

/-- A machine without names that starts on a program; lists are kept. -/
def load (program : Array String) (m : Machine) : Machine :=
  { program, store := ⟨.empty, m.store.heap⟩, pc := 0, status := .running, fault := none,
    steps := 0 }

/-- A new machine that starts on a program. -/
def ofProgram (program : Array String) : Machine :=
  { program, store := ⟨.empty, .empty⟩, pc := 0, status := .running, fault := none, steps := 0 }

/-- The line of a program with a number, if there is one. -/
def lineAt? (program : Array String) (pc : Int) : Option String :=
  if 0 ≤ pc then program[pc.toNat]? else none

def line? (m : Machine) : Option String := lineAt? m.program m.pc

def memory (m : Machine) : Memory := m.store.memory

def heap (m : Machine) : Heap := m.store.heap

def snapshot (m : Machine) : Snapshot := ⟨m.pc, m.memory⟩

/-- Executes an instruction, whatever the status, and returns the line that it
goes on with; the machine does not move there. -/
def execute (inst : Instruction) : EStateM Failure Machine Int
  | ⟨program, store, pc, status, fault, steps⟩ =>
    match inst.execute store with
    | .ok control store =>
      .ok (control.lineAfter pc) ⟨program, store, pc, control.statusAfter status, fault, steps⟩
    | .error e store => .error e ⟨program, store, pc, status, fault, steps⟩

/-- One step: the line at the place of the machine is executed, or the machine
halts if there is none. -/
def step : EStateM Numeral.DigitLimit Machine Status
  | ⟨program, store, pc, .running, fault, steps⟩ =>
    match lineAt? program pc with
    | none => .ok .halted ⟨program, store, pc, .halted, fault, steps⟩
    | some line =>
      match Instruction.executeLine line store with
      | .ok control store =>
        .ok (control.statusAfter .running)
          ⟨program, store, control.lineAfter pc, control.statusAfter .running, fault, steps + 1⟩
      | .error (.fault f) store => .ok .faulted ⟨program, store, pc, .faulted, some f, steps⟩
      | .error (.limit e) store => .error e ⟨program, store, pc, .running, fault, steps⟩
  | ⟨program, store, pc, .halted, fault, steps⟩ =>
    .ok .halted ⟨program, store, pc, .halted, fault, steps⟩
  | ⟨program, store, pc, .faulted, fault, steps⟩ =>
    .ok .faulted ⟨program, store, pc, .faulted, fault, steps⟩

/-- Steps until the machine stops, but not more than a number of them. -/
def runFor : Nat → EStateM Numeral.DigitLimit Machine Status
  | 0, m => .ok m.status m
  | n + 1, m =>
    match step m with
    | .ok .running m => runFor n m
    | .ok status m => .ok status m
    | .error e m => .error e m

/-- The number of steps that a budget allows: a budget below zero allows none, and
a run without a budget is abandoned after `patience` steps. -/
def stepsAllowed (patience : Nat) : Option Int → Nat
  | none => patience
  | some budget => budget.toNat

/-- Steps until the machine stops or the budget is spent. -/
def run (patience : Nat) (budget : Option Int) : EStateM Numeral.DigitLimit Machine Status :=
  runFor (stepsAllowed patience budget)

theorem status_step {m m' : Machine} {status : Status} (h : step m = .ok status m') :
    m'.status = status := by
  obtain ⟨program, store, pc, before, fault, steps⟩ := m
  cases before with
  | running =>
    simp only [step] at h
    split at h
    · cases h
      rfl
    · split at h <;> cases h <;> rfl
  | halted =>
    cases h
    rfl
  | faulted =>
    cases h
    rfl

theorem status_runFor {n : Nat} {m m' : Machine} {status : Status}
    (h : runFor n m = .ok status m') : m'.status = status := by
  induction n generalizing m with
  | zero =>
    cases h
    rfl
  | succ n ih =>
    simp only [runFor] at h
    split at h
    · exact ih h
    · rename_i hs
      cases h
      exact status_step hs
    · cases h

end Machine
end LineMachine
