import LineMachine.Machine

/-!
# The plain machine

The plain machine has no heap.  Its variables hold integers and sequences of
integers, nothing is shared, and every assignment copies.  It reads lines, goes
from line to line and meets faults as the machine with a heap does.

**Input.**  A program, line by line.

**Sequences of sequences.**  The plain machine has none.  An instruction that would
have to store a sequence in a sequence is refused after all its other checks.

**Results.**
* `PlainMemory.execute`: the effect of an instruction on the variables.
* `PlainMachine.next`: the machine after one step; a refused conversion leaves it as
  it was.
-/

namespace LineMachine

/-- What a variable of the plain machine holds. -/
inductive PlainValue where
  | int (n : Int)
  | seq (ns : List Int)
deriving DecidableEq, Repr

namespace PlainValue

def asInteger : PlainValue → Except Failure Int
  | int n => .ok n
  | seq _ => .error (.fault (.typeMismatch .int .list))

def asSequence : PlainValue → Except Failure (List Int)
  | int _ => .error (.fault (.typeMismatch .list .int))
  | seq ns => .ok ns

def isZeroOrEmpty : PlainValue → Bool
  | int n => n == 0
  | seq ns => ns.isEmpty

end PlainValue

/-- The names in order of first assignment, and what each of them holds. -/
structure PlainMemory where
  names : List String
  get? : String → Option PlainValue
  nodup : names.Nodup
  mem_names : ∀ name, name ∈ names ↔ (get? name).isSome = true

namespace PlainMemory

def empty : PlainMemory := ⟨[], fun _ => none, List.nodup_nil, by simp⟩

/-- The memory with a name bound to a value; a new name joins the end. -/
def set (m : PlainMemory) (name : String) (v : PlainValue) : PlainMemory where
  names := if name ∈ m.names then m.names else m.names ++ [name]
  get? := fun other => if name = other then some v else m.get? other
  nodup := by
    split
    · exact m.nodup
    · rename_i hnew
      exact List.nodup_append.mpr ⟨m.nodup, by simp, by grind⟩
  mem_names := by
    intro other
    have hother := m.mem_names other
    grind

theorem get?_set (m : PlainMemory) (name other : String) (v : PlainValue) :
    (m.set name v).get? other = if name = other then some v else m.get? other :=
  rfl

theorem names_set (m : PlainMemory) (name : String) (v : PlainValue) :
    (m.set name v).names = m.names ++ if name ∈ m.names then [] else [name] := by
  rw [set]
  split
  · exact (List.append_nil m.names).symm
  · rfl

def lookup (m : PlainMemory) (name : String) : Except Failure PlainValue :=
  match m.get? name with
  | some v => .ok v
  | none => .error (.fault (.undefinedVariable name))

def lookupSequence (m : PlainMemory) (name : String) : Except Failure (List Int) := do
  (← m.lookup name).asSequence

def lookupInteger (m : PlainMemory) (name : String) : Except Failure Int := do
  (← m.lookup name).asInteger

/-- The value of a token: a variable before a literal. -/
def resolve (m : PlainMemory) (token : String) : Except Failure PlainValue :=
  match m.get? token with
  | some v => .ok v
  | none =>
    match Numeral.readMargined token with
    | .error e => .error (.limit e)
    | .ok none => .error (.fault (.undefinedVariable token))
    | .ok (some n) => .ok (.int n)

/-- The item of a sequence at an index, counted from zero.  An index outside the sequence is
a fault, if it can be written. -/
def itemAt (ns : List Int) (index : Int) : Except Failure Int :=
  if 0 ≤ index ∧ index < ns.length then .ok (ns.getD index.toNat 0)
  else if Numeral.writable index then .error (.fault (.indexOutOfRange index ns.length))
  else .error (.limit .writing)

/-- The effect of an instruction on the variables, and where to go next. -/
def execute : Instruction → PlainMemory → Except Failure (Control × PlainMemory)
  | .varInt var value, m => return (.next, m.set var (.int value))
  | .varList var elements, m => do
    let values ← elements.mapM m.resolve
    let ns ← values.mapM PlainValue.asInteger
    return (.next, m.set var (.seq ns))
  | .combine first second, m =>
    match m.get? first, m.get? second with
    | some (.seq xs), some (.seq ys) => return (.next, m.set second (.seq (xs ++ ys)))
    | _, _ => return (.next, m)
  | .get dest index seq, m => do
    let ns ← m.lookupSequence seq
    let n ← itemAt ns index
    return (.next, m.set dest (.int n))
  | .set source index seq, m => do
    let v ← m.resolve source
    let ns ← m.lookupSequence seq
    let _ ← itemAt ns index
    let n ← v.asInteger
    return (.next, m.set seq (.seq (ns.set index.toNat n)))
  | .copy dest source, m => do
    let v ← m.lookup source
    return (.next, m.set dest v)
  | .changeSign var, m => do
    let n ← (← m.lookup var).asInteger
    return (.next, m.set var (.int (-n)))
  | .add var operand, m => do
    let augend ← m.lookupInteger var
    let addend ← ((m.get? operand).getD (.int 0)).asInteger
    return (.next, m.set var (.int (augend + addend)))
  | .branch var target, m => do
    let v ← m.lookup var
    return (if v.isZeroOrEmpty then .jump target else .next, m)
  | .halt, m => return (.halt, m)

def executeLine (line : String) (m : PlainMemory) : Except Failure (Control × PlainMemory) := do
  execute (← Instruction.decode line) m

end PlainMemory

/-- A machine with a plain memory. -/
structure PlainMachine where
  program : Array String
  memory : PlainMemory
  pc : Int
  status : Status
  fault : Option Fault
  steps : Nat

namespace PlainMachine

/-- A plain machine that starts on a program. -/
def start (program : Array String) : PlainMachine :=
  { program, memory := .empty, pc := 0, status := .running, fault := none, steps := 0 }

/-- The plain machine after one step. -/
def next (p : PlainMachine) : PlainMachine :=
  match p.status, Machine.lineAt? p.program p.pc with
  | .running, none => { p with status := .halted }
  | .running, some line =>
    match PlainMemory.executeLine line p.memory with
    | .ok (control, memory) =>
      { p with
        memory, pc := control.lineAfter p.pc, status := control.statusAfter .running,
        steps := p.steps + 1 }
    | .error (.fault f) => { p with status := .faulted, fault := some f }
    | .error (.limit _) => p
  | .halted, _ | .faulted, _ => p

end PlainMachine
end LineMachine
