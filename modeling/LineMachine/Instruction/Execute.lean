import LineMachine.Heap.Copy
import LineMachine.Instruction.Decode
import LineMachine.Memory

/-!
# Executing instructions

**Input.**  A store, which is a memory with the heap that its lists live in, and
an instruction or a line.

**Algorithm.**  Every operand is resolved and checked before anything changes,
so that an instruction that fails has changed nothing.  An element of a list and
the source of a replacement are variables if a variable of that name exists, and
literals otherwise.

**Results.**
* `execute`: the effect of an instruction on the store, and where to go next.
* `executeLine`: the same for a line that is yet to be read.
-/

namespace LineMachine

/-- What instructions read and change. -/
structure Store where
  memory : Memory
  heap : Heap
deriving DecidableEq, Repr

/-- Where a program goes on after an instruction. -/
inductive Control where
  | next
  /-- At the line with this number, which may not exist. -/
  | jump (target : Int)
  | halt
deriving DecidableEq, Repr

/-- A computation on a store that may fail; the store is kept on failure. -/
abbrev Execution := EStateM Failure Store

namespace Execution

/-- The outcome of an operation on values. -/
def ofExcept {α : Type} : Except Fault α → Execution α
  | .ok a => pure a
  | .error f => throw (.fault f)

def find? (name : String) : Execution (Option Value) := fun s =>
  .ok (s.memory.get? name) s

def lookup (name : String) : Execution Value := do
  match ← find? name with
  | some v => return v
  | none => throw (.fault (.undefinedVariable name))

def lookupList (name : String) : Execution Ref := do
  ofExcept (← lookup name).asList

def lookupInteger (name : String) : Execution Int := do
  ofExcept (← lookup name).asInteger

/-- The value of a token: that of the variable of this name, if there is one, or
else the integer that the token is a literal of. -/
def resolve (token : String) : Execution Value := do
  match ← find? token with
  | some v => return v
  | none =>
    match Numeral.readMargined token with
    | .error e => throw (.limit e)
    | .ok none => throw (.fault (.undefinedVariable token))
    | .ok (some n) => return .int n

def assign (name : String) (v : Value) : Execution Unit :=
  modify fun s => { s with memory := s.memory.set name v }

def newList (xs : List Value) : Execution Value := fun ⟨memory, heap⟩ =>
  let (r, heap) := heap.alloc xs
  .ok (.list r) ⟨memory, heap⟩

def newCopy (v : Value) : Execution Value := fun ⟨memory, heap⟩ =>
  let (copy, heap) := heap.deepCopy v
  .ok copy ⟨memory, heap⟩

def newConcat (r₁ r₂ : Ref) : Execution Value := fun ⟨memory, heap⟩ =>
  let (r, heap) := heap.concat r₁ r₂
  .ok (.list r) ⟨memory, heap⟩

def itemAt (r : Ref) (index : Int) : Execution Value := fun s =>
  match s.heap.get r index with
  | .ok v => .ok v s
  | .error e => .error e s

def replaceItem (r : Ref) (index : Int) (v : Value) : Execution Unit := fun ⟨memory, heap⟩ =>
  match heap.set r index v with
  | .ok heap => .ok () ⟨memory, heap⟩
  | .error e => .error e ⟨memory, heap⟩

def isZeroOrEmpty (v : Value) : Execution Bool := fun s =>
  .ok (s.heap.isZeroOrEmpty v) s

end Execution

namespace Instruction

open Execution

def execute : Instruction → Execution Control
  | varInt var value => do
    assign var (.int value)
    return .next
  | varList var elements => do
    let items ← elements.mapM resolve
    assign var (← newList items)
    return .next
  | combine first second => do
    match ← find? first, ← find? second with
    | some (.list r₁), some (.list r₂) => assign second (← newConcat r₁ r₂)
    | _, _ => pure ()
    return .next
  | get dest index seq => do
    let r ← lookupList seq
    assign dest (← itemAt r index)
    return .next
  | set source index seq => do
    let v ← resolve source
    let r ← lookupList seq
    replaceItem r index v
    return .next
  | copy dest source => do
    assign dest (← newCopy (← lookup source))
    return .next
  | changeSign var => do
    assign var (← ofExcept (← lookup var).negate)
    return .next
  | add var operand => do
    let augend ← lookupInteger var
    let addend ← ofExcept ((← find? operand).getD (.int 0)).asInteger
    assign var (.int (augend + addend))
    return .next
  | branch var target => do
    if ← isZeroOrEmpty (← lookup var) then return .jump target
    else return .next
  | halt => return .halt

/-- The effect of a line: it is read, and the instruction that it is is executed. -/
def executeLine (line : String) : Execution Control :=
  match decode line with
  | .ok inst => inst.execute
  | .error e => throw e

end Instruction
end LineMachine
