import LineMachine.Instruction.Execute

/-!
# An instruction that fails changes nothing

An instruction resolves and checks all its operands before it writes.  The
computations on a store are sorted accordingly: those that only read, those that
cannot fail, and those that leave the store as it was when they fail.

**Results.**
* `Execution.Reads.bind`: reading after reading is reading.
* `Execution.Reads.bind_atomic`, `Execution.Atomic.bind_total`: reading comes
  before, and what cannot fail comes after, the one operation that may do both.
* `Instruction.execute_atomic`, `Instruction.executeLine_atomic`: a failure
  leaves names and lists as they were.
-/

namespace LineMachine
namespace Execution

variable {α β : Type}

/-- The store is left as it is, by a result as well as by a failure. -/
def Reads (x : Execution α) : Prop :=
  ∀ s, (∃ a, x s = .ok a s) ∨ ∃ e, x s = .error e s

/-- There is a result whatever the store. -/
def Total (x : Execution α) : Prop :=
  ∀ s, ∃ a s', x s = .ok a s'

/-- The store is left as it is by a failure. -/
def Atomic (x : Execution α) : Prop :=
  ∀ s s' e, x s = .error e s' → s' = s

theorem bind_of_ok {x : Execution α} {f : α → Execution β} {s s' : Store} {a : α}
    (h : x s = .ok a s') : (x >>= f) s = f a s' := by
  show EStateM.bind x f s = f a s'
  rw [EStateM.bind, h]

theorem bind_of_error {x : Execution α} {f : α → Execution β} {s s' : Store} {e : Failure}
    (h : x s = .error e s') : (x >>= f) s = .error e s' := by
  show EStateM.bind x f s = .error e s'
  rw [EStateM.bind, h]

theorem bind_find? {f : Option Value → Execution β} {s : Store} (name : String) :
    (find? name >>= f) s = f (s.memory.get? name) s :=
  rfl

theorem bind_isZeroOrEmpty {f : Bool → Execution β} {s : Store} (v : Value) :
    (isZeroOrEmpty v >>= f) s = f (s.heap.isZeroOrEmpty v) s :=
  rfl

theorem Reads.atomic {x : Execution α} (hx : Reads x) : Atomic x := by
  intro s s' e h
  rcases hx s with ⟨a, ha⟩ | ⟨e', he⟩
  · rw [ha] at h
    cases h
  · rw [he] at h
    cases h
    rfl

theorem Total.atomic {x : Execution α} (hx : Total x) : Atomic x := by
  intro s s' e h
  obtain ⟨a, s'', ha⟩ := hx s
  rw [ha] at h
  cases h

theorem Reads.bind {x : Execution α} {f : α → Execution β}
    (hx : Reads x) (hf : ∀ a, Reads (f a)) : Reads (x >>= f) := by
  intro s
  rcases hx s with ⟨a, ha⟩ | ⟨e, he⟩
  · rw [bind_of_ok ha]
    exact hf a s
  · exact Or.inr ⟨e, bind_of_error he⟩

theorem Total.bind {x : Execution α} {f : α → Execution β}
    (hx : Total x) (hf : ∀ a, Total (f a)) : Total (x >>= f) := by
  intro s
  obtain ⟨a, s', ha⟩ := hx s
  rw [bind_of_ok ha]
  exact hf a s'

theorem Reads.bind_atomic {x : Execution α} {f : α → Execution β}
    (hx : Reads x) (hf : ∀ a, Atomic (f a)) : Atomic (x >>= f) := by
  intro s s' e h
  rcases hx s with ⟨a, ha⟩ | ⟨e', he⟩
  · rw [bind_of_ok ha] at h
    exact hf a s s' e h
  · rw [bind_of_error he] at h
    cases h
    rfl

theorem Atomic.bind_total {x : Execution α} {f : α → Execution β}
    (hx : Atomic x) (hf : ∀ a, Total (f a)) : Atomic (x >>= f) := by
  intro s s' e h
  cases hs : x s with
  | ok a s₁ =>
      rw [bind_of_ok hs] at h
      obtain ⟨b, s₂, hb⟩ := hf a s₁
      rw [hb] at h
      cases h
  | error e' s₁ =>
      rw [bind_of_error hs] at h
      cases h
      exact hx _ _ _ hs

theorem reads_pure (a : α) : Reads (pure a) :=
  fun _ => Or.inl ⟨a, rfl⟩

theorem reads_throw (e : Failure) : Reads (throw e : Execution α) :=
  fun _ => Or.inr ⟨e, rfl⟩

theorem reads_ofExcept (x : Except Fault α) : Reads (ofExcept x) := by
  cases x with
  | ok a => exact reads_pure a
  | error f => exact reads_throw (.fault f)

theorem reads_find? (name : String) : Reads (find? name) :=
  fun s => Or.inl ⟨s.memory.get? name, rfl⟩

theorem reads_lookup (name : String) : Reads (lookup name) := by
  refine (reads_find? name).bind fun v => ?_
  cases v with
  | none => exact reads_throw _
  | some v => exact reads_pure v

theorem reads_lookupList (name : String) : Reads (lookupList name) :=
  (reads_lookup name).bind fun v => reads_ofExcept v.asList

theorem reads_lookupInteger (name : String) : Reads (lookupInteger name) :=
  (reads_lookup name).bind fun v => reads_ofExcept v.asInteger

theorem reads_resolve (token : String) : Reads (resolve token) := by
  refine (reads_find? token).bind fun v => ?_
  cases v with
  | some v => exact reads_pure v
  | none =>
      dsimp only
      split
      · exact reads_throw _
      · exact reads_throw _
      · exact reads_pure _

/-- Resolving the elements of a list one by one reads, however many there are. -/
theorem reads_mapM_resolve (tokens : List String) : Reads (tokens.mapM resolve) := by
  induction tokens with
  | nil =>
      rw [List.mapM_nil]
      exact reads_pure []
  | cons token tokens ih =>
      rw [List.mapM_cons]
      exact (reads_resolve token).bind fun v => ih.bind fun vs => reads_pure (v :: vs)

theorem reads_itemAt (r : Ref) (index : Int) : Reads (itemAt r index) := by
  intro s
  unfold itemAt
  cases s.heap.get r index with
  | ok v => exact Or.inl ⟨v, rfl⟩
  | error e => exact Or.inr ⟨e, rfl⟩

theorem reads_isZeroOrEmpty (v : Value) : Reads (isZeroOrEmpty v) :=
  fun s => Or.inl ⟨s.heap.isZeroOrEmpty v, rfl⟩

theorem total_pure (a : α) : Total (pure a) :=
  fun s => ⟨a, s, rfl⟩

theorem total_find? (name : String) : Total (find? name) :=
  fun s => ⟨s.memory.get? name, s, rfl⟩

theorem total_assign (name : String) (v : Value) : Total (assign name v) :=
  fun s => ⟨(), { s with memory := s.memory.set name v }, rfl⟩

theorem total_newList (xs : List Value) : Total (newList xs) :=
  fun s => ⟨_, ⟨s.memory, (s.heap.alloc xs).2⟩, rfl⟩

theorem total_newCopy (v : Value) : Total (newCopy v) :=
  fun s => ⟨_, ⟨s.memory, (s.heap.deepCopy v).2⟩, rfl⟩

theorem total_newConcat (r₁ r₂ : Ref) : Total (newConcat r₁ r₂) :=
  fun s => ⟨_, ⟨s.memory, (s.heap.concat r₁ r₂).2⟩, rfl⟩

theorem total_assign_next (name : String) (v : Value) :
    Total (assign name v >>= fun _ => pure Control.next) :=
  (total_assign name v).bind fun _ => total_pure _

/-- Replacing an item is the only operation that may write and may fail. -/
theorem atomic_replaceItem (r : Ref) (index : Int) (v : Value) :
    Atomic (replaceItem r index v) := by
  rintro ⟨memory, heap⟩ s' e h
  simp only [replaceItem] at h
  cases hset : heap.set r index v with
  | ok heap' =>
      rw [hset] at h
      cases h
  | error e' =>
      rw [hset] at h
      cases h
      rfl

end Execution

namespace Instruction

open Execution

/-- Putting two lists together never fails: without two lists it does nothing. -/
theorem total_combine (first second : String) : Total (combine first second).execute := by
  refine (total_find? first).bind fun o₁ => (total_find? second).bind fun o₂ => ?_
  dsimp only
  split
  · exact (total_newConcat _ _).bind fun v => total_assign_next second v
  · exact total_pure _

theorem total_branch (v : Value) (target : Int) :
    Total (do if ← isZeroOrEmpty v then return Control.jump target else return .next) := by
  intro s
  rw [bind_isZeroOrEmpty]
  cases s.heap.isZeroOrEmpty v with
  | true => exact total_pure _ s
  | false => exact total_pure _ s

theorem execute_atomic (inst : Instruction) : Atomic inst.execute := by
  cases inst with
  | varInt var value =>
      exact (total_assign_next var (.int value)).atomic
  | varList var elements =>
      refine (reads_mapM_resolve elements).bind_atomic fun items => Total.atomic ?_
      exact (total_newList items).bind fun v => total_assign_next var v
  | combine first second => exact (total_combine first second).atomic
  | get dest index seq =>
      refine (reads_lookupList seq).bind_atomic fun r => ?_
      exact (reads_itemAt r index).bind_atomic fun v => (total_assign_next dest v).atomic
  | set source index seq =>
      refine (reads_resolve source).bind_atomic fun v => ?_
      refine (reads_lookupList seq).bind_atomic fun r => ?_
      exact (atomic_replaceItem r index v).bind_total fun _ => total_pure _
  | copy dest source =>
      refine (reads_lookup source).bind_atomic fun v => Total.atomic ?_
      exact (total_newCopy v).bind fun copy => total_assign_next dest copy
  | changeSign var =>
      refine (reads_lookup var).bind_atomic fun v => ?_
      exact (reads_ofExcept v.negate).bind_atomic fun w => (total_assign_next var w).atomic
  | add var operand =>
      refine (reads_lookupInteger var).bind_atomic fun augend => ?_
      refine (reads_find? operand).bind_atomic fun v => ?_
      refine (reads_ofExcept _).bind_atomic fun addend => ?_
      exact (total_assign_next var (.int (augend + addend))).atomic
  | branch var target =>
      refine Reads.atomic ((reads_lookup var).bind fun v => ?_)
      refine (reads_isZeroOrEmpty v).bind fun zero => ?_
      cases zero <;> exact reads_pure _
  | halt =>
      exact (total_pure _).atomic

/-- A line that cannot be read or executed leaves the names and the lists as
they were. -/
theorem executeLine_atomic (line : String) : Atomic (executeLine line) := by
  unfold executeLine
  split
  · exact execute_atomic _
  · exact (reads_throw _).atomic

end Instruction
end LineMachine
