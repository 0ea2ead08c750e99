import LineMachine.Proofs.Instruction.Renaming
import LineMachine.Proofs.Numeral.Literal

/-!
# How a line can fail

A line that is no instruction fails with a decode error.  An instruction fails at a
variable that does not exist, at a value of the other kind, or at an index outside a list.
Whatever is wrong, the integers in memory are never written for it; the only integers
that are converted are words of the line.

**Input.**  A line, and any store.

**Invariant.**  A failure comes from an operand, and the operands of an instruction are
words of its line.

**Results.**
* `Execution.FailsWith.bind`: one computation after another fails like one of them.
* `Instruction.execute_failsWith`: what may be said against an instruction.
* `Instruction.decode_eq_error`, `Instruction.executeLine_failsWith`: how a line can fail.
-/

namespace LineMachine

namespace Execution

variable {α β : Type} {P : Failure → Prop}

/-- All failures of the computation are of a kind. -/
def FailsWith (P : Failure → Prop) (x : Execution α) : Prop :=
  ∀ s s' e, x s = .error e s' → P e

theorem FailsWith.bind {x : Execution α} {f : α → Execution β}
    (hx : FailsWith P x) (hf : ∀ a, FailsWith P (f a)) : FailsWith P (x >>= f) := by
  intro s s' e h
  cases hs : x s with
  | ok a s₁ =>
      rw [bind_of_ok hs] at h
      exact hf a s₁ s' e h
  | error e' s₁ =>
      rw [bind_of_error hs] at h
      cases h
      exact hx s s' e hs

theorem Total.failsWith {x : Execution α} (hx : Total x) : FailsWith P x := by
  intro s s' e h
  obtain ⟨a, s₁, ha⟩ := hx s
  rw [ha] at h
  cases h

theorem failsWith_throw {e : Failure} (he : P e) : FailsWith P (throw e : Execution α) := by
  intro s s' e' h
  cases h
  exact he

end Execution

namespace Instruction

open Execution

/-- The index operand of an instruction that works on one item. -/
def index? : Instruction → Option Int
  | get _ index _ | set _ index _ => some index
  | _ => none

/-- What may be said against the operands of an instruction. -/
inductive Objection (names : List String) (index? : Option Int) : Failure → Prop
  | undefined {name : String} (hname : name ∈ names) :
      Objection names index? (.fault (.undefinedVariable name))
  | mismatch {expected got : Kind} (hne : got ≠ expected) :
      Objection names index? (.fault (.typeMismatch expected got))
  | outOfRange {index : Int} {length : Nat} (hindex : index? = some index)
      (hout : ¬ (0 ≤ index ∧ index < length)) :
      Objection names index? (.fault (.indexOutOfRange index length))
  | unwritable {index : Int} (hindex : index? = some index)
      (hlong : Numeral.writable index = false) : Objection names index? (.limit .writing)
  | refused {token : String} {e : Numeral.DigitLimit} (htoken : token ∈ names)
      (hread : Numeral.readMargined token = .error e) :
      Objection names index? (.limit e)

section Operands

variable {names : List String} {index? : Option Int} {name : String}

theorem failsWith_lookup (hname : name ∈ names) :
    FailsWith (Objection names index?) (lookup name) := by
  refine (total_find? name).failsWith.bind fun o => ?_
  cases o with
  | none => exact failsWith_throw (.undefined hname)
  | some v => exact (total_pure v).failsWith

theorem failsWith_asInteger (v : Value) :
    FailsWith (Objection names index?) (ofExcept v.asInteger) := by
  cases v with
  | int n => exact (total_pure n).failsWith
  | list r => exact failsWith_throw (.mismatch (by decide))

theorem failsWith_asList (v : Value) :
    FailsWith (Objection names index?) (ofExcept v.asList) := by
  cases v with
  | int n => exact failsWith_throw (.mismatch (by decide))
  | list r => exact (total_pure r).failsWith

theorem failsWith_negate (v : Value) :
    FailsWith (Objection names index?) (ofExcept v.negate) := by
  cases v with
  | int n => exact (total_pure (Value.int (-n))).failsWith
  | list r => exact failsWith_throw (.mismatch (by decide))

theorem failsWith_lookupList (hname : name ∈ names) :
    FailsWith (Objection names index?) (lookupList name) :=
  (failsWith_lookup hname).bind failsWith_asList

theorem failsWith_lookupInteger (hname : name ∈ names) :
    FailsWith (Objection names index?) (lookupInteger name) :=
  (failsWith_lookup hname).bind failsWith_asInteger

/-- A token is converted only if no variable has its name. -/
theorem failsWith_resolve (hname : name ∈ names) :
    FailsWith (Objection names index?) (resolve name) := by
  refine (total_find? name).failsWith.bind fun o => ?_
  cases o with
  | some v => exact (total_pure v).failsWith
  | none =>
      dsimp only
      split
      · rename_i hread
        exact failsWith_throw (.refused hname hread)
      · exact failsWith_throw (.undefined hname)
      · exact (total_pure _).failsWith

theorem failsWith_mapM_resolve {tokens : List String} (htokens : ∀ t, t ∈ tokens → t ∈ names) :
    FailsWith (Objection names index?) (tokens.mapM resolve) := by
  induction tokens with
  | nil =>
      rw [List.mapM_nil]
      exact (total_pure []).failsWith
  | cons token tokens ih =>
      obtain ⟨htoken, htokens⟩ := List.forall_mem_cons.mp htokens
      rw [List.mapM_cons]
      exact (failsWith_resolve htoken).bind fun v => (ih htokens).bind fun vs =>
        (total_pure (v :: vs)).failsWith

theorem not_inside_of_itemAt? {xs : List Value} {index : Int}
    (h : Heap.itemAt? xs index = none) : ¬ (0 ≤ index ∧ index < xs.length) := by
  intro hinside
  have hsome := (Heap.isSome_itemAt? xs index).mpr hinside
  rw [h] at hsome
  cases hsome

/-- An index outside a list is reported if it can be written. -/
theorem Objection.of_outOfRange {index : Int} {length : Nat} (hindex : index? = some index)
    (hout : ¬ (0 ≤ index ∧ index < length)) :
    Objection names index? (Heap.outOfRange index length) := by
  cases hwritable : Numeral.writable index with
  | true =>
      rw [Heap.outOfRange_of_writable hwritable]
      exact .outOfRange hindex hout
  | false =>
      rw [Heap.outOfRange_of_not_writable hwritable]
      exact .unwritable hindex hwritable

theorem failsWith_itemAt {index : Int} (hindex : index? = some index) (r : Ref) :
    FailsWith (Objection names index?) (itemAt r index) := by
  intro s s' e h
  unfold itemAt Heap.get at h
  cases hitem : Heap.itemAt? (s.heap.items r) index with
  | none =>
      rw [hitem] at h
      cases h
      exact .of_outOfRange hindex (not_inside_of_itemAt? hitem)
  | some v =>
      rw [hitem] at h
      cases h

theorem failsWith_replaceItem {index : Int} (hindex : index? = some index) (r : Ref)
    (v : Value) : FailsWith (Objection names index?) (replaceItem r index v) := by
  rintro ⟨memory, heap⟩ s' e h
  cases hitem : Heap.itemAt? (heap.items r) index with
  | none =>
      simp only [replaceItem, Heap.set, hitem] at h
      cases h
      exact .of_outOfRange hindex (not_inside_of_itemAt? hitem)
  | some w =>
      simp only [replaceItem, Heap.set, hitem] at h
      cases h

end Operands

/-- **What may be said against an instruction** is said against its operands. -/
theorem execute_failsWith (inst : Instruction) :
    FailsWith (Objection inst.names inst.index?) inst.execute := by
  cases inst with
  | varInt var value => exact (total_assign_next var (.int value)).failsWith
  | varList var elements =>
      refine (failsWith_mapM_resolve fun t ht => List.mem_cons_of_mem _ ht).bind fun items =>
        Total.failsWith ?_
      exact (total_newList items).bind fun v => total_assign_next var v
  | combine first second => exact (total_combine first second).failsWith
  | get dest index seq =>
      refine (failsWith_lookupList (by simp [names])).bind fun r => ?_
      exact (failsWith_itemAt rfl r).bind fun v => (total_assign_next dest v).failsWith
  | set source index seq =>
      refine (failsWith_resolve (by simp [names])).bind fun v => ?_
      refine (failsWith_lookupList (by simp [names])).bind fun r => ?_
      exact (failsWith_replaceItem rfl r v).bind fun _ => (total_pure _).failsWith
  | copy dest source =>
      refine (failsWith_lookup (by simp [names])).bind fun v => Total.failsWith ?_
      exact (total_newCopy v).bind fun copy => total_assign_next dest copy
  | changeSign var =>
      refine (failsWith_lookup (by simp [names])).bind fun v => ?_
      exact (failsWith_negate v).bind fun w => (total_assign_next var w).failsWith
  | add var operand =>
      refine (failsWith_lookupInteger (by simp [names])).bind fun augend => ?_
      refine (total_find? operand).failsWith.bind fun o => ?_
      refine (failsWith_asInteger _).bind fun addend => ?_
      exact (total_assign_next var (.int (augend + addend))).failsWith
  | branch var target =>
      exact (failsWith_lookup (by simp [names])).bind fun v => (total_branch v target).failsWith
  | halt => exact (total_pure _).failsWith

/-- How a line can fail; an index that is reported is the value of a word. -/
inductive LineFailure (line : String) : Failure → Prop
  | unreadable (error : DecodeError) : LineFailure line (.fault (.decode error))
  | undefined {name : String} (hname : name ∈ Text.splitWords line) :
      LineFailure line (.fault (.undefinedVariable name))
  | mismatch {expected got : Kind} (hne : got ≠ expected) :
      LineFailure line (.fault (.typeMismatch expected got))
  | outOfRange {index : Int} {length : Nat} {word : String}
      (hword : word ∈ Text.splitWords line) (hread : Numeral.readWord word = .ok (some index))
      (hout : ¬ (0 ≤ index ∧ index < length)) :
      LineFailure line (.fault (.indexOutOfRange index length))
  | refused {word : String} {n : Nat} (hword : word ∈ Text.splitWords line)
      (hover : Numeral.Oversized word n) :
      LineFailure line (.limit (.reading n))

section Lines

variable {op : Opcode} {operands : List String} {number : Option Int} {line : String}
  {inst : Instruction}

/-- The integer operand, if there is one, is read from a word. -/
theorem integerOperand_cases (op : Opcode) (operands : List String) :
    integerOperand op operands = .ok none ∨
      ∃ word, word ∈ operands ∧ integerOperand op operands = Numeral.readWord word := by
  unfold integerOperand
  split
  · rename_i first word rest
    split
    · exact Or.inr ⟨word, by simp, rfl⟩
    · exact Or.inl rfl
  · exact Or.inl rfl

theorem number_of_index? {index : Int} (h : ofOperands? op operands number = some inst)
    (hindex : inst.index? = some index) : number = some index := by
  unfold ofOperands? at h
  split at h <;> cases h <;> simp_all [index?]

/-- A line that is an instruction is an opcode and the operands of the instruction. -/
theorem decode_eq_ok (h : decode line = .ok inst) :
    ∃ word op operands number, Text.splitWords line = word :: operands ∧
      integerOperand op operands = .ok number ∧ ofOperands? op operands number = some inst := by
  rw [decode] at h
  cases hwords : Text.splitWords line with
  | nil =>
      rw [hwords] at h
      cases h
  | cons word operands =>
      rw [hwords, ofWords] at h
      split at h
      · cases h
      · rename_i op _
        rw [ofOperands] at h
        split at h
        · cases h
        · rename_i number hnumber
          split at h
          · rename_i hinst
            cases h
            exact ⟨word, op, operands, number, rfl, hnumber, hinst⟩
          · cases h

theorem mem_splitWords_of_mem_names (h : decode line = .ok inst) {name : String}
    (hname : name ∈ inst.names) : name ∈ Text.splitWords line := by
  obtain ⟨word, op, operands, number, hwords, _, hinst⟩ := decode_eq_ok h
  rw [hwords]
  exact List.mem_cons_of_mem _ (mem_operands_of_mem_names hinst name hname)

theorem exists_readWord_of_index? (h : decode line = .ok inst) {index : Int}
    (hindex : inst.index? = some index) :
    ∃ word, word ∈ Text.splitWords line ∧ Numeral.readWord word = .ok (some index) := by
  obtain ⟨word, op, operands, number, hwords, hnumber, hinst⟩ := decode_eq_ok h
  obtain rfl := number_of_index? hinst hindex
  rcases integerOperand_cases op operands with hnone | ⟨word', hword', hread⟩
  · rw [hnone] at hnumber
    cases hnumber
  · rw [hwords]
    exact ⟨word', List.mem_cons_of_mem _ hword', hread.symm.trans hnumber⟩

/-- **A line that is no instruction** has a decode error or an oversized word. -/
theorem decode_eq_error {e : Failure} (h : decode line = .error e) :
    (∃ error, e = .fault (.decode error)) ∨
      ∃ word n, word ∈ Text.splitWords line ∧ Numeral.Oversized word n ∧
        e = .limit (.reading n) := by
  rw [decode] at h
  cases hwords : Text.splitWords line with
  | nil =>
      rw [hwords] at h
      cases h
      exact Or.inl ⟨_, rfl⟩
  | cons word operands =>
      rw [hwords, ofWords] at h
      split at h
      · cases h
        exact Or.inl ⟨_, rfl⟩
      · rename_i op _
        rw [ofOperands] at h
        split at h
        · rename_i hnumber
          cases h
          rcases integerOperand_cases op operands with hnone | ⟨word', hword', hread⟩
          · rw [hnone] at hnumber
            cases hnumber
          · obtain ⟨n, hover, rfl⟩ := Numeral.readWord_eq_error_iff.mp (hread.symm.trans hnumber)
            exact Or.inr ⟨word', n, List.mem_cons_of_mem _ hword', hover, rfl⟩
        · split at h
          · cases h
          · cases h
            exact Or.inl ⟨_, rfl⟩

theorem LineFailure.of_objection (h : decode line = .ok inst) {e : Failure}
    (he : Objection inst.names inst.index? e) : LineFailure line e := by
  cases he with
  | undefined hname => exact .undefined (mem_splitWords_of_mem_names h hname)
  | mismatch hne => exact .mismatch hne
  | outOfRange hindex hout =>
      obtain ⟨word, hword, hread⟩ := exists_readWord_of_index? h hindex
      exact .outOfRange hword hread hout
  | unwritable hindex hlong =>
      -- the index was read, so that it can be written
      obtain ⟨_, _, hread⟩ := exists_readWord_of_index? h hindex
      rw [Numeral.writable_of_readWord hread] at hlong
      cases hlong
  | @refused token e htoken hread =>
      have hword := mem_splitWords_of_mem_names h htoken
      rw [Text.readMargined_of_isWord (Text.isWord_of_mem_splitWords hword)] at hread
      obtain ⟨n, hover, rfl⟩ := Numeral.readWord_eq_error_iff.mp hread
      exact .refused hword hover

/-- **How a line can fail**, whatever the store. -/
theorem executeLine_failsWith (line : String) :
    FailsWith (LineFailure line) (executeLine line) := by
  intro s s' e h
  rw [executeLine] at h
  cases hdecode : decode line with
  | ok inst =>
      rw [hdecode] at h
      exact .of_objection hdecode (execute_failsWith inst s s' e h)
  | error e' =>
      rw [hdecode] at h
      cases h
      rcases decode_eq_error hdecode with ⟨error, rfl⟩ | ⟨word, n, hword, hover, rfl⟩
      · exact .unreadable error
      · exact .refused hword hover

end Lines

end Instruction
end LineMachine
