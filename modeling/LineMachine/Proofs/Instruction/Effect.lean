import LineMachine.Proofs.Instruction.Atomicity
import Mathlib.Data.List.Forall2

/-!
# The rules of execution

What each instruction does to the store is stated as a relation with one rule
for each opcode, and a second one where an instruction may do nothing or go two
ways.  The relation is exactly successful execution, so that whatever holds of
every rule holds of every instruction.

**Results.**
* `Instruction.execute_eq_ok_iff`: an instruction succeeds with an effect
  exactly if a rule gives this effect.
* `Instruction.eq_halt_of_effect`: only the halting instruction ends a program.
-/

namespace LineMachine

/-- The value of a token: that of the variable of this name, or else the integer
that the token is a literal of. -/
inductive Resolves (s : Store) (token : String) : Value → Prop
  | bound {v : Value} (hname : s.memory.get? token = some v) : Resolves s token v
  | literal {n : Int} (hname : s.memory.get? token = none)
      (hliteral : Numeral.readMargined token = .ok (some n)) : Resolves s token (.int n)

/-- A token has no two values. -/
theorem Resolves.unique {s : Store} {token : String} {v w : Value} (hv : Resolves s token v)
    (hw : Resolves s token w) : v = w := by
  cases hv with
  | bound hname =>
      cases hw with
      | bound hname' =>
          rw [hname] at hname'
          cases hname'
          rfl
      | literal hname' _ =>
          rw [hname] at hname'
          cases hname'
  | literal hname hliteral =>
      cases hw with
      | bound hname' =>
          rw [hname] at hname'
          cases hname'
      | literal _ hliteral' =>
          rw [hliteral] at hliteral'
          cases hliteral'
          rfl

/-- The store with a name bound to a value. -/
def Store.assign (s : Store) (name : String) (v : Value) : Store :=
  ⟨s.memory.set name v, s.heap⟩

/-- Whether two names hold lists, and which. -/
def Store.HoldLists (s : Store) (first second : String) (r₁ r₂ : Ref) : Prop :=
  s.memory.get? first = some (.list r₁) ∧ s.memory.get? second = some (.list r₂)

/-- The rules of execution. -/
inductive Effect : Instruction → Store → Control → Store → Prop
  | varInt {s : Store} (var : String) (value : Int) :
      Effect (.varInt var value) s .next (s.assign var (.int value))
  | varList {s : Store} {var : String} {elements : List String} {items : List Value}
      (hitems : List.Forall₂ (Resolves s) elements items) :
      Effect (.varList var elements) s .next
        (Store.assign ⟨s.memory, (s.heap.alloc items).2⟩ var (.list s.heap.size))
  | combine {s : Store} {first second : String} {r₁ r₂ : Ref}
      (hlists : s.HoldLists first second r₁ r₂) :
      Effect (.combine first second) s .next
        (Store.assign ⟨s.memory, (s.heap.concat r₁ r₂).2⟩ second (.list s.heap.size))
  | combineNothing {s : Store} {first second : String}
      (hlists : ∀ r₁ r₂, ¬ s.HoldLists first second r₁ r₂) :
      Effect (.combine first second) s .next s
  | get {s : Store} {dest seq : String} {index : Int} {r : Ref} {v : Value}
      (hseq : s.memory.get? seq = some (.list r))
      (hitem : Heap.itemAt? (s.heap.items r) index = some v) :
      Effect (.get dest index seq) s .next (s.assign dest v)
  | set {s : Store} {source seq : String} {index : Int} {r : Ref} {v : Value}
      (hsource : Resolves s source v)
      (hseq : s.memory.get? seq = some (.list r))
      (hindex : 0 ≤ index ∧ index < (s.heap.items r).length) :
      Effect (.set source index seq) s .next
        ⟨s.memory, s.heap.replace r ((s.heap.items r).set index.toNat v)⟩
  | copy {s : Store} {dest source : String} {v : Value}
      (hsource : s.memory.get? source = some v) :
      Effect (.copy dest source) s .next
        (Store.assign ⟨s.memory, (s.heap.deepCopy v).2⟩ dest (s.heap.deepCopy v).1)
  | changeSign {s : Store} {var : String} {n : Int}
      (hvar : s.memory.get? var = some (.int n)) :
      Effect (.changeSign var) s .next (s.assign var (.int (-n)))
  | add {s : Store} {var operand : String} {m n : Int}
      (hvar : s.memory.get? var = some (.int m))
      (hoperand : (s.memory.get? operand).getD (.int 0) = .int n) :
      Effect (.add var operand) s .next (s.assign var (.int (m + n)))
  | branchTaken {s : Store} {var : String} {target : Int} {v : Value}
      (hvar : s.memory.get? var = some v) (hzero : s.heap.isZeroOrEmpty v = true) :
      Effect (.branch var target) s (.jump target) s
  | branchPassed {s : Store} {var : String} {target : Int} {v : Value}
      (hvar : s.memory.get? var = some v) (hzero : s.heap.isZeroOrEmpty v = false) :
      Effect (.branch var target) s .next s
  | halt {s : Store} : Effect .halt s .halt s

namespace Execution

variable {α β : Type} {s s' : Store}

/-- A computation that changes nothing and returns just the values for which `P`
holds. -/
def Finds (x : Execution α) (s : Store) (P : α → Prop) : Prop :=
  ∀ a s', x s = .ok a s' ↔ P a ∧ s = s'

/-- What follows such a computation meets a value for which `P` holds. -/
theorem Finds.bind_eq_ok_iff {x : Execution α} {P : α → Prop} (hx : Finds x s P)
    {f : α → Execution β} {b : β} :
    (x >>= f) s = .ok b s' ↔ ∃ a, P a ∧ f a s = .ok b s' := by
  show EStateM.bind x f s = .ok b s' ↔ _
  rw [EStateM.bind]
  cases hs : x s with
  | ok a s₁ =>
      obtain ⟨ha, rfl⟩ := (hx a s₁).mp hs
      constructor
      · exact fun h => ⟨a, ha, h⟩
      · rintro ⟨a', ha', h⟩
        rw [(hx a' s).mpr ⟨ha', rfl⟩] at hs
        cases hs
        exact h
  | error e s₁ =>
      constructor
      · intro h
        cases h
      · rintro ⟨a', ha', _⟩
        rw [(hx a' s).mpr ⟨ha', rfl⟩] at hs
        cases hs

theorem finds_pure (a : α) : Finds (pure a) s fun b => a = b := by
  intro b s'
  show EStateM.Result.ok a s = .ok b s' ↔ _
  simp

theorem finds_find? (name : String) : Finds (find? name) s fun o => s.memory.get? name = o := by
  intro o s'
  simp [find?]

theorem finds_ofExcept (x : Except Fault α) : Finds (ofExcept x) s fun a => x = .ok a := by
  intro a s'
  cases x with
  | ok b =>
      show EStateM.Result.ok b s = .ok a s' ↔ _
      simp
  | error f =>
      show EStateM.Result.error (Failure.fault f) s = .ok a s' ↔ _
      simp

theorem finds_lookup (name : String) :
    Finds (lookup name) s fun v => s.memory.get? name = some v := by
  intro v s'
  refine (finds_find? name).bind_eq_ok_iff.trans ?_
  constructor
  · rintro ⟨o, ho, h⟩
    cases o with
    | none => cases h
    | some w =>
        obtain ⟨rfl, rfl⟩ := (finds_pure w v s').mp h
        exact ⟨ho, rfl⟩
  · rintro ⟨hv, rfl⟩
    exact ⟨some v, hv, rfl⟩

theorem asList_eq_ok_iff {v : Value} {r : Ref} : v.asList = .ok r ↔ v = .list r := by
  cases v <;> simp [Value.asList]

theorem asInteger_eq_ok_iff {v : Value} {n : Int} : v.asInteger = .ok n ↔ v = .int n := by
  cases v <;> simp [Value.asInteger]

theorem negate_eq_ok_iff {v w : Value} : v.negate = .ok w ↔ ∃ n, v = .int n ∧ w = .int (-n) := by
  cases v <;> simp [Value.negate, Value.asInteger, Except.map, eq_comm]

theorem finds_lookupList (name : String) :
    Finds (lookupList name) s fun r => s.memory.get? name = some (.list r) := by
  intro r s'
  refine (finds_lookup name).bind_eq_ok_iff.trans ?_
  constructor
  · rintro ⟨v, hv, h⟩
    obtain ⟨hr, rfl⟩ := (finds_ofExcept v.asList r s').mp h
    obtain rfl := asList_eq_ok_iff.mp hr
    exact ⟨hv, rfl⟩
  · rintro ⟨hr, rfl⟩
    exact ⟨.list r, hr, rfl⟩

theorem finds_lookupInteger (name : String) :
    Finds (lookupInteger name) s fun n => s.memory.get? name = some (.int n) := by
  intro n s'
  refine (finds_lookup name).bind_eq_ok_iff.trans ?_
  constructor
  · rintro ⟨v, hv, h⟩
    obtain ⟨hn, rfl⟩ := (finds_ofExcept v.asInteger n s').mp h
    obtain rfl := asInteger_eq_ok_iff.mp hn
    exact ⟨hv, rfl⟩
  · rintro ⟨hn, rfl⟩
    exact ⟨.int n, hn, rfl⟩

theorem finds_resolve (token : String) : Finds (resolve token) s (Resolves s token) := by
  intro v s'
  refine (finds_find? token).bind_eq_ok_iff.trans ?_
  constructor
  · rintro ⟨o, ho, h⟩
    cases o with
    | some w =>
        obtain ⟨rfl, rfl⟩ := (finds_pure w v s').mp h
        exact ⟨.bound ho, rfl⟩
    | none =>
        dsimp only at h
        cases hread : Numeral.readMargined token with
        | error e =>
            rw [hread] at h
            cases h
        | ok number =>
            cases number with
            | none =>
                rw [hread] at h
                cases h
            | some n =>
                rw [hread] at h
                cases h
                exact ⟨.literal ho hread, rfl⟩
  · rintro ⟨hv, rfl⟩
    cases hv with
    | bound hname => exact ⟨some v, hname, rfl⟩
    | @literal n hname hliteral =>
        refine ⟨none, hname, ?_⟩
        simp only [hliteral]
        rfl

theorem finds_mapM_resolve (tokens : List String) :
    Finds (tokens.mapM resolve) s fun vs => List.Forall₂ (Resolves s) tokens vs := by
  induction tokens with
  | nil =>
      intro vs s'
      rw [List.mapM_nil]
      refine (finds_pure [] vs s').trans ?_
      cases vs <;> simp
  | cons token tokens ih =>
      intro vs s'
      rw [List.mapM_cons, (finds_resolve token).bind_eq_ok_iff]
      simp only [ih.bind_eq_ok_iff]
      constructor
      · rintro ⟨w, hw, ws, hws, h⟩
        obtain ⟨rfl, rfl⟩ := (finds_pure (w :: ws) vs s').mp h
        exact ⟨.cons hw hws, rfl⟩
      · rintro ⟨h, rfl⟩
        cases h with
        | cons hw hws => exact ⟨_, hw, _, hws, rfl⟩

theorem finds_itemAt (r : Ref) (index : Int) :
    Finds (itemAt r index) s fun v => Heap.itemAt? (s.heap.items r) index = some v := by
  intro v s'
  unfold itemAt Heap.get
  cases Heap.itemAt? (s.heap.items r) index <;> simp

theorem finds_isZeroOrEmpty (v : Value) :
    Finds (isZeroOrEmpty v) s fun zero => s.heap.isZeroOrEmpty v = zero := by
  intro zero s'
  simp [isZeroOrEmpty]

theorem replaceItem_eq_ok_iff {r : Ref} {index : Int} {v : Value} :
    replaceItem r index v s = .ok () s' ↔
      (0 ≤ index ∧ index < (s.heap.items r).length) ∧
        ⟨s.memory, s.heap.replace r ((s.heap.items r).set index.toNat v)⟩ = s' := by
  obtain ⟨memory, heap⟩ := s
  rw [← Heap.isSome_itemAt?]
  simp only [replaceItem, Heap.set]
  cases Heap.itemAt? (heap.items r) index <;> simp

theorem replaceItem_eq_error {r : Ref} {index : Int} {v : Value}
    (hindex : ¬ (0 ≤ index ∧ index < (s.heap.items r).length)) :
    replaceItem r index v s =
      .error (Heap.outOfRange index (s.heap.items r).length) s := by
  rw [← Heap.isSome_itemAt?, Option.not_isSome_iff_eq_none] at hindex
  obtain ⟨memory, heap⟩ := s
  rw [replaceItem, Heap.set, hindex]

end Execution

namespace Instruction

open Execution

variable {inst : Instruction} {s s' : Store} {control : Control}

theorem effect_of_execute (h : inst.execute s = .ok control s') :
    Effect inst s control s' := by
  cases inst with
  | varInt var value =>
      cases h
      exact .varInt var value
  | varList var elements =>
      obtain ⟨items, hitems, h⟩ := (finds_mapM_resolve elements).bind_eq_ok_iff.mp h
      cases h
      exact .varList hitems
  | combine first second =>
      obtain ⟨o₁, hfirst, h⟩ := (finds_find? first).bind_eq_ok_iff.mp h
      obtain ⟨o₂, hsecond, h⟩ := (finds_find? second).bind_eq_ok_iff.mp h
      dsimp only at h
      split at h
      · cases h
        exact .combine ⟨hfirst, hsecond⟩
      · rename_i hlists
        cases h
        refine .combineNothing fun r₁ r₂ hr => hlists r₁ r₂ ?_ ?_
        · rw [← hfirst, hr.1]
        · rw [← hsecond, hr.2]
  | get dest index seq =>
      obtain ⟨r, hseq, h⟩ := (finds_lookupList seq).bind_eq_ok_iff.mp h
      obtain ⟨v, hitem, h⟩ := (finds_itemAt r index).bind_eq_ok_iff.mp h
      cases h
      exact .get hseq hitem
  | set source index seq =>
      obtain ⟨v, hsource, h⟩ := (finds_resolve source).bind_eq_ok_iff.mp h
      obtain ⟨r, hseq, h⟩ := (finds_lookupList seq).bind_eq_ok_iff.mp h
      cases hs : replaceItem r index v s with
      | ok u s₁ =>
          obtain ⟨hindex, rfl⟩ := replaceItem_eq_ok_iff.mp hs
          rw [bind_of_ok hs] at h
          cases h
          exact .set hsource hseq hindex
      | error e s₁ =>
          rw [bind_of_error hs] at h
          cases h
  | copy dest source =>
      obtain ⟨v, hsource, h⟩ := (finds_lookup source).bind_eq_ok_iff.mp h
      cases h
      exact .copy hsource
  | changeSign var =>
      obtain ⟨v, hvar, h⟩ := (finds_lookup var).bind_eq_ok_iff.mp h
      obtain ⟨w, hw, h⟩ := (finds_ofExcept v.negate).bind_eq_ok_iff.mp h
      obtain ⟨n, rfl, rfl⟩ := negate_eq_ok_iff.mp hw
      cases h
      exact .changeSign hvar
  | add var operand =>
      obtain ⟨m, hvar, h⟩ := (finds_lookupInteger var).bind_eq_ok_iff.mp h
      obtain ⟨o, rfl, h⟩ := (finds_find? operand).bind_eq_ok_iff.mp h
      obtain ⟨n, hn, h⟩ := (finds_ofExcept _).bind_eq_ok_iff.mp h
      cases h
      exact .add hvar (asInteger_eq_ok_iff.mp hn)
  | branch var target =>
      obtain ⟨v, hvar, h⟩ := (finds_lookup var).bind_eq_ok_iff.mp h
      obtain ⟨zero, hzero, h⟩ := (finds_isZeroOrEmpty v).bind_eq_ok_iff.mp h
      cases zero with
      | true =>
          cases h
          exact .branchTaken hvar hzero
      | false =>
          cases h
          exact .branchPassed hvar hzero
  | halt =>
      cases h
      exact .halt

theorem execute_of_effect (h : Effect inst s control s') :
    inst.execute s = .ok control s' := by
  cases h with
  | varInt var value => rfl
  | varList hitems =>
      exact (finds_mapM_resolve _).bind_eq_ok_iff.mpr ⟨_, hitems, rfl⟩
  | combine hlists =>
      refine (finds_find? _).bind_eq_ok_iff.mpr ⟨_, hlists.1, ?_⟩
      exact (finds_find? _).bind_eq_ok_iff.mpr ⟨_, hlists.2, rfl⟩
  | @combineNothing _ first second hlists =>
      refine (finds_find? _).bind_eq_ok_iff.mpr ⟨_, rfl, ?_⟩
      refine (finds_find? _).bind_eq_ok_iff.mpr ⟨_, rfl, ?_⟩
      rcases hfirst : s.memory.get? first with _ | (n₁ | r₁)
      · rfl
      · rfl
      · rcases hsecond : s.memory.get? second with _ | (n₂ | r₂)
        · rfl
        · rfl
        · exact absurd ⟨hfirst, hsecond⟩ (hlists r₁ r₂)
  | get hseq hitem =>
      refine (finds_lookupList _).bind_eq_ok_iff.mpr ⟨_, hseq, ?_⟩
      exact (finds_itemAt _ _).bind_eq_ok_iff.mpr ⟨_, hitem, rfl⟩
  | set hsource hseq hindex =>
      refine (finds_resolve _).bind_eq_ok_iff.mpr ⟨_, hsource, ?_⟩
      refine (finds_lookupList _).bind_eq_ok_iff.mpr ⟨_, hseq, ?_⟩
      exact bind_of_ok (replaceItem_eq_ok_iff.mpr ⟨hindex, rfl⟩)
  | copy hsource =>
      exact (finds_lookup _).bind_eq_ok_iff.mpr ⟨_, hsource, rfl⟩
  | changeSign hvar =>
      refine (finds_lookup _).bind_eq_ok_iff.mpr ⟨_, hvar, ?_⟩
      exact (finds_ofExcept _).bind_eq_ok_iff.mpr ⟨_, rfl, rfl⟩
  | add hvar hoperand =>
      refine (finds_lookupInteger _).bind_eq_ok_iff.mpr ⟨_, hvar, ?_⟩
      refine (finds_find? _).bind_eq_ok_iff.mpr ⟨_, rfl, ?_⟩
      have haddend := asInteger_eq_ok_iff.mpr hoperand
      exact (finds_ofExcept _).bind_eq_ok_iff.mpr ⟨_, haddend, rfl⟩
  | branchTaken hvar hzero =>
      refine (finds_lookup _).bind_eq_ok_iff.mpr ⟨_, hvar, ?_⟩
      exact (finds_isZeroOrEmpty _).bind_eq_ok_iff.mpr ⟨true, hzero, rfl⟩
  | branchPassed hvar hzero =>
      refine (finds_lookup _).bind_eq_ok_iff.mpr ⟨_, hvar, ?_⟩
      exact (finds_isZeroOrEmpty _).bind_eq_ok_iff.mpr ⟨false, hzero, rfl⟩
  | halt => rfl

/-- **The rules are exactly successful execution.** -/
theorem execute_eq_ok_iff : inst.execute s = .ok control s' ↔ Effect inst s control s' :=
  ⟨effect_of_execute, execute_of_effect⟩

theorem eq_halt_of_effect (h : Effect inst s .halt s') : inst = .halt := by
  cases h
  rfl

/-- Only a branch leads to another line than the next one. -/
theorem eq_branch_of_effect {target : Int} (h : Effect inst s (.jump target) s') :
    ∃ var, inst = .branch var target := by
  cases h with
  | @branchTaken _ var _ _ _ _ => exact ⟨var, rfl⟩

end Instruction
end LineMachine
