import LineMachine.Proofs.Plain.Representation

/-!
# Plain execution matches execution

An instruction does to a store what it does to the plain memory that the store
represents, or fails on both for the same reason.  The only instructions left out
are those that would succeed in storing a list in a list.

**Results.**
* `Execution.Matches.bind`: computations match if they read values that match and
  go on with computations that match.
* `Instruction.matches_execute`, `Instruction.matches_executeLine`: an instruction
  matches its plain execution.
-/

namespace LineMachine
namespace Execution

section Binds

variable {α β γ δ : Type} {P : α → β → Prop} {Q : γ → Store → δ → Prop}

/-- A computation on a store and one on a plain memory both return, and what they
return is related; or both fail, and for the same reason. -/
inductive Matches (Q : γ → Store → δ → Prop) :
    EStateM.Result Failure Store γ → Except Failure δ → Prop
  | ok {c : γ} {s : Store} {d : δ} (h : Q c s d) : Matches Q (.ok c s) (.ok d)
  | error (e : Failure) (s : Store) : Matches Q (.error e s) (.error e)

theorem Matches.cases {r : EStateM.Result Failure Store γ} {r' : Except Failure δ}
    (h : Matches Q r r') :
    (∃ c s d, r = .ok c s ∧ r' = .ok d ∧ Q c s d) ∨
      ∃ e s, r = .error e s ∧ r' = .error e := by
  cases h with
  | @ok c s d hQ => exact Or.inl ⟨c, s, d, rfl, rfl, hQ⟩
  | error e s => exact Or.inr ⟨e, s, rfl, rfl⟩

theorem Matches.bind {x : Execution α} {f : α → Execution γ} {y : Except Failure β}
    {g : β → Except Failure δ} {s : Store} (hx : Reads x)
    (hxy : Matches (fun a _ b => P a b) (x s) y)
    (hfg : ∀ a b, x s = .ok a s → P a b → Matches Q (f a s) (g b)) :
    Matches Q ((x >>= f) s) (y >>= g) := by
  rcases hx s with ⟨a, ha⟩ | ⟨e, he⟩
  · rw [ha] at hxy
    rw [bind_of_ok ha]
    cases hxy with
    | ok hab => exact hfg a _ ha hab
  · rw [he] at hxy
    rw [bind_of_error he]
    cases hxy
    exact .error e s

end Binds

section Reading

variable {s : Store} {m : PlainMemory}

theorem matches_lookup (hp : s.Represents m) (name : String) :
    Matches (fun v _ p => s.heap.Represents v p) (lookup name s) (m.lookup name) := by
  rw [lookup, bind_find?, PlainMemory.lookup]
  rcases hp.get?_cases name with ⟨ho, hq⟩ | ⟨v, p, ho, hq, hv⟩
  · rw [ho, hq]
    exact .error _ s
  · rw [ho, hq]
    exact .ok hv

theorem matches_resolve (hp : s.Represents m) (token : String) :
    Matches (fun v _ p => s.heap.Represents v p) (resolve token s) (m.resolve token) := by
  rw [resolve, bind_find?, PlainMemory.resolve]
  rcases hp.get?_cases token with ⟨ho, hq⟩ | ⟨v, p, ho, hq, hv⟩
  · rw [ho, hq]
    dsimp only
    cases Numeral.readMargined token with
    | error e => exact .error _ s
    | ok number =>
        cases number with
        | none => exact .error _ s
        | some n => exact .ok (.int n)
  · rw [ho, hq]
    exact .ok hv

theorem matches_mapM_resolve (hp : s.Represents m) (tokens : List String) :
    Matches (fun vs _ ps => List.Forall₂ s.heap.Represents vs ps) (tokens.mapM resolve s)
      (tokens.mapM m.resolve) := by
  induction tokens with
  | nil =>
      rw [List.mapM_nil, List.mapM_nil]
      exact .ok .nil
  | cons token tokens ih =>
      rw [List.mapM_cons, List.mapM_cons]
      refine (matches_resolve hp token).bind (reads_resolve token) fun v p _ hv => ?_
      refine ih.bind (reads_mapM_resolve tokens) fun vs ps _ hvs => ?_
      exact .ok (.cons hv hvs)

theorem matches_asInteger {v : Value} {p : PlainValue} (hv : s.heap.Represents v p) :
    Matches (fun n _ k => n = k) (ofExcept v.asInteger s) p.asInteger := by
  cases hv with
  | int n => exact .ok rfl
  | seq _ => exact .error _ s

theorem matches_asList {v : Value} {p : PlainValue} (hv : s.heap.Represents v p) :
    Matches (fun r _ ns => s.heap.items r = ns.map .int) (ofExcept v.asList s) p.asSequence := by
  cases hv with
  | int n => exact .error _ s
  | seq hitems => exact .ok hitems

theorem matches_lookupInteger (hp : s.Represents m) (name : String) :
    Matches (fun n _ k => n = k) (lookupInteger name s) (m.lookupInteger name) :=
  (matches_lookup hp name).bind (reads_lookup name) fun _ _ _ hv => matches_asInteger hv

theorem matches_lookupList (hp : s.Represents m) (name : String) :
    Matches (fun r _ ns => s.heap.items r = ns.map .int) (lookupList name s)
      (m.lookupSequence name) :=
  (matches_lookup hp name).bind (reads_lookup name) fun _ _ _ hv => matches_asList hv

/-- Outside a sequence the plain machine fails as outside a list. -/
theorem plainItemAt_eq_error {ns : List Int} {index : Int}
    (hindex : ¬ (0 ≤ index ∧ index < ns.length)) :
    PlainMemory.itemAt ns index = .error (Heap.outOfRange index ns.length) := by
  rw [PlainMemory.itemAt, if_neg hindex]
  cases hwritable : Numeral.writable index with
  | true => rw [Heap.outOfRange_of_writable hwritable, if_pos rfl]
  | false => rw [Heap.outOfRange_of_not_writable hwritable, if_neg Bool.false_ne_true]

theorem matches_itemAt {r : Ref} {ns : List Int} (hitems : s.heap.items r = ns.map .int)
    (index : Int) :
    Matches (fun v _ n => v = .int n) (itemAt r index s) (PlainMemory.itemAt ns index) := by
  unfold itemAt Heap.get Heap.itemAt?
  rw [hitems, List.length_map, List.getElem?_map]
  by_cases hindex : 0 ≤ index ∧ index < ns.length
  · have hnat : index.toNat < ns.length := by omega
    rw [PlainMemory.itemAt, if_pos hindex, if_pos hindex.1, List.getD_eq_getElem?_getD,
      List.getElem?_eq_getElem hnat]
    exact .ok rfl
  · rw [plainItemAt_eq_error hindex]
    by_cases hpos : 0 ≤ index
    · have hnat : ns.length ≤ index.toNat := by omega
      rw [if_pos hpos, List.getElem?_eq_none hnat]
      exact .error _ s
    · rw [if_neg hpos]
      exact .error _ s

theorem isZeroOrEmpty_eq {v : Value} {p : PlainValue} (hv : s.heap.Represents v p) :
    s.heap.isZeroOrEmpty v = p.isZeroOrEmpty := by
  cases hv with
  | int n => rfl
  | seq hitems => rw [Heap.isZeroOrEmpty, hitems, List.isEmpty_map, PlainValue.isZeroOrEmpty]

end Reading

section Flat

variable {s : Store}

/-- Tokens without list values have integers as values. -/
theorem exists_map_int {tokens : List String} {vs : List Value}
    (hvs : List.Forall₂ (Resolves s) tokens vs)
    (hflat : ∀ token, token ∈ tokens → ∀ r, ¬ Resolves s token (.list r)) :
    ∃ ns : List Int, vs = ns.map .int := by
  induction hvs with
  | nil => exact ⟨[], rfl⟩
  | @cons token v tokens vs hv _ ih =>
      obtain ⟨ns, rfl⟩ := ih fun t ht => hflat t (List.mem_cons_of_mem _ ht)
      cases v with
      | int n => exact ⟨n :: ns, rfl⟩
      | list r => exact absurd hv (hflat token List.mem_cons_self r)

theorem mapM_asInteger {h : Heap} {ns : List Int} {ps : List PlainValue}
    (hps : List.Forall₂ h.Represents (ns.map .int) ps) :
    ps.mapM PlainValue.asInteger = .ok ns := by
  induction ns generalizing ps with
  | nil =>
      cases hps
      rfl
  | cons n ns ih =>
      cases hps with
      | cons hhead htail =>
          cases hhead
          rw [List.mapM_cons, ih htail]
          rfl

end Flat

end Execution

namespace Instruction

open Execution

/-- The tokens whose values an instruction stores in a list. -/
def stored : Instruction → List String
  | varList _ elements => elements
  | set source _ _ => [source]
  | varInt _ _ | combine _ _ | get _ _ _ | copy _ _ | changeSign _ | add _ _ | branch _ _ | halt =>
    []

/-- The instruction stores no list in a list. -/
def KeepsFlat (inst : Instruction) (s : Store) : Prop :=
  ∀ token, token ∈ inst.stored → ∀ r, ¬ Resolves s token (.list r)

/-- The same control, and a store that represents the memory. -/
def SameEffect (control : Control) (s : Store) (effect : Control × PlainMemory) : Prop :=
  control = effect.1 ∧ s.Represents effect.2

section Effects

variable {s : Store} {m : PlainMemory}

theorem matches_assign_int (hs : s.Closed) (hp : s.Represents m) (var : String) (n : Int) :
    Matches SameEffect ((assign var (.int n) >>= fun _ => pure Control.next) s)
      (.ok (.next, m.set var (.int n))) :=
  .ok ⟨rfl, hp.assign hs (fun _ _ => rfl) (.int n) trivial var⟩

theorem matches_assign_new (hs : s.Closed) (hp : s.Represents m) (var : String) {ns : List Int}
    {xs : List Value} (hxs : xs = ns.map .int) :
    Matches SameEffect ((newList xs >>= fun v => assign var v >>= fun _ => pure Control.next) s)
      (.ok (.next, m.set var (.seq ns))) := by
  have hkept : ∀ r, r < s.heap.size → (s.heap.alloc xs).2.items r = s.heap.items r := by
    intro r hr
    rw [Heap.items_alloc, if_neg (Nat.ne_of_lt hr)]
  have hnew : (s.heap.alloc xs).2.items s.heap.size = ns.map .int := by
    rw [Heap.items_alloc, if_pos rfl, hxs]
  exact .ok ⟨rfl, hp.assign hs hkept (.seq hnew) (Nat.le_refl _) var⟩

theorem matches_combine (hs : s.Closed) (hp : s.Represents m) (first second : String) :
    Matches SameEffect ((combine first second).execute s)
      (PlainMemory.execute (.combine first second) m) := by
  rw [execute, bind_find?, bind_find?, PlainMemory.execute]
  rcases hp.get?_cases first with ⟨ho₁, hq₁⟩ | ⟨v₁, p₁, ho₁, hq₁, hv₁⟩
  · rw [ho₁, hq₁]
    exact .ok ⟨rfl, hp⟩
  · rw [ho₁, hq₁]
    cases hv₁ with
    | int n => exact .ok ⟨rfl, hp⟩
    | seq hxs =>
        rcases hp.get?_cases second with ⟨ho₂, hq₂⟩ | ⟨v₂, p₂, ho₂, hq₂, hv₂⟩
        · rw [ho₂, hq₂]
          exact .ok ⟨rfl, hp⟩
        · rw [ho₂, hq₂]
          cases hv₂ with
          | int n => exact .ok ⟨rfl, hp⟩
          | seq hys =>
              refine matches_assign_new hs hp second ?_
              rw [hxs, hys, List.map_append]

/-- A replacement that succeeds stores an integer. -/
theorem matches_replaceItem (hp : s.Represents m) {seq : String} {r : Ref} {ns : List Int}
    (hseq : s.memory.get? seq = some (.list r)) (hitems : s.heap.items r = ns.map .int)
    (index : Int) {v : Value} {p : PlainValue} (hv : s.heap.Represents v p)
    (hint : (0 ≤ index ∧ index < (s.heap.items r).length) → ∀ q, v ≠ .list q) :
    Matches SameEffect ((replaceItem r index v >>= fun _ => pure Control.next) s)
      (do
        let _ ← PlainMemory.itemAt ns index
        let n ← p.asInteger
        return (.next, m.set seq (.seq (ns.set index.toNat n)))) := by
  have hlength : (s.heap.items r).length = ns.length := by rw [hitems, List.length_map]
  by_cases hindex : 0 ≤ index ∧ index < (s.heap.items r).length
  · have hplain : PlainMemory.itemAt ns index = .ok (ns.getD index.toNat 0) := by
      rw [PlainMemory.itemAt, ← hlength, if_pos hindex]
    rw [bind_of_ok (replaceItem_eq_ok_iff.mpr ⟨hindex, rfl⟩), hplain]
    cases hv with
    | int n => exact .ok ⟨rfl, hp.overwrite hseq hitems (Heap.overwritten_replace hindex _)⟩
    | @seq q _ _ => exact absurd rfl (hint hindex q)
  · rw [bind_of_error (replaceItem_eq_error hindex), hlength]
    rw [hlength] at hindex
    rw [plainItemAt_eq_error hindex]
    exact .error _ s

/-- **An instruction matches its plain execution**, unless it succeeds in storing a
list in a list. -/
theorem matches_execute (hs : s.Closed) (hp : s.Represents m) (inst : Instruction)
    (hflat : (∃ control s', inst.execute s = .ok control s') → inst.KeepsFlat s) :
    Matches SameEffect (inst.execute s) (PlainMemory.execute inst m) := by
  cases inst with
  | varInt var value => exact matches_assign_int hs hp var value
  | varList var elements =>
      refine (matches_mapM_resolve hp elements).bind (reads_mapM_resolve elements) ?_
      intro vs ps hvs hps
      have hresolves := ((finds_mapM_resolve elements) vs s).mp hvs
      have hkeeps := hflat ⟨_, _, execute_of_effect (.varList hresolves.1)⟩
      obtain ⟨ns, rfl⟩ := exists_map_int hresolves.1 hkeeps
      rw [mapM_asInteger hps]
      exact matches_assign_new hs hp var rfl
  | combine first second => exact matches_combine hs hp first second
  | get dest index seq =>
      refine (matches_lookupList hp seq).bind (reads_lookupList seq) fun r ns _ hitems => ?_
      refine (matches_itemAt hitems index).bind (reads_itemAt r index) ?_
      rintro _ n _ rfl
      exact matches_assign_int hs hp dest n
  | set source index seq =>
      refine (matches_resolve hp source).bind (reads_resolve source) fun v p hsource hv => ?_
      refine (matches_lookupList hp seq).bind (reads_lookupList seq) fun r ns hlookup hitems => ?_
      have hresolves := (finds_resolve source v s).mp hsource
      have hseq := (finds_lookupList seq r s).mp hlookup
      refine matches_replaceItem hp hseq.1 hitems index hv fun hindex q hq => ?_
      have hkeeps := hflat ⟨_, _, execute_of_effect (.set hresolves.1 hseq.1 hindex)⟩
      rw [hq] at hresolves
      exact hkeeps source List.mem_cons_self q hresolves.1
  | copy dest source =>
      refine (matches_lookup hp source).bind (reads_lookup source) fun v p hsource hv => ?_
      have hlies := hs.memory ((finds_lookup source v s).mp hsource).1
      have hnew := (Heap.liesIn_deepCopy hlies).mono fun r hr => hr.1
      exact .ok ⟨rfl, hp.assign hs (fun r hr => Heap.items_deepCopy_of_lt hr)
        (hv.deepCopy hlies) hnew dest⟩
  | changeSign var =>
      refine (matches_lookup hp var).bind (reads_lookup var) fun v p _ hv => ?_
      cases hv with
      | int n => exact matches_assign_int hs hp var (-n)
      | seq _ => exact .error _ s
  | add var operand =>
      refine (matches_lookupInteger hp var).bind (reads_lookupInteger var) ?_
      rintro augend _ _ rfl
      rw [bind_find?]
      have haddend : s.heap.Represents ((s.memory.get? operand).getD (.int 0))
          ((m.get? operand).getD (.int 0)) := by
        rcases hp.get?_cases operand with ⟨ho, hq⟩ | ⟨v, p, ho, hq, hv⟩
        · rw [ho, hq]
          exact .int 0
        · rw [ho, hq]
          exact hv
      refine (matches_asInteger haddend).bind (reads_ofExcept _) ?_
      rintro addend _ _ rfl
      exact matches_assign_int hs hp var (augend + addend)
  | branch var target =>
      refine (matches_lookup hp var).bind (reads_lookup var) fun v p _ hv => ?_
      rw [← isZeroOrEmpty_eq hv, bind_isZeroOrEmpty]
      cases s.heap.isZeroOrEmpty v with
      | true => exact .ok ⟨rfl, hp⟩
      | false => exact .ok ⟨rfl, hp⟩
  | halt => exact .ok ⟨rfl, hp⟩

/-- A line matches its plain execution, whether it can be read or not. -/
theorem matches_executeLine (hs : s.Closed) (hp : s.Represents m) (line : String)
    (hflat : ∀ inst, decode line = .ok inst →
      (∃ control s', inst.execute s = .ok control s') → inst.KeepsFlat s) :
    Matches SameEffect (executeLine line s) (PlainMemory.executeLine line m) := by
  rw [executeLine, PlainMemory.executeLine]
  cases hdecode : decode line with
  | ok inst => exact matches_execute hs hp inst (hflat inst hdecode)
  | error e => exact .error e s

end Effects

end Instruction
end LineMachine
