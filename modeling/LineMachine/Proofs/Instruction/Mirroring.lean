import LineMachine.Proofs.Heap.Pairing
import LineMachine.Proofs.Instruction.Effect
import LineMachine.Proofs.Instruction.Renaming

/-!
# Stores that mirror each other

A store mirrors another if it has the same names, renamed, with values that a pairing of
the heaps relates.  An instruction and the renamed instruction then do the same to both:
what a token is, how a list is read and where a failure comes from depend on the values
alone, never on the numbers of the lists.

**Invariant.**  The pairing grows with the lists that are built on both sides.

**Results.**
* `Store.Mirrors.assign`: assigning related values on both sides.
* `Execution.Corresponds.bind`: computations correspond if they read corresponding
  values and go on with computations that correspond.
* `Instruction.corresponds_execute`: an instruction corresponds to the renamed one.
* `Instruction.corresponds_executeLine`: lines that are read alike are executed alike.
-/

namespace LineMachine

/-- The second store has the names of the first, renamed, with related values in paired
heaps; all names are of a set of tokens. -/
structure Store.Mirrors (T : String → Prop) (ρ : String → String) (R : Ref → Ref → Prop)
    (s s' : Store) : Prop where
  names : s'.memory.names = s.memory.names.map ρ
  tokens : ∀ name, name ∈ s.memory.names → T name
  values : ∀ name, T name →
    Option.Rel (Value.Related R) (s.memory.get? name) (s'.memory.get? (ρ name))
  heap : s.heap.Pairing s'.heap R

section Assignments

variable {T : String → Prop} {ρ : String → String} {R Q : Ref → Ref → Prop} {s s' : Store}
  {name : String}

theorem Store.Mirrors.get?_cases (hs : s.Mirrors T ρ R s') (hname : T name) :
    (s.memory.get? name = none ∧ s'.memory.get? (ρ name) = none) ∨
      ∃ v w, s.memory.get? name = some v ∧ s'.memory.get? (ρ name) = some w ∧
        v.Related R w := by
  have hvalues := hs.values name hname
  generalize s.memory.get? name = o at hvalues
  generalize s'.memory.get? (ρ name) = o' at hvalues
  cases hvalues with
  | none => exact Or.inl ⟨rfl, rfl⟩
  | some hvw => exact Or.inr ⟨_, _, rfl, rfl, hvw⟩

theorem Store.Mirrors.mem_names_iff (hs : s.Mirrors T ρ R s') (hρ : TokenRenaming T ρ)
    (hname : T name) : ρ name ∈ s'.memory.names ↔ name ∈ s.memory.names := by
  rw [hs.names]
  constructor
  · intro hmem
    obtain ⟨other, hother, heq⟩ := List.mem_map.mp hmem
    rw [← hρ.injective other name (hs.tokens other hother) hname heq]
    exact hother
  · exact List.mem_map_of_mem

/-- Assigning related values on both sides. -/
theorem Store.Mirrors.assign {k k' : Heap} {v w : Value} (hs : s.Mirrors T ρ R s')
    (hρ : TokenRenaming T ρ) (hRQ : ∀ r q, R r q → Q r q) (hheap : k.Pairing k' Q)
    (hname : T name) (hvw : v.Related Q w) :
    (Store.assign ⟨s.memory, k⟩ name v).Mirrors T ρ Q
      (Store.assign ⟨s'.memory, k'⟩ (ρ name) w) where
  names := by
    have hset : (s'.memory.set (ρ name) w).names = (s.memory.set name v).names.map ρ := by
      rw [Memory.names_set, Memory.names_set, hs.names, List.map_append]
      by_cases hmem : name ∈ s.memory.names
      · rw [if_pos hmem, if_pos (hs.names ▸ (hs.mem_names_iff hρ hname).mpr hmem), List.map_nil]
      · rw [if_neg hmem, if_neg fun h => hmem ((hs.mem_names_iff hρ hname).mp (hs.names ▸ h))]
        rfl
    exact hset
  tokens := by
    intro other hother
    have hset : other ∈ (s.memory.set name v).names := hother
    rw [Memory.names_set] at hset
    rcases List.mem_append.mp hset with hold | hnew
    · exact hs.tokens other hold
    · by_cases hmem : name ∈ s.memory.names
      · rw [if_pos hmem] at hnew
        cases hnew
      · rw [if_neg hmem] at hnew
        obtain rfl := List.mem_singleton.mp hnew
        exact hname
  values := by
    intro other hother
    show Option.Rel _ ((s.memory.set name v).get? other) ((s'.memory.set (ρ name) w).get? (ρ other))
    rw [Memory.get?_set, Memory.get?_set]
    by_cases heq : name = other
    · rw [if_pos heq, if_pos (congrArg ρ heq)]
      exact .some hvw
    · rw [if_neg heq, if_neg fun h => heq (hρ.injective name other hname hother h)]
      rcases hs.get?_cases hother with ⟨ho, ho'⟩ | ⟨u, u', ho, ho', hu⟩
      · rw [ho, ho']
        exact .none
      · rw [ho, ho']
        exact .some (hu.mono hRQ)
  heap := hheap

end Assignments

namespace Execution

section Binds

variable {α β γ δ : Type} {ρ : String → String} {P : α → β → Prop}
  {Q : γ → Store → δ → Store → Prop}

/-- Both computations return, and what they return is related; or both fail, and for the
same reason but for the renaming. -/
inductive Corresponds (ρ : String → String) (Q : γ → Store → δ → Store → Prop) :
    EStateM.Result Failure Store γ → EStateM.Result Failure Store δ → Prop
  | ok {c : γ} {d : δ} {s s' : Store} (h : Q c s d s') : Corresponds ρ Q (.ok c s) (.ok d s')
  | error (e : Failure) (s s' : Store) : Corresponds ρ Q (.error e s) (.error (e.rename ρ) s')

theorem Corresponds.bind {x : Execution α} {y : Execution β} {f : α → Execution γ}
    {g : β → Execution δ} {s s' : Store} (hx : Reads x) (hy : Reads y)
    (hxy : Corresponds ρ (fun a _ b _ => P a b) (x s) (y s'))
    (hfg : ∀ a b, P a b → Corresponds ρ Q (f a s) (g b s')) :
    Corresponds ρ Q ((x >>= f) s) ((y >>= g) s') := by
  rcases hx s with ⟨a, ha⟩ | ⟨e, he⟩
  · rcases hy s' with ⟨b, hb⟩ | ⟨e', he'⟩
    · rw [ha, hb] at hxy
      rw [bind_of_ok ha, bind_of_ok hb]
      cases hxy with
      | ok hab => exact hfg a b hab
    · rw [ha, he'] at hxy
      cases hxy
  · rcases hy s' with ⟨b, hb⟩ | ⟨e', he'⟩
    · rw [he, hb] at hxy
      cases hxy
    · rw [he, he'] at hxy
      rw [bind_of_error he, bind_of_error he']
      cases hxy
      exact .error e s s'

end Binds

section Reading

variable {T : String → Prop} {ρ : String → String} {R : Ref → Ref → Prop} {s s' : Store}
  {name : String}

theorem corresponds_lookup (hs : s.Mirrors T ρ R s') (hname : T name) :
    Corresponds ρ (fun v _ w _ => v.Related R w) (lookup name s) (lookup (ρ name) s') := by
  rw [lookup, bind_find?, lookup, bind_find?]
  rcases hs.get?_cases hname with ⟨ho, ho'⟩ | ⟨v, w, ho, ho', hvw⟩
  · rw [ho, ho']
    exact .error _ s s'
  · rw [ho, ho']
    exact .ok hvw

theorem corresponds_resolve (hs : s.Mirrors T ρ R s') (hρ : TokenRenaming T ρ)
    (hname : T name) :
    Corresponds ρ (fun v _ w _ => v.Related R w) (resolve name s) (resolve (ρ name) s') := by
  rw [resolve, bind_find?, resolve, bind_find?]
  rcases hs.get?_cases hname with ⟨ho, ho'⟩ | ⟨v, w, ho, ho', hvw⟩
  · rw [ho, ho']
    dsimp only
    rw [hρ.readMargined_eq name hname]
    cases Numeral.readMargined name with
    | error e => exact .error _ s s'
    | ok number =>
        cases number with
        | none => exact .error _ s s'
        | some n => exact .ok (.int n)
  · rw [ho, ho']
    exact .ok hvw

theorem corresponds_mapM_resolve (hs : s.Mirrors T ρ R s') (hρ : TokenRenaming T ρ)
    {tokens : List String} (htokens : ∀ t, t ∈ tokens → T t) :
    Corresponds ρ (fun vs _ ws _ => List.Forall₂ (Value.Related R) vs ws) (tokens.mapM resolve s)
      ((tokens.map ρ).mapM resolve s') := by
  induction tokens with
  | nil =>
      rw [List.map_nil, List.mapM_nil]
      exact .ok .nil
  | cons token tokens ih =>
      obtain ⟨htoken, hrest⟩ := List.forall_mem_cons.mp htokens
      rw [List.map_cons, List.mapM_cons, List.mapM_cons]
      refine (corresponds_resolve hs hρ htoken).bind (reads_resolve _) (reads_resolve _) ?_
      intro v w hvw
      refine (ih hrest).bind (reads_mapM_resolve _) (reads_mapM_resolve _) fun vs ws hvs => ?_
      exact .ok (.cons hvw hvs)

theorem corresponds_asInteger {v w : Value} (hvw : v.Related R w) :
    Corresponds ρ (fun m _ n _ => m = n) (ofExcept v.asInteger s) (ofExcept w.asInteger s') := by
  cases hvw with
  | int n => exact .ok rfl
  | list _ => exact .error _ s s'

theorem corresponds_asList {v w : Value} (hvw : v.Related R w) :
    Corresponds ρ (fun r _ q _ => R r q) (ofExcept v.asList s) (ofExcept w.asList s') := by
  cases hvw with
  | int n => exact .error _ s s'
  | list hrq => exact .ok hrq

theorem corresponds_negate {v w : Value} (hvw : v.Related R w) :
    Corresponds ρ (fun u _ u' _ => u.Related R u') (ofExcept v.negate s)
      (ofExcept w.negate s') := by
  cases hvw with
  | int n => exact .ok (.int (-n))
  | list _ => exact .error _ s s'

theorem corresponds_lookupInteger (hs : s.Mirrors T ρ R s') (hname : T name) :
    Corresponds ρ (fun m _ n _ => m = n) (lookupInteger name s) (lookupInteger (ρ name) s') :=
  (corresponds_lookup hs hname).bind (reads_lookup _) (reads_lookup _)
    fun _ _ hvw => corresponds_asInteger hvw

theorem corresponds_lookupList (hs : s.Mirrors T ρ R s') (hname : T name) :
    Corresponds ρ (fun r _ q _ => R r q) (lookupList name s) (lookupList (ρ name) s') :=
  (corresponds_lookup hs hname).bind (reads_lookup _) (reads_lookup _)
    fun _ _ hvw => corresponds_asList hvw

/-- Lists of one length fail alike outside. -/
theorem corresponds_outOfRange {γ δ : Type} {Q : γ → Store → δ → Store → Prop} (index : Int)
    (length : Nat) (s s' : Store) :
    Corresponds ρ Q (.error (Heap.outOfRange index length) s)
      (.error (Heap.outOfRange index length) s') := by
  have herror : Corresponds ρ Q (.error (Heap.outOfRange index length) s) _ := .error _ s s'
  rwa [Failure.rename_outOfRange] at herror

theorem corresponds_itemAt (hs : s.Mirrors T ρ R s') {r q : Ref} (hrq : R r q) (index : Int) :
    Corresponds ρ (fun v _ w _ => v.Related R w) (itemAt r index s) (itemAt q index s') := by
  have hitems := hs.heap.isomorphism.bisimulation r q hrq
  have hitem := Heap.related_itemAt? hitems index
  rw [itemAt, itemAt, Heap.get, Heap.get, hitems.length_eq]
  generalize Heap.itemAt? (s.heap.items r) index = o at hitem
  generalize Heap.itemAt? (s'.heap.items q) index = o' at hitem
  cases hitem with
  | none => exact corresponds_outOfRange index _ s s'
  | some hvw => exact .ok hvw

end Reading

end Execution

namespace Instruction

open Execution

/-- The same control, and stores that mirror each other. -/
def MirrorEffect (T : String → Prop) (ρ : String → String) (control : Control) (s : Store)
    (control' : Control) (s' : Store) : Prop :=
  control' = control ∧ ∃ R, s.Mirrors T ρ R s'

section Effects

variable {T : String → Prop} {ρ : String → String} {R Q : Ref → Ref → Prop} {s s' : Store}

theorem corresponds_assign (hs : s.Mirrors T ρ R s') (hρ : TokenRenaming T ρ) {var : String}
    (hvar : T var) {v w : Value} (hvw : v.Related R w) :
    Corresponds ρ (MirrorEffect T ρ) ((assign var v >>= fun _ => pure Control.next) s)
      ((assign (ρ var) w >>= fun _ => pure Control.next) s') :=
  .ok ⟨rfl, R, hs.assign hρ (fun _ _ hrq => hrq) hs.heap hvar hvw⟩

theorem corresponds_assign_new (hs : s.Mirrors T ρ R s') (hρ : TokenRenaming T ρ)
    {var : String} (hvar : T var) {xs ys : List Value}
    (hxy : List.Forall₂ (Value.Related R) xs ys) :
    Corresponds ρ (MirrorEffect T ρ)
      ((newList xs >>= fun v => assign var v >>= fun _ => pure Control.next) s)
      ((newList ys >>= fun v => assign (ρ var) v >>= fun _ => pure Control.next) s') :=
  .ok ⟨rfl, _, hs.assign hρ (fun _ _ => Or.inl) (hs.heap.alloc hxy) hvar
    (.list (Or.inr ⟨rfl, rfl⟩))⟩

theorem corresponds_combine (hs : s.Mirrors T ρ R s') (hρ : TokenRenaming T ρ)
    {first second : String} (hfirst : T first) (hsecond : T second) :
    Corresponds ρ (MirrorEffect T ρ) ((combine first second).execute s)
      ((combine (ρ first) (ρ second)).execute s') := by
  have hnothing : MirrorEffect T ρ .next s .next s' := ⟨rfl, R, hs⟩
  rw [execute, bind_find?, bind_find?, execute, bind_find?, bind_find?]
  rcases hs.get?_cases hfirst with ⟨ho, ho'⟩ | ⟨v, v', ho, ho', hv⟩
  · rw [ho, ho']
    exact .ok hnothing
  · rw [ho, ho']
    cases hv with
    | int n => exact .ok hnothing
    | @list r r' hr =>
        rcases hs.get?_cases hsecond with ⟨ho, ho'⟩ | ⟨w, w', ho, ho', hw⟩
        · rw [ho, ho']
          exact .ok hnothing
        · rw [ho, ho']
          cases hw with
          | int n => exact .ok hnothing
          | @list q q' hq =>
              have hitems := hs.heap.isomorphism.bisimulation
              exact corresponds_assign_new hs hρ hsecond
                (List.rel_append (hitems r r' hr) (hitems q q' hq))

theorem corresponds_replaceItem (hs : s.Mirrors T ρ R s') {r q : Ref} (hrq : R r q)
    (index : Int) {v w : Value} (hvw : v.Related R w) :
    Corresponds ρ (MirrorEffect T ρ) ((replaceItem r index v >>= fun _ => pure Control.next) s)
      ((replaceItem q index w >>= fun _ => pure Control.next) s') := by
  have hitems := hs.heap.isomorphism.bisimulation r q hrq
  by_cases hindex : 0 ≤ index ∧ index < (s.heap.items r).length
  · have hindex' := hindex
    rw [hitems.length_eq] at hindex'
    rw [bind_of_ok (replaceItem_eq_ok_iff.mpr ⟨hindex, rfl⟩),
      bind_of_ok (replaceItem_eq_ok_iff.mpr ⟨hindex', rfl⟩)]
    have hheap := hs.heap.replace hrq (Heap.related_set hitems index.toNat hvw)
    exact .ok ⟨rfl, R, hs.names, hs.tokens, hs.values, hheap⟩
  · have hindex' := hindex
    rw [hitems.length_eq] at hindex'
    rw [bind_of_error (replaceItem_eq_error hindex), bind_of_error (replaceItem_eq_error hindex'),
      hitems.length_eq]
    exact corresponds_outOfRange index _ s s'

/-- **An instruction corresponds to the renamed instruction.** -/
theorem corresponds_execute (hs : s.Mirrors T ρ R s') (hρ : TokenRenaming T ρ)
    (hclosed : s.Closed) (hclosed' : s'.Closed) (inst : Instruction)
    (hinst : ∀ name, name ∈ inst.names → T name) :
    Corresponds ρ (MirrorEffect T ρ) (inst.execute s) ((inst.rename ρ).execute s') := by
  cases inst with
  | varInt var value => exact corresponds_assign hs hρ (hinst var (by simp [names])) (.int value)
  | varList var elements =>
      obtain ⟨hvar, helements⟩ := List.forall_mem_cons.mp hinst
      refine (corresponds_mapM_resolve hs hρ helements).bind (reads_mapM_resolve _)
        (reads_mapM_resolve _) fun vs ws hvw => ?_
      exact corresponds_assign_new hs hρ hvar hvw
  | combine first second =>
      exact corresponds_combine hs hρ (hinst first (by simp [names]))
        (hinst second (by simp [names]))
  | get dest index seq =>
      refine (corresponds_lookupList hs (hinst seq (by simp [names]))).bind (reads_lookupList _)
        (reads_lookupList _) fun r q hrq => ?_
      refine (corresponds_itemAt hs hrq index).bind (reads_itemAt _ _) (reads_itemAt _ _) ?_
      exact fun v w hvw => corresponds_assign hs hρ (hinst dest (by simp [names])) hvw
  | set source index seq =>
      refine (corresponds_resolve hs hρ (hinst source (by simp [names]))).bind (reads_resolve _)
        (reads_resolve _) fun v w hvw => ?_
      refine (corresponds_lookupList hs (hinst seq (by simp [names]))).bind (reads_lookupList _)
        (reads_lookupList _) fun r q hrq => ?_
      exact corresponds_replaceItem hs hrq index hvw
  | copy dest source =>
      refine (corresponds_lookup hs (hinst source (by simp [names]))).bind (reads_lookup _)
        (reads_lookup _) fun v w hvw => ?_
      obtain ⟨hheap, hcopy⟩ := hs.heap.deepCopy hclosed.heap hclosed'.heap hvw
      exact .ok ⟨rfl, _,
        hs.assign hρ (fun _ _ => Or.inl) hheap (hinst dest (by simp [names])) hcopy⟩
  | changeSign var =>
      have hvar := hinst var (by simp [names])
      refine (corresponds_lookup hs hvar).bind (reads_lookup _) (reads_lookup _) fun v w hvw => ?_
      refine (corresponds_negate hvw).bind (reads_ofExcept _) (reads_ofExcept _) ?_
      exact fun u u' hu => corresponds_assign hs hρ hvar hu
  | add var operand =>
      have hvar := hinst var (by simp [names])
      refine (corresponds_lookupInteger hs hvar).bind (reads_lookupInteger _)
        (reads_lookupInteger _) ?_
      rintro augend _ rfl
      rw [bind_find?, bind_find?]
      have haddend : ((s.memory.get? operand).getD (.int 0)).Related R
          ((s'.memory.get? (ρ operand)).getD (.int 0)) := by
        rcases hs.get?_cases (hinst operand (by simp [names])) with
          ⟨ho, ho'⟩ | ⟨v, w, ho, ho', hvw⟩
        · rw [ho, ho']
          exact .int 0
        · rw [ho, ho']
          exact hvw
      refine (corresponds_asInteger haddend).bind (reads_ofExcept _) (reads_ofExcept _) ?_
      rintro addend _ rfl
      exact corresponds_assign hs hρ hvar (.int (augend + addend))
  | branch var target =>
      have hvar := hinst var (by simp [names])
      refine (corresponds_lookup hs hvar).bind (reads_lookup _) (reads_lookup _) fun v w hvw => ?_
      have hzero := hs.heap.isomorphism.bisimulation.isZeroOrEmpty_eq hvw
      rw [bind_isZeroOrEmpty, bind_isZeroOrEmpty, ← hzero]
      cases s.heap.isZeroOrEmpty v with
      | true => exact .ok ⟨rfl, R, hs⟩
      | false => exact .ok ⟨rfl, R, hs⟩
  | halt => exact .ok ⟨rfl, R, hs⟩

/-- **Lines that are read alike are executed alike.** -/
theorem corresponds_executeLine (hs : s.Mirrors T ρ R s') (hρ : TokenRenaming T ρ)
    (hclosed : s.Closed) (hclosed' : s'.Closed) {line line' : String}
    (hlines : DecodesAlike T ρ (decode line) (decode line')) :
    Corresponds ρ (MirrorEffect T ρ) (executeLine line s) (executeLine line' s') := by
  rw [executeLine, executeLine]
  generalize decode line = d at hlines
  generalize decode line' = d' at hlines
  cases hlines with
  | ok hnames => exact corresponds_execute hs hρ hclosed hclosed' _ hnames
  | error e => exact .error e s s'

end Effects

end Instruction
end LineMachine
