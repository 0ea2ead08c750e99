import LineMachine.Proofs.Heap.Correspondence
import LineMachine.Proofs.Heap.Equality
import LineMachine.Proofs.Heap.Pairing

/-!
# A copy cannot be told from its original

What can be asked about a value are its kind, whether it is zero or empty, its text and
what it equals.  All of these depend on the shape of the value only, sharing and cycles
included; and a copy has the shape of its original.  Later copies have it too, and keep it
when the original is changed, as long as the change is not made in a list that has been put
into the original from a copy.

**Input.**  A heap in which every list that is held exists, and a value of it.

**Invariant.**  Lists are made beside those that exist, and items are replaced in lists that
a value does not reach at that moment; so what the value reaches stays as it is.

**Results.**
* `SameShape.indiscernible`: values of the same shape cannot be told apart.
* `Becomes.closed`, `Becomes.agree`: what happens to a heap.
* `Becomes.outside_of_through`: replacements in the original are not made in the copies.
* `apart_of_copied`: the original and a copy share no list.
* `copies_are_indiscernible`: a copy, its original and a second copy.
-/

namespace LineMachine
namespace Heap

/-- Some isomorphism relates the values. -/
def SameShape (h : Heap) (v : Value) (h' : Heap) (w : Value) : Prop :=
  ∃ R, Isomorphism h h' R ∧ v.Related R w

/-- Nothing that can be asked about the two values tells them apart. -/
structure Indiscernible (h : Heap) (v w : Value) : Prop where
  equal : h.sameValue v w = true ∧ h.sameValue w v = true
  text : h.text v = h.text w
  kind : v.kind = w.kind
  isZeroOrEmpty : h.isZeroOrEmpty v = h.isZeroOrEmpty w

/-- What may become of a heap: lists are made and copied, and items are replaced by values
that exist.  The condition says which replacements there are, by the heap at that moment, the
list and the value. -/
inductive Becomes (P : Heap → Ref → Value → Prop) (h : Heap) : Heap → Prop
  | same : Becomes P h h
  | alloc {k : Heap} {xs : List Value} (hk : Becomes P h k)
      (hxs : ∀ v, v ∈ xs → v.LiesIn fun r => r < k.size) : Becomes P h (k.alloc xs).2
  | copy {k : Heap} {v : Value} (hk : Becomes P h k) (hv : v.LiesIn fun r => r < k.size) :
      Becomes P h (k.deepCopy v).2
  | set {k k' : Heap} {r : Ref} {index : Int} {w : Value} (hk : Becomes P h k) (hr : P k r w)
      (hw : w.LiesIn fun q => q < k.size) (hset : k.set r index w = .ok k') : Becomes P h k'

/-- The list is reached from neither of the two values. -/
def Outside (a b : Value) (k : Heap) (r : Ref) (_ : Value) : Prop :=
  ¬ k.Reaches a r ∧ ¬ k.Reaches b r

/-- The list is reached from the first value, and what is put there reaches no list that one
of the other two reaches. -/
def Through (v a b : Value) (k : Heap) (r : Ref) (w : Value) : Prop :=
  k.Reaches v r ∧ ∀ q, k.Reaches w q → ¬ k.Reaches a q ∧ ¬ k.Reaches b q

section Shapes

variable {h h' h'' : Heap} {R : Ref → Ref → Prop} {u v w : Value}

theorem SameShape.symm (hvw : SameShape h v h' w) : SameShape h' w h v := by
  obtain ⟨R, hR, hvw⟩ := hvw
  exact ⟨_, hR.symm, hvw.symm⟩

theorem SameShape.trans (huv : SameShape h u h' v) (hvw : SameShape h' v h'' w) :
    SameShape h u h'' w := by
  obtain ⟨R, hR, huv⟩ := huv
  obtain ⟨Q, hQ, hvw⟩ := hvw
  exact ⟨_, hR.trans hQ, huv.trans hvw⟩

theorem SameShape.of_agree (hagree : ∀ r, h.Reaches v r → h'.items r = h.items r) :
    SameShape h v h' v :=
  ⟨_, isomorphism_of_agree hagree⟩

theorem sameShape_deepCopy (hh : h.Closed) (hv : v.LiesIn fun r => r < h.size) :
    SameShape h v (h.deepCopy v).2 (h.deepCopy v).1 :=
  ⟨_, isomorphism_deepCopy hh v, related_deepCopy hv⟩

theorem kind_of_related (hvw : v.Related R w) : v.kind = w.kind := by
  cases hvw with
  | int n => rfl
  | list hrs => rfl

/-- **Values of the same shape cannot be told apart.** -/
theorem SameShape.indiscernible (hvw : SameShape h v h w) : Indiscernible h v w := by
  obtain ⟨R, hR, hrelated⟩ := hvw
  have halike : Alike h v h w := ⟨R, hR.bisimulation, hrelated⟩
  exact ⟨⟨sameValue_of_alike halike, sameValue_of_alike halike.symm⟩, text_congr hR hrelated,
    kind_of_related hrelated, hR.bisimulation.isZeroOrEmpty_eq hrelated⟩

end Shapes

section Changes

variable {P : Heap → Ref → Value → Prop} {h k k' : Heap} {v w a b : Value}

theorem Closed.confined_of_size_le (hh : h.Closed) {n : Nat} (hn : h.size ≤ n) :
    h.Confined fun r => r < n := by
  intro r _ v hv
  exact (hh.liesIn hv).mono fun q hq => Nat.lt_of_lt_of_le hq hn

theorem overwritten_of_set {r : Ref} {index : Int} (hset : k.set r index w = .ok k') :
    k.Overwritten k' r index w ∧ k'.size = k.size := by
  unfold Heap.set at hset
  split at hset
  · rename_i hitem
    cases hset
    have hindex := (isSome_itemAt? (k.items r) index).mp (by rw [hitem]; rfl)
    exact ⟨overwritten_replace hindex w, size_replace k r _⟩
  · cases hset

/-- **What may become of a heap holds existing lists only.** -/
theorem Becomes.closed (hk : h.Becomes P k) (hh : h.Closed) : k.Closed := by
  induction hk with
  | same => exact hh
  | @alloc k xs _ hxs ih =>
      have hsize : k.size ≤ (k.alloc xs).2.size := (extends_alloc k xs).size_le
      refine confined_alloc (ih.confined_of_size_le hsize) fun v hv => ?_
      exact (hxs v hv).mono fun q hq => Nat.lt_of_lt_of_le hq hsize
  | @copy k v _ hv ih =>
      have hsize := size_le_size_deepCopy k v
      exact confined_deepCopy ih (ih.confined_of_size_le hsize) fun r hr => hr.2
  | @set k k' r index w _ _ hw hset ih =>
      obtain ⟨hover, hsize⟩ := overwritten_of_set hset
      rw [Closed, hsize]
      intro q _ u hu
      rcases hover.mem_cases hu with hu | ⟨_, rfl⟩
      · exact ih.liesIn hu
      · exact hw

theorem Becomes.size_le (hk : h.Becomes P k) : h.size ≤ k.size := by
  induction hk with
  | same => exact Nat.le_refl _
  | alloc _ _ ih => exact Nat.le_trans ih (extends_alloc _ _).size_le
  | copy _ _ ih => exact Nat.le_trans ih (size_le_size_deepCopy _ _)
  | set _ _ _ hset ih => exact (overwritten_of_set hset).2 ▸ ih

/-- What existed goes on to exist. -/
theorem Becomes.liesIn (hk : h.Becomes P k) (hv : v.LiesIn fun r => r < h.size) :
    v.LiesIn fun r => r < k.size :=
  hv.mono fun _ hr => Nat.lt_of_lt_of_le hr hk.size_le

/-- **What a value reaches is as it was**, if items are only replaced in lists that the value
does not reach at that moment. -/
theorem Becomes.agree (hk : h.Becomes P k) (hh : h.Closed) (hv : v.LiesIn fun r => r < h.size)
    (hout : ∀ k r w, P k r w → ¬ k.Reaches v r) {r : Ref} (hr : h.Reaches v r) :
    k.items r = h.items r := by
  have hlt : r < h.size := hr.liesIn hh hv
  induction hk generalizing r with
  | same => rfl
  | @alloc k xs hk _ ih =>
      rw [(extends_alloc k xs).items r (Nat.lt_of_lt_of_le hlt hk.size_le), ih hr hlt]
  | @copy k u hk _ ih =>
      rw [items_deepCopy_of_lt (Nat.lt_of_lt_of_le hlt hk.size_le), ih hr hlt]
  | @set k k' q index w _ hq _ hset ih =>
      have hreached : k.Reaches v r :=
        (reaches_congr (fun _ hp => ih hp (hp.liesIn hh hv)) r).mpr hr
      have hne : r ≠ q := by
        rintro rfl
        exact hout _ _ _ hq hreached
      rw [(overwritten_of_set hset).1.others r hne, ih hr hlt]

theorem Becomes.reaches_iff (hk : h.Becomes P k) (hh : h.Closed)
    (hv : v.LiesIn fun r => r < h.size) (hout : ∀ k r w, P k r w → ¬ k.Reaches v r) (r : Ref) :
    k.Reaches v r ↔ h.Reaches v r :=
  reaches_congr (fun _ => hk.agree hh hv hout) r

/-- Lists that are made later are not reached from what existed before. -/
theorem reaches_iff_of_grown (hk : k.Closed) (hv : v.LiesIn fun r => r < k.size)
    (hitems : ∀ r : Nat, r < k.size → k'.items r = k.items r) (r : Ref) :
    k'.Reaches v r ↔ k.Reaches v r :=
  reaches_congr (fun _ hq => hitems _ (hq.liesIn hk hv)) r

theorem apart_of_grown (hk : k.Closed) (hv : v.LiesIn fun r => r < k.size)
    (ha : a.LiesIn fun r => r < k.size) (hb : b.LiesIn fun r => r < k.size)
    (hitems : ∀ r : Nat, r < k.size → k'.items r = k.items r)
    (hapart : ∀ r, k.Reaches v r → ¬ k.Reaches a r ∧ ¬ k.Reaches b r) (r : Ref)
    (hr : k'.Reaches v r) : ¬ k'.Reaches a r ∧ ¬ k'.Reaches b r := by
  rw [reaches_iff_of_grown hk ha hitems, reaches_iff_of_grown hk hb hitems]
  exact hapart r ((reaches_iff_of_grown hk hv hitems r).mp hr)

/-- **Replacements in one value are made outside two others** that share no list with it, as
long as none of them puts a list there from which a list of the others is reached. -/
theorem Becomes.outside_of_through (hk : h.Becomes (Through v a b) k) (hh : h.Closed)
    (hv : v.LiesIn fun r => r < h.size) (ha : a.LiesIn fun r => r < h.size)
    (hb : b.LiesIn fun r => r < h.size)
    (hapart : ∀ r, h.Reaches v r → ¬ h.Reaches a r ∧ ¬ h.Reaches b r) :
    h.Becomes (Outside a b) k ∧ ∀ r, k.Reaches v r → ¬ k.Reaches a r ∧ ¬ k.Reaches b r := by
  induction hk with
  | same => exact ⟨.same, hapart⟩
  | @alloc k xs _ hxs ih =>
      obtain ⟨hbecomes, hk⟩ := ih
      exact ⟨.alloc hbecomes hxs, apart_of_grown (hbecomes.closed hh) (hbecomes.liesIn hv)
        (hbecomes.liesIn ha) (hbecomes.liesIn hb) (extends_alloc k xs).items hk⟩
  | @copy k u _ hu ih =>
      obtain ⟨hbecomes, hk⟩ := ih
      exact ⟨.copy hbecomes hu, apart_of_grown (hbecomes.closed hh) (hbecomes.liesIn hv)
        (hbecomes.liesIn ha) (hbecomes.liesIn hb) (fun _ => items_deepCopy_of_lt) hk⟩
  | @set k k' r index w _ hr hw hset ih =>
      obtain ⟨hbecomes, hk⟩ := ih
      have hover := (overwritten_of_set hset).1
      have hout := hk r hr.1
      have hsame {u : Value} (hu : ¬ k.Reaches u r) (q : Ref) : k'.Reaches u q ↔ k.Reaches u q :=
        reaches_congr (fun p hp => hover.others p fun heq => hu (heq ▸ hp)) q
      refine ⟨.set hbecomes hout hw hset, fun q hq => ?_⟩
      rw [hsame hout.1, hsame hout.2]
      rcases hover.reaches_cases hq with hold | ⟨_, hnew⟩
      · exact hk q hold
      · exact hr.2 q hnew

end Changes

section Copies

variable {P : Heap → Ref → Value → Prop} {h k : Heap} {v c : Value}

theorem becomes_deepCopy (hv : v.LiesIn fun r => r < h.size) :
    h.Becomes (fun _ _ _ => False) (h.deepCopy v).2 :=
  .copy .same hv

/-- Copying leaves the lists of the original alone. -/
theorem sameShape_original (hh : h.Closed) (hv : v.LiesIn fun r => r < h.size) :
    SameShape h v (h.deepCopy v).2 v :=
  .of_agree fun _ => (becomes_deepCopy hv).agree hh hv fun _ _ _ hfalse => hfalse.elim

/-- A copy that is not changed has the shape that its original had. -/
theorem sameShape_of_copied (hh : h.Closed) (hv : v.LiesIn fun r => r < h.size)
    (hk : (h.deepCopy v).2.Becomes P k)
    (hout : ∀ k r w, P k r w → ¬ k.Reaches (h.deepCopy v).1 r) :
    SameShape h v k (h.deepCopy v).1 := by
  have hclosed := (becomes_deepCopy hv).closed hh
  have hexists := (liesIn_deepCopy hv).mono fun r hr => hr.2
  exact (sameShape_deepCopy hh hv).trans (.of_agree fun _ => hk.agree hclosed hexists hout)

/-- The original and a copy that are not changed share no list: what the original reaches is
old, and what the copy reaches is new. -/
theorem apart_of_copied (hh : h.Closed) (hv : v.LiesIn fun r => r < h.size)
    (hk : (h.deepCopy v).2.Becomes P k) (hkeep : ∀ k r w, P k r w → ¬ k.Reaches v r)
    (hout : ∀ k r w, P k r w → ¬ k.Reaches (h.deepCopy v).1 r) {r : Ref}
    (hr : k.Reaches v r) : ¬ k.Reaches (h.deepCopy v).1 r := by
  intro hr'
  have hcopying := becomes_deepCopy hv
  have hclosed := hcopying.closed hh
  have hexists := (liesIn_deepCopy hv).mono fun r hr => hr.2
  have hv' := hcopying.liesIn hv
  have hold : r < h.size := by
    rw [hk.reaches_iff hclosed hv' hkeep,
      hcopying.reaches_iff hh hv fun _ _ _ hfalse => hfalse.elim] at hr
    exact hr.liesIn hh hv
  have hnew : h.size ≤ r := by
    rw [hk.reaches_iff hclosed hexists hout] at hr'
    exact (hr'.liesIn (confined_new hh v) (liesIn_deepCopy hv)).1
  exact Nat.not_le_of_lt hold hnew

end Copies

/-- **A copy cannot be told from its original, nor from a second copy.**  The second one
may be made later, as long as no item is replaced in the lists of the original and of the
first copy before.  The original then shares no list with the copies.  Afterwards items may be
replaced in all lists that neither copy reaches at that moment; so they may be in all lists of
the original, unless something is put there from which a list of a copy is reached. -/
theorem copies_are_indiscernible {h h₁ : Heap} {v c : Value} (hh : h.Closed)
    (hv : v.LiesIn fun r => r < h.size) (hcopy : h.deepCopy v = (c, h₁)) :
    Indiscernible h₁ c v ∧
      ∀ h₂ h₃ c', h₁.Becomes (Outside v c) h₂ → h₂.deepCopy v = (c', h₃) →
        (∀ r, h₃.Reaches v r → ¬ h₃.Reaches c r ∧ ¬ h₃.Reaches c' r) ∧
        (∀ h₄, h₃.Becomes (Outside c c') h₄ → Indiscernible h₄ c c') ∧
        ∀ h₄, h₃.Becomes (Through v c c') h₄ → Indiscernible h₄ c c' := by
  obtain rfl : (h.deepCopy v).1 = c := congrArg Prod.fst hcopy
  obtain rfl : (h.deepCopy v).2 = h₁ := congrArg Prod.snd hcopy
  have hclosed₁ := (becomes_deepCopy hv).closed hh
  have hv₁ := (becomes_deepCopy hv).liesIn hv
  have hc₁ := (liesIn_deepCopy hv).mono fun r hr => hr.2
  refine ⟨((sameShape_deepCopy hh hv).symm.trans (sameShape_original hh hv)).indiscernible, ?_⟩
  intro h₂ h₃ c' hbetween hcopy'
  obtain rfl : (h₂.deepCopy v).1 = c' := congrArg Prod.fst hcopy'
  obtain rfl : (h₂.deepCopy v).2 = h₃ := congrArg Prod.snd hcopy'
  have hclosed₂ := hbetween.closed hclosed₁
  have hv₂ := hbetween.liesIn hv₁
  have hsecond := hbetween.copy hv₂
  have hclosed₃ := hsecond.closed hclosed₁
  have hv₃ := hsecond.liesIn hv₁
  have hc₃ := hsecond.liesIn hc₁
  have hc₃' := (liesIn_deepCopy hv₂).mono fun r hr => hr.2
  have hapart : ∀ r, (h₂.deepCopy v).2.Reaches v r →
      ¬ (h₂.deepCopy v).2.Reaches (h.deepCopy v).1 r ∧
        ¬ (h₂.deepCopy v).2.Reaches (h₂.deepCopy v).1 r := by
    intro r hr
    constructor
    · exact apart_of_copied hh hv hsecond (fun _ _ _ hout => hout.1) (fun _ _ _ hout => hout.2) hr
    · exact apart_of_copied (P := fun _ _ _ => False) hclosed₂ hv₂ .same
        (fun _ _ _ hfalse => hfalse.elim) (fun _ _ _ hfalse => hfalse.elim) hr
  have hlater : ∀ h₄, (h₂.deepCopy v).2.Becomes (Outside (h.deepCopy v).1 (h₂.deepCopy v).1) h₄ →
      Indiscernible h₄ (h.deepCopy v).1 (h₂.deepCopy v).1 := by
    intro h₄ hafter
    have hsame₂ : SameShape h v h₂ v := (sameShape_original hh hv).trans <|
      .of_agree fun _ => hbetween.agree hclosed₁ hv₁ fun _ _ _ hout => hout.1
    have hcopied : SameShape h v h₄ (h.deepCopy v).1 :=
      (sameShape_of_copied hh hv hsecond fun _ _ _ hout => hout.2).trans <|
        .of_agree fun _ => hafter.agree hclosed₃ hc₃ fun _ _ _ hout => hout.1
    have hcopied' : SameShape h₂ v h₄ (h₂.deepCopy v).1 :=
      sameShape_of_copied hclosed₂ hv₂ hafter fun _ _ _ hout => hout.2
    exact ((hcopied.symm.trans hsame₂).trans hcopied').indiscernible
  refine ⟨hapart, hlater, fun h₄ hafter => ?_⟩
  exact hlater h₄ (hafter.outside_of_through hclosed₃ hv₃ hc₃ hc₃' hapart).1

/-- The knot with a copy and a second copy beside it. -/
def knotCopied : Heap :=
  ⟨#[[.int 7, .list 1, .list 1], [.list 0], [.int 7, .list 3, .list 3], [.list 2]]⟩

def knotCopiedTwice : Heap :=
  ⟨knotCopied.lists ++ #[[.int 7, .list 5, .list 5], [.list 4]]⟩

/-- The first copy is put into the original; or an integer is, in the place of a list. -/
theorem copies_are_indiscernible_knot :
    Indiscernible knotCopied (.list 2) (.list 0) ∧
      (∃ h, knotCopiedTwice.set 0 0 (.list 2) = .ok h ∧ Indiscernible h (.list 2) (.list 4)) ∧
      ∃ h, knotCopiedTwice.set 0 1 (.int 8) = .ok h ∧ Indiscernible h (.list 2) (.list 4) := by
  have hclosed : knot.Closed := closed_of_lists (by simp [Value.LiesIn])
  have hcopy : knot.deepCopy (.list 0) = (.list 2, knotCopied) := by cbv
  have hcopy' : knotCopied.deepCopy (.list 0) = (.list 4, knotCopiedTwice) := by cbv
  have hexists : (Value.list 0).LiesIn fun r => r < knot.size := Nat.zero_lt_two
  obtain ⟨hfirst, hsecond⟩ := copies_are_indiscernible hclosed hexists hcopy
  obtain ⟨hapart, hlater, hthrough⟩ := hsecond _ _ _ .same hcopy'
  have hself : knotCopiedTwice.Reaches (.list 0) 0 := .self rfl
  have hint : ∀ q, ¬ knotCopiedTwice.Reaches (.int 8) q := fun q hq => by
    obtain ⟨_, heq⟩ := hq.exists_eq_list
    cases heq
  have hcopied : (Value.list 2).LiesIn fun r => r < knotCopiedTwice.size := by
    show 2 < knotCopiedTwice.size
    decide
  obtain ⟨h, hset⟩ : ∃ h, knotCopiedTwice.set 0 0 (.list 2) = .ok h := ⟨_, rfl⟩
  obtain ⟨h', hset'⟩ : ∃ h, knotCopiedTwice.set 0 1 (.int 8) = .ok h := ⟨_, rfl⟩
  exact ⟨hfirst, ⟨h, hset, hlater h (.set .same (hapart 0 hself) hcopied hset)⟩, h', hset',
    hthrough h' (.set .same ⟨hself, fun q hq => absurd hq (hint q)⟩ trivial hset')⟩

/-- A list of one integer, with a copy and a second copy beside it. -/
def oneCopiedTwice : Heap :=
  ⟨#[[.int 1], [.int 1], [.int 1]]⟩

/-- The first copy is put into the original, where it is changed then. -/
theorem copy_in_original_may_differ :
    (⟨#[[.int 1]]⟩ : Heap).deepCopy (.list 0) = (.list 1, ⟨#[[.int 1], [.int 1]]⟩) ∧
      (⟨#[[.int 1], [.int 1]]⟩ : Heap).deepCopy (.list 0) = (.list 2, oneCopiedTwice) ∧
      ∃ h h', oneCopiedTwice.set 0 0 (.list 1) = .ok h ∧ h.get 0 0 = .ok (.list 1) ∧
        h.set 1 0 (.int 5) = .ok h' ∧ h'.sameValue (.list 1) (.list 2) = false := by
  refine ⟨by cbv, by cbv, _, _, rfl, rfl, rfl, ?_⟩
  cbv

end Heap
end LineMachine
