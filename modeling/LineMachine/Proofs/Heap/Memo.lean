import LineMachine.Proofs.Heap.Correspondence

/-!
# Copies with a shared memo

A memo that is handed from one copy to the next makes them copies of a family: what the
values share, their copies share too.  A list that has been copied is found in the memo and
is neither copied again nor filled again.

**Input.**  A heap in which every list that is held exists, and values of it that are
copied one after the other with one memo, which is empty at first.

**Invariant.**  The memo records the lists that some value copied so far reaches, each with
one list made since the first copy, and every list made since is one of these.  Copies hold
the copies of what their originals hold, so that what is recorded is closed and complete:
no later copy has to come back to it.

**Results.**
* `CopiedFamily.copyWith`: one copy more keeps the invariant.
* `CopiedFamily.exists_equiv_made`: one copy more makes one list for each list that was not
  reached before.
* `copyWith_of_recorded`: what is recorded is not copied again, whatever it has become.
* `shared_memo_copies_once`: two copies with one memo.
-/

namespace LineMachine
namespace Heap

/-- The lists that are in the second heap and not yet in the first. -/
abbrev Made (h k : Heap) :=
  {q : Nat // h.size ≤ q ∧ q < k.size}

/-- The heap `k` is the heap `h` with copies of the lists of the set, which the memo
records. -/
structure CopiedFamily (h : Heap) (S : Ref → Prop) (memo : CopyMemo) (k : Heap) : Prop where
  size_le : h.size ≤ k.size
  kept : ∀ r : Nat, r < h.size → k.items r = h.items r
  recorded : ∀ r, (∃ q, Recorded memo r q) ↔ S r
  made : ∀ r q, Recorded memo r q → h.size ≤ q ∧ q < k.size
  covered : ∀ q : Nat, h.size ≤ q → q < k.size → ∃ r, Recorded memo r q
  shape : Isomorphism h k (Recorded memo)

section Copying

variable {h k : Heap} {S : Ref → Prop} {memo : CopyMemo} {v : Value} {r q : Nat}

theorem copiedFamily_empty (h : Heap) : CopiedFamily h (fun _ => False) ∅ h := by
  have hnone : ∀ r q, ¬ Recorded ∅ r q := by simp [Recorded]
  refine ⟨Nat.le_refl _, fun _ _ => rfl, fun r => ?_, fun r q hrq => absurd hrq (hnone r q),
    fun q hle hlt => absurd hlt (Nat.not_lt_of_le hle), ?_⟩
  · constructor
    · rintro ⟨q, hrq⟩
      exact hnone r q hrq
    · exact False.elim
  · exact ⟨fun r q hrq => absurd hrq (hnone r q), fun r _ q hrq => absurd hrq (hnone r q),
      fun r q _ hrq => absurd hrq (hnone r q)⟩

/-- What a copy leaves recorded was recorded before, or has been made. -/
theorem recorded_copyWith_iff :
    Recorded (k.copyWith memo v).2.1 r q ↔
      Recorded memo r q ∨ NewlyRecorded memo (k.copyWith memo v).2.1 r q := by
  have hsound := Copying.sound_complete k memo v
  constructor
  · exact hsound.known_or_made
  · rintro (hold | hnew)
    · exact hsound.known_le hold
    · exact hnew.recorded

theorem items_copyWith_of_lt (hr : r < k.size) : (k.copyWith memo v).2.2.items r = k.items r :=
  (Copying.sound_complete k memo v).kept r hr

/-- A list that is recorded answers its copy, and nothing changes, whatever has become of
the list. -/
theorem copyWith_of_recorded (hr : Recorded memo r q) (k : Heap) :
    k.copyWith memo (.list r) = (.list q, memo, k) := by
  have hmemo : (Copying.start k memo).memo[r]? = some q := hr
  have hitem : (Copying.start k memo).copyItem (.list r) = (.list q, Copying.start k memo) := by
    rw [Copying.copyItem, Copying.copyOf]
    simp only [hmemo]
  have hrun : (Copying.start k memo).run = Copying.start k memo := by
    rw [Copying.run]
    rfl
  rw [copyWith, hitem]
  simp only [hrun]
  rfl

end Copying

section Families

variable {h k : Heap} {S : Ref → Prop} {memo : CopyMemo} {v : Value} {r q : Nat}

/-- Copies leave what a value reaches as it is. -/
theorem CopiedFamily.reaches_iff (hf : CopiedFamily h S memo k) (hh : h.Closed)
    (hv : v.LiesIn fun r => r < h.size) : k.Reaches v r ↔ h.Reaches v r :=
  reaches_congr (fun _ hq => hf.kept _ (hq.liesIn hh hv)) r

/-- What exists at first exists when a later copy starts. -/
theorem CopiedFamily.liesIn_base (hf : CopiedFamily h S memo k) {w : Value}
    (hw : w.LiesIn fun r => r < h.size) :
    w.LiesIn fun r => r < (Copying.complete k memo v).base := by
  rw [(Copying.sound_complete k memo v).base_eq]
  exact hw.mono fun r hr => Nat.lt_of_lt_of_le hr hf.size_le

/-- A list is copied only if it is reached and was not recorded. -/
theorem CopiedFamily.reaches_of_newlyRecorded (hf : CopiedFamily h S memo k) (hh : h.Closed)
    (hv : v.LiesIn fun r => r < h.size)
    (hrq : NewlyRecorded memo (k.copyWith memo v).2.1 r q) : h.Reaches v r ∧ ¬ S r := by
  constructor
  · exact (hf.reaches_iff hh hv).mp ((Copying.sound_complete k memo v).reached hrq).2
  · intro hS
    obtain ⟨q', hrecorded⟩ := (hf.recorded r).mpr hS
    cases hrq.unknown.symm.trans hrecorded

/-- Copies hold the copies of what their originals hold. -/
theorem CopiedFamily.bisimulation (hf : CopiedFamily h S memo k) (hh : h.Closed)
    (hv : v.LiesIn fun r => r < h.size) :
    Bisimulation h (k.copyWith memo v).2.2 (Recorded (k.copyWith memo v).2.1) := by
  intro r q hrq
  rcases recorded_copyWith_iff.mp hrq with hold | hnew
  · -- the copy was complete before, and has been left alone
    rw [items_copyWith_of_lt (hf.made r q hold).2]
    refine (hf.shape.bisimulation r q hold).imp fun _ _ hw => hw.mono fun p p' hp => ?_
    exact recorded_copyWith_iff.mpr (Or.inl hp)
  · have hr : r < h.size := (hf.reaches_of_newlyRecorded hh hv hnew).1.liesIn hh hv
    have hitems := Copying.items_complete hnew
    rw [hf.kept r hr] at hitems
    exact Copying.related_items hitems fun w hw => hf.liesIn_base (hh.liesIn hw)

/-- The copy of a value is recorded. -/
theorem CopiedFamily.related_copyWith (hf : CopiedFamily h S memo k)
    (hv : v.LiesIn fun r => r < h.size) :
    v.Related (Recorded (k.copyWith memo v).2.1) (k.copyWith memo v).1 :=
  (Copying.copies_copyWith k memo v).related (hf.liesIn_base hv)

/-- **Everything that is reached is recorded.** -/
theorem CopiedFamily.exists_recorded (hf : CopiedFamily h S memo k) (hh : h.Closed)
    (hv : v.LiesIn fun r => r < h.size) (hr : h.Reaches v r) :
    ∃ q, Recorded (k.copyWith memo v).2.1 r q := by
  -- what is recorded holds only what is recorded, and the value is itself recorded
  have hconfined : h.Confined fun r => ∃ q, Recorded (k.copyWith memo v).2.1 r q := by
    rintro r ⟨q, hrq⟩ w hw
    cases w with
    | int n => trivial
    | list p =>
        obtain ⟨p', _, hp⟩ := (hf.bisimulation hh hv).symm.exists_item hrq hw
        exact ⟨p', hp⟩
  refine hr.liesIn hconfined ?_
  have hrelated := hf.related_copyWith hv
  generalize (k.copyWith memo v).1 = w at hrelated
  cases hrelated with
  | int n => trivial
  | list hpq => exact ⟨_, hpq⟩

/-- No list has two copies, and no list is the copy of two. -/
theorem CopiedFamily.biUnique (hf : CopiedFamily h S memo k) (v : Value) :
    Relator.BiUnique (Recorded (k.copyWith memo v).2.1) := by
  have hsound := Copying.sound_complete k memo v
  -- what was recorded before is older than what is made
  have hapart : ∀ {r s q : Nat}, Recorded memo r q →
      ¬ NewlyRecorded memo (k.copyWith memo v).2.1 s q := fun hold hnew =>
    Nat.not_le_of_lt (hf.made _ _ hold).2 (hsound.new hnew).1
  constructor
  · intro r q s hrs hqs
    rcases recorded_copyWith_iff.mp hrs with hr | hr
    · rcases recorded_copyWith_iff.mp hqs with hq | hq
      · exact hf.shape.unique.1 hr hq
      · exact absurd hq (hapart hr)
    · rcases recorded_copyWith_iff.mp hqs with hq | hq
      · exact absurd hr (hapart hq)
      · exact hsound.unique hr hq
  · intro r q s hrq hrs
    exact Option.some.inj (hrq.symm.trans hrs)

/-- A list that is made is the copy of one that is reached and was not recorded. -/
theorem CopiedFamily.exists_newlyRecorded (hf : CopiedFamily h S memo k) (hh : h.Closed)
    (hv : v.LiesIn fun r => r < h.size) (hle : k.size ≤ q)
    (hlt : q < (k.copyWith memo v).2.2.size) :
    ∃ r, Recorded (k.copyWith memo v).2.1 r q ∧ h.Reaches v r ∧ ¬ S r := by
  obtain ⟨r, hrq⟩ := (Copying.sound_complete k memo v).covered q hle hlt
  exact ⟨r, hrq.recorded, hf.reaches_of_newlyRecorded hh hv hrq⟩

/-- **One copy more**: the memo then records what the value reaches as well. -/
theorem CopiedFamily.copyWith (hf : CopiedFamily h S memo k) (hh : h.Closed)
    (hv : v.LiesIn fun r => r < h.size) :
    CopiedFamily h (fun r => S r ∨ h.Reaches v r) (k.copyWith memo v).2.1
      (k.copyWith memo v).2.2 where
  size_le := Nat.le_trans hf.size_le (Copying.sound_complete k memo v).size_le
  kept := fun r hr => by
    rw [items_copyWith_of_lt (Nat.lt_of_lt_of_le hr hf.size_le), hf.kept r hr]
  recorded := fun r => by
    constructor
    · rintro ⟨q, hrq⟩
      rcases recorded_copyWith_iff.mp hrq with hold | hnew
      · exact Or.inl ((hf.recorded r).mp ⟨q, hold⟩)
      · exact Or.inr (hf.reaches_of_newlyRecorded hh hv hnew).1
    · rintro (hr | hr)
      · obtain ⟨q, hrq⟩ := (hf.recorded r).mpr hr
        exact ⟨q, recorded_copyWith_iff.mpr (Or.inl hrq)⟩
      · exact hf.exists_recorded hh hv hr
  made := fun r q hrq => by
    have hsound := Copying.sound_complete k memo v
    rcases recorded_copyWith_iff.mp hrq with hold | hnew
    · obtain ⟨hle, hlt⟩ := hf.made r q hold
      exact ⟨hle, Nat.lt_of_lt_of_le hlt hsound.size_le⟩
    · obtain ⟨hle, hlt⟩ := hsound.new hnew
      exact ⟨Nat.le_trans hf.size_le hle, hlt⟩
  covered := fun q hle hlt => by
    by_cases hold : q < k.size
    · obtain ⟨r, hrq⟩ := hf.covered q hle hold
      exact ⟨r, recorded_copyWith_iff.mpr (Or.inl hrq)⟩
    · obtain ⟨r, hrq, _⟩ := hf.exists_newlyRecorded hh hv (Nat.le_of_not_lt hold) hlt
      exact ⟨r, hrq⟩
  shape := ⟨hf.bisimulation hh hv, hf.biUnique v⟩

/-- All the lists made are the copies, one of each list recorded. -/
theorem CopiedFamily.exists_equiv (hf : CopiedFamily h S memo k) :
    ∃ f : {r // S r} ≃ h.Made k, ∀ r : {r // S r}, Recorded memo r (f r) := by
  refine exists_equiv_of_biUnique hf.shape.unique (fun r hr => ?_) fun q hq => ?_
  · obtain ⟨q, hrq⟩ := (hf.recorded r).mpr hr
    exact ⟨q, hrq, hf.made r q hrq⟩
  · obtain ⟨r, hrq⟩ := hf.covered q hq.1 hq.2
    exact ⟨r, hrq, (hf.recorded r).mp ⟨q, hrq⟩⟩

/-- **One copy more makes one list for each list that was not reached before.** -/
theorem CopiedFamily.exists_equiv_made (hf : CopiedFamily h S memo k) (hh : h.Closed)
    (hv : v.LiesIn fun r => r < h.size) :
    ∃ f : {r // h.Reaches v r ∧ ¬ S r} ≃ k.Made (k.copyWith memo v).2.2,
      ∀ r : {r // h.Reaches v r ∧ ¬ S r}, Recorded (k.copyWith memo v).2.1 r (f r) := by
  refine exists_equiv_of_biUnique (hf.biUnique v) (fun r hr => ?_) fun q hq => ?_
  · obtain ⟨q, hrq⟩ := hf.exists_recorded hh hv hr.1
    refine ⟨q, hrq, ?_⟩
    rcases recorded_copyWith_iff.mp hrq with hold | hnew
    · exact absurd ((hf.recorded r).mp ⟨q, hold⟩) hr.2
    · exact (Copying.sound_complete k memo v).new hnew
  · exact hf.exists_newlyRecorded hh hv hq.1 hq.2

/-- A copy reaches the copies of what its original reaches. -/
theorem Isomorphism.reaches_iff {R : Ref → Ref → Prop} {w : Value} (hR : Isomorphism h k R)
    (hvw : v.Related R w) (hrq : R r q) : k.Reaches w q ↔ h.Reaches v r := by
  constructor
  · intro hq
    obtain ⟨p, hpq, hp⟩ := hR.bisimulation.exists_reaches hvw hq
    rwa [hR.unique.1 hrq hpq]
  · intro hr
    obtain ⟨p, hrp, hp⟩ := hR.bisimulation.symm.exists_reaches hvw.symm hr
    rwa [hR.unique.2 hrq hrp]

end Families

section TwoCopies

variable {h h₁ h₂ : Heap} {m₁ m₂ : CopyMemo} {va vb : Value} {a b : Nat}

/-- **Main.** Two lists are copied one after the other with one memo, which is empty at
first.  The second copy changes no list that there was and keeps what is recorded, and makes
one list for each list that only the second original reaches.  Every list that one of the
originals reaches has then exactly one copy, and these are all the lists made.  The copy of
a list is reached from the copy of an original just if the list is reached from the
original, and holds in order the copies of what the list holds.  To copy the first list
again gives the copy that there is and changes nothing, whatever the heap has become. -/
theorem shared_memo_copies_once (hh : h.Closed) (ha : a < h.size) (hb : b < h.size)
    (hfirst : h.copyWith ∅ (.list a) = (va, m₁, h₁))
    (hsecond : h₁.copyWith m₁ (.list b) = (vb, m₂, h₂)) :
    (∀ q, q < h.size → h₂.items q = h.items q) ∧
    (∀ q, q < h₁.size → h₂.items q = h₁.items q) ∧
    (∀ r q, Recorded m₁ r q → q < h₁.size ∧ Recorded m₂ r q) ∧
    (∃ f : {r : Nat // h.Reaches (.list b) r ∧ ¬ h.Reaches (.list a) r} ≃ h₁.Made h₂,
      ∀ r : {r : Nat // h.Reaches (.list b) r ∧ ¬ h.Reaches (.list a) r},
        Recorded m₂ r (f r)) ∧
    (∃ f : {r : Nat // h.Reaches (.list a) r ∨ h.Reaches (.list b) r} ≃ h.Made h₂,
      va = .list (f ⟨a, Or.inl (.self rfl)⟩) ∧ vb = .list (f ⟨b, Or.inr (.self rfl)⟩) ∧
      ∀ r : {r : Nat // h.Reaches (.list a) r ∨ h.Reaches (.list b) r},
        (∀ q, Recorded m₂ r q ↔ q = f r) ∧
        (h₂.Reaches va (f r) ↔ h.Reaches (.list a) r) ∧
        (h₂.Reaches vb (f r) ↔ h.Reaches (.list b) r) ∧
        List.Forall₂ (Value.Related (Recorded m₂)) (h.items r) (h₂.items (f r))) ∧
    ∀ k : Heap, k.copyWith m₁ (.list a) = (va, m₁, k) ∧
      k.copyWith m₂ (.list a) = (va, m₂, k) := by
  have hone : CopiedFamily h (h.Reaches (.list a)) m₁ h₁ := by
    simpa only [hfirst, false_or] using (copiedFamily_empty h).copyWith hh
      (v := .list a) ha
  have htwo : CopiedFamily h (fun r => h.Reaches (.list a) r ∨ h.Reaches (.list b) r) m₂ h₂ := by
    simpa only [hsecond] using hone.copyWith hh (v := .list b) hb
  have hva : (Value.list a).Related (Recorded m₁) va := by
    simpa only [hfirst] using (copiedFamily_empty h).related_copyWith (v := .list a) ha
  have hvb : (Value.list b).Related (Recorded m₂) vb := by
    simpa only [hsecond] using hone.related_copyWith (v := .list b) hb
  have hkept : ∀ q, q < h₁.size → h₂.items q = h₁.items q := fun q hq => by
    have hitems : (h₁.copyWith m₁ (.list b)).2.2.items q = h₁.items q := items_copyWith_of_lt hq
    simpa only [hsecond] using hitems
  have hrecorded : ∀ r q, Recorded m₁ r q → Recorded m₂ r q := fun r q hrq => by
    simpa only [hsecond] using
      (recorded_copyWith_iff (k := h₁) (v := .list b)).mpr (Or.inl hrq)
  have hnew := hone.exists_equiv_made hh (v := .list b) hb
  rw [hsecond] at hnew
  have hva' : (Value.list a).Related (Recorded m₂) va := hva.mono hrecorded
  refine ⟨htwo.kept, hkept, fun r q hrq => ⟨(hone.made r q hrq).2, hrecorded r q hrq⟩, hnew,
    ?_, fun k => ?_⟩
  · obtain ⟨f, hf⟩ := htwo.exists_equiv
    refine ⟨f, ?_, ?_, fun r => ⟨fun q => ⟨fun hq => ?_, fun hq => ?_⟩, ?_, ?_, ?_⟩⟩
    · cases hva' with
      | list har => exact congrArg Value.list (htwo.shape.unique.2 har (hf ⟨a, Or.inl (.self rfl)⟩))
    · cases hvb with
      | list hbr => exact congrArg Value.list (htwo.shape.unique.2 hbr (hf ⟨b, Or.inr (.self rfl)⟩))
    · exact htwo.shape.unique.2 hq (hf r)
    · exact hq ▸ hf r
    · exact htwo.shape.reaches_iff hva' (hf r)
    · exact htwo.shape.reaches_iff hvb (hf r)
    · exact htwo.shape.bisimulation r (f r) (hf r)
  · cases hva with
    | list har => exact ⟨copyWith_of_recorded har k, copyWith_of_recorded (hrecorded _ _ har) k⟩

end TwoCopies

/-- Two lists share one that holds the first of them; the second holds an empty one too. -/
def family : Heap :=
  ⟨#[[.int 7, .list 1], [.list 0], [.list 1, .list 3], []]⟩

theorem shared_memo_copies_once_family :
    ∃ va m₁ h₁ vb m₂ h₂, family.copyWith ∅ (.list 0) = (va, m₁, h₁) ∧
      h₁.copyWith m₁ (.list 2) = (vb, m₂, h₂) ∧
      (∃ q, Recorded m₂ 1 q ∧ h₂.Reaches va q ∧ h₂.Reaches vb q) ∧
      (∃ q, Recorded m₂ 3 q ∧ ¬ h₂.Reaches va q ∧ h₂.Reaches vb q) ∧
      ∀ k : Heap, k.copyWith m₁ (.list 0) = (va, m₁, k) := by
  have hclosed : family.Closed := closed_of_lists (by simp [Value.LiesIn])
  obtain ⟨_, _, _, _, ⟨f, _, _, hf⟩, hagain⟩ :=
    shared_memo_copies_once (a := 0) (b := 2) hclosed (by decide) (by decide) rfl rfl
  have hshared : family.Reaches (.list 0) 1 := .item (.self rfl) (by decide)
  have hshared' : family.Reaches (.list 2) 1 := .item (.self rfl) (by decide)
  have hown : family.Reaches (.list 2) 3 := .item (.self rfl) (by decide)
  have hown' : ¬ family.Reaches (.list 0) 3 := fun h => by
    have hconfined : family.Confined fun r => r < 2 := by
      rintro (_ | _ | r) hr v hv
      · obtain rfl | rfl : v = .int 7 ∨ v = .list 1 := by simpa [family, items] using hv
        · trivial
        · exact Nat.one_lt_two
      · obtain rfl : v = .list 0 := by simpa [family, items] using hv
        exact Nat.two_pos
      · exact absurd hr (Nat.not_lt_of_le (Nat.le_add_left _ _))
    exact absurd (h.liesIn hconfined Nat.two_pos) (by decide)
  obtain ⟨hcopy, hva, hvb, _⟩ := hf ⟨1, Or.inl hshared⟩
  obtain ⟨hcopy', hva', hvb', _⟩ := hf ⟨3, Or.inr hown⟩
  exact ⟨_, _, _, _, _, _, rfl, rfl,
    ⟨_, (hcopy _).mpr rfl, hva.mpr hshared, hvb.mpr hshared'⟩,
    ⟨_, (hcopy' _).mpr rfl, fun h => hown' (hva'.mp h), hvb'.mpr hown⟩,
    fun k => (hagain k).1⟩

end Heap
end LineMachine
