import LineMachine.Heap.Copy
import LineMachine.Proofs.Heap.Bisimulation
import Mathlib.Data.List.Nodup

/-!
# A copy under way

While a copy is under way there are lists that have been recorded and are still empty, and
one list that has been filled in part.  Everything else that has been recorded is complete.
So in the end, when nothing is pending, every list made holds the copies of what its
original holds.

**Input.**  A heap, a memo that is known at first, and a value to be copied.

**Invariant.**  The lists that existed at first keep their items.  Every list made since is
recorded as the copy of one list, which is reached from the value and was not known.  The
pending copies are empty; the copies that are neither pending nor held for filling have, item
by item, the copies of the items of their originals.

**Results.**
* `Sound.copyItem`: a list that is met gets a copy, if it has none.
* `Filling.append`, `Filling.finish`: a copy that is filled item by item is complete.
* `Sound.run`: the loop keeps the invariant, and leaves nothing pending.
* `sound_complete`, `items_complete`: what has become of the heap and the memo in the end.
-/

namespace LineMachine

/-- The memo has the second list as the copy of the first. -/
def Heap.Recorded (memo : CopyMemo) (r q : Nat) : Prop :=
  memo[r]? = some q

/-- The second list has been made as the copy of the first, which was not known. -/
structure Heap.NewlyRecorded (known memo : CopyMemo) (r q : Nat) : Prop where
  unknown : known[r]? = none
  recorded : Recorded memo r q

open Heap (Recorded NewlyRecorded)

namespace Copying

/-- Whatever is recorded in one state is recorded in the other. -/
structure Extends (c d : Copying) : Prop where
  base_eq : d.base = c.base
  recorded : ∀ {r q : Nat}, Recorded c.memo r q → Recorded d.memo r q

/-- The second value is the copy of the first; a number that no list had at first may stand
for anything. -/
def Copies (c : Copying) : Value → Value → Prop :=
  Value.Related fun r q => r < c.base → Recorded c.memo r q

/-- The invariant, for a state in which the copies of the pairs in `held` have been taken up
and are not complete. -/
structure Sound (h : Heap) (known : CopyMemo) (v : Value) (held : List (Ref × Ref))
    (c : Copying) : Prop where
  base_eq : c.base = h.size
  size_le : h.size ≤ c.heap.size
  kept : ∀ r : Nat, r < h.size → c.heap.items r = h.items r
  known_le : ∀ {r q : Nat}, Recorded known r q → Recorded c.memo r q
  reached : ∀ {r q : Nat}, NewlyRecorded known c.memo r q → r < h.size ∧ h.Reaches v r
  new : ∀ {r q : Nat}, NewlyRecorded known c.memo r q → h.size ≤ q ∧ q < c.heap.size
  unique : ∀ {r s q : Nat}, NewlyRecorded known c.memo r q → NewlyRecorded known c.memo s q → r = s
  covered : ∀ q : Nat, h.size ≤ q → q < c.heap.size → ∃ r, NewlyRecorded known c.memo r q
  todo : ∀ r q : Nat, (r, q) ∈ held ++ c.pending → NewlyRecorded known c.memo r q
  nodup : (held ++ c.pending).Nodup
  empty : ∀ r q : Nat, (r, q) ∈ c.pending → c.heap.items q = []
  filled : ∀ {r q : Nat}, NewlyRecorded known c.memo r q → (r, q) ∉ held ++ c.pending →
    List.Forall₂ c.Copies (h.items r) (c.heap.items q)

/-- The list `q` is being filled as the copy of `r`, and has the copies of the items of
`done` already. -/
structure Filling (h : Heap) (known : CopyMemo) (v : Value) (r q : Nat) (done : List Value)
    (c : Copying) : Prop where
  sound : Sound h known v [(r, q)] c
  items : List.Forall₂ c.Copies done (c.heap.items q)

section Extending

variable {c d e : Copying} {u w : Value}

theorem Extends.refl (c : Copying) : c.Extends c :=
  ⟨rfl, id⟩

theorem Extends.trans (hcd : c.Extends d) (hde : d.Extends e) : c.Extends e :=
  ⟨hde.base_eq.trans hcd.base_eq, fun hr => hde.recorded (hcd.recorded hr)⟩

theorem Extends.copies (hcd : c.Extends d) (huw : c.Copies u w) : d.Copies u w := by
  refine Value.Related.mono huw fun r q hrq hlt => hcd.recorded (hrq ?_)
  rwa [hcd.base_eq] at hlt

theorem extends_copyOf (c : Copying) (r : Ref) : c.Extends (c.copyOf r).2 := by
  unfold copyOf
  split
  · exact .refl c
  · rename_i hnew
    split
    · refine ⟨rfl, fun {s q} hs => ?_⟩
      show (c.memo.insert r _)[s]? = some q
      rw [Std.HashMap.getElem?_insert]
      split
      · rename_i hrs
        rw [← eq_of_beq hrs, Recorded, hnew] at hs
        cases hs
      · exact hs
    · exact .refl c

theorem extends_copyItem (c : Copying) (v : Value) : c.Extends (c.copyItem v).2 := by
  cases v with
  | int n => exact .refl c
  | list r => exact extends_copyOf c r

theorem extends_append (q : Ref) (c : Copying) (item : Value) : c.Extends (c.append q item) :=
  ⟨(extends_copyItem c item).base_eq, (extends_copyItem c item).recorded⟩

theorem extends_fill (c : Copying) (q : Ref) (items : List Value) :
    c.Extends (c.fill q items) := by
  induction items generalizing c with
  | nil => exact .refl c
  | cons item items ih => exact (extends_append q c item).trans (ih (c.append q item))

theorem extends_run (c : Copying) : c.Extends c.run := by
  fun_induction run c with
  | case1 c => exact .refl c
  | case2 c r q pending _ ih =>
      have hpop : c.Extends ⟨c.base, c.memo, pending, c.heap⟩ := ⟨rfl, id⟩
      exact (hpop.trans (extends_fill _ q _)).trans ih

/-- A list that existed at first has a copy once it has been met. -/
theorem recorded_copyOf {r : Ref} (hr : r < c.base) :
    Recorded (c.copyOf r).2.memo r (c.copyOf r).1 := by
  unfold copyOf
  split
  · assumption
  · rw [if_pos hr]
    exact Std.HashMap.getElem?_insert_self

theorem copies_copyItem (c : Copying) (v : Value) :
    (c.copyItem v).2.Copies v (c.copyItem v).1 := by
  cases v with
  | int n => exact .int n
  | list r =>
      refine .list fun hr => recorded_copyOf ?_
      rwa [(extends_copyItem c (.list r)).base_eq] at hr

/-- What is met leaves the lists that there are as they are. -/
theorem items_copyItem (c : Copying) (v : Value) {q : Nat} (hq : q < c.heap.size) :
    (c.copyItem v).2.heap.items q = c.heap.items q := by
  cases v with
  | int n => rfl
  | list r =>
      show (c.copyOf r).2.heap.items q = c.heap.items q
      unfold copyOf
      split
      · rfl
      · split
        · exact (Heap.items_alloc c.heap [] q).trans (if_neg (Nat.ne_of_lt hq))
        · rfl

end Extending

section Invariant

variable {h : Heap} {known : CopyMemo} {v : Value} {held : List (Ref × Ref)} {c : Copying}
  {r q : Nat}

theorem sound_start (h : Heap) (known : CopyMemo) (v : Value) :
    Sound h known v [] (start h known) := by
  have hnone : ∀ {r q : Nat}, ¬ NewlyRecorded known known r q := fun {r q} hrq => by
    cases hrq.unknown.symm.trans hrq.recorded
  exact {
    base_eq := rfl
    size_le := Nat.le_refl _
    kept := fun _ _ => rfl
    known_le := id
    reached := fun hrq => absurd hrq hnone
    new := fun hrq => absurd hrq hnone
    unique := fun hrq => absurd hrq hnone
    covered := fun q hle hlt => absurd hlt (Nat.not_lt_of_le hle)
    todo := fun _ _ hp => nomatch hp
    nodup := List.nodup_nil
    empty := fun _ _ hp => nomatch hp
    filled := fun hrq => absurd hrq hnone }

/-- What is recorded was known, or has been made. -/
theorem Sound.known_or_made (hs : Sound h known v held c) (hrq : Recorded c.memo r q) :
    Recorded known r q ∨ NewlyRecorded known c.memo r q := by
  cases hknown : known[r]? with
  | none => exact Or.inr ⟨hknown, hrq⟩
  | some q' =>
      have hsame := (hs.known_le hknown).symm.trans hrq
      cases hsame
      exact Or.inl hknown

/-- A list recorded anew is the only one made with its copy. -/
theorem newlyRecorded_insert_iff {memo : CopyMemo} {s p : Nat} (hunknown : known[r]? = none)
    (hnew : memo[r]? = none) :
    NewlyRecorded known (memo.insert r p) s q ↔
      NewlyRecorded known memo s q ∨ s = r ∧ q = p := by
  have hinsert : Recorded (memo.insert r p) s q ↔ Recorded memo s q ∨ s = r ∧ q = p := by
    rw [Recorded, Std.HashMap.getElem?_insert]
    split
    · rename_i hrs
      obtain rfl := eq_of_beq hrs
      rw [Recorded, hnew]
      simp [eq_comm]
    · rename_i hrs
      have hne : ¬ s = r := fun h => hrs (by simp [h])
      simp [Recorded, hne]
  constructor
  · rintro ⟨hs, hrecorded⟩
    exact (hinsert.mp hrecorded).imp (fun hold => ⟨hs, hold⟩) id
  · rintro (⟨hs, hold⟩ | hsame)
    · exact ⟨hs, hinsert.mpr (Or.inl hold)⟩
    · exact ⟨hsame.1 ▸ hunknown, hinsert.mpr (Or.inr hsame)⟩

/-- A list without a copy gets a new list as its copy, which is pending. -/
theorem Sound.record (hs : Sound h known v held c) (hr : h.Reaches v r) (hlt : r < c.base)
    (hnew : c.memo[r]? = none) :
    Sound h known v held
      ⟨c.base, c.memo.insert r c.heap.size, (r, c.heap.size) :: c.pending,
        (c.heap.alloc []).2⟩ := by
  have hunknown : known[r]? = none := by
    cases hknown : known[r]? with
    | none => rfl
    | some q =>
        rw [hs.known_le hknown] at hnew
        cases hnew
  have hmade {s q : Nat} : NewlyRecorded known (c.memo.insert r c.heap.size) s q ↔
      NewlyRecorded known c.memo s q ∨ s = r ∧ q = c.heap.size :=
    newlyRecorded_insert_iff hunknown hnew
  have hitems : ∀ q, q < c.heap.size → (c.heap.alloc []).2.items q = c.heap.items q :=
    fun q hq => (Heap.items_alloc c.heap [] q).trans (if_neg (Nat.ne_of_lt hq))
  have hext : c.Extends ⟨c.base, c.memo.insert r c.heap.size, (r, c.heap.size) :: c.pending,
      (c.heap.alloc []).2⟩ := by
    have h := extends_copyOf c r
    simp only [copyOf, hnew, if_pos hlt] at h
    exact h
  have hmem {p : Ref × Ref} : p ∈ held ++ (r, c.heap.size) :: c.pending ↔
      p = (r, c.heap.size) ∨ p ∈ held ++ c.pending := by
    simp only [List.mem_append, List.mem_cons]
    exact or_left_comm
  exact {
    base_eq := hs.base_eq
    size_le := Nat.le_trans hs.size_le (by simp)
    kept := fun s hs' => (hitems s (Nat.lt_of_lt_of_le hs' hs.size_le)).trans (hs.kept s hs')
    known_le := fun hk => hext.recorded (hs.known_le hk)
    reached := fun hsq => by
      rcases hmade.mp hsq with hsq | ⟨rfl, rfl⟩
      · exact hs.reached hsq
      · exact ⟨hs.base_eq ▸ hlt, hr⟩
    new := fun hsq => by
      show _ ∧ _ < (c.heap.alloc []).2.size
      rw [Heap.size_alloc]
      rcases hmade.mp hsq with hsq | ⟨rfl, rfl⟩
      · exact ⟨(hs.new hsq).1, Nat.lt_succ_of_lt (hs.new hsq).2⟩
      · exact ⟨hs.size_le, Nat.lt_succ_self _⟩
    unique := fun hsq htq => by
      rcases hmade.mp hsq with hold | ⟨rfl, rfl⟩
      · rcases hmade.mp htq with hold' | ⟨rfl, rfl⟩
        · exact hs.unique hold hold'
        · exact absurd (hs.new hold).2 (Nat.lt_irrefl _)
      · rcases hmade.mp htq with hold' | ⟨rfl, _⟩
        · exact absurd (hs.new hold').2 (Nat.lt_irrefl _)
        · rfl
    covered := fun q hle hq => by
      have hq : q < c.heap.size + 1 := by simpa using hq
      rcases Nat.lt_succ_iff_lt_or_eq.mp hq with hq | rfl
      · obtain ⟨s, hsq⟩ := hs.covered q hle hq
        exact ⟨s, hmade.mpr (Or.inl hsq)⟩
      · exact ⟨r, hmade.mpr (Or.inr ⟨rfl, rfl⟩)⟩
    todo := fun s q hp => by
      rcases hmem.mp hp with heq | hp
      · cases heq
        exact hmade.mpr (Or.inr ⟨rfl, rfl⟩)
      · exact hmade.mpr (Or.inl (hs.todo s q hp))
    nodup := by
      refine List.nodup_middle.mpr (List.nodup_cons.mpr ⟨fun hp => ?_, hs.nodup⟩)
      exact absurd (hs.new (hs.todo _ _ hp)).2 (Nat.lt_irrefl _)
    empty := fun s q hp => by
      rcases List.mem_cons.mp hp with heq | hp
      · cases heq
        exact (Heap.items_alloc c.heap [] _).trans (if_pos rfl)
      · have hsq := hs.todo s q (List.mem_append_right _ hp)
        exact (hitems q (hs.new hsq).2).trans (hs.empty s q hp)
    filled := fun {s q} hsq hp => by
      rcases hmade.mp hsq with hsq | ⟨rfl, rfl⟩
      · show List.Forall₂ _ _ ((c.heap.alloc []).2.items q)
        rw [hitems q (hs.new hsq).2]
        refine (hs.filled hsq fun hold => hp (hmem.mpr (Or.inr hold))).imp fun _ _ => hext.copies
      · exact absurd (hmem.mpr (Or.inl rfl)) hp }

theorem Sound.copyItem (hs : Sound h known v held c) {w : Value} (hw : w.LiesIn (h.Reaches v)) :
    Sound h known v held (c.copyItem w).2 := by
  cases w with
  | int n => exact hs
  | list r =>
      show Sound h known v held (c.copyOf r).2
      unfold copyOf
      split
      · exact hs
      · rename_i hnew
        split
        · rename_i hlt
          exact hs.record hw hlt hnew
        · exact hs

/-- The copy that is held may be written. -/
theorem Sound.replace (hs : Sound h known v [(r, q)] c) (xs : List Value) :
    Sound h known v [(r, q)] ⟨c.base, c.memo, c.pending, c.heap.replace q xs⟩ := by
  have hrq : NewlyRecorded known c.memo r q := hs.todo r q List.mem_cons_self
  have hne : ∀ {s t : Nat}, NewlyRecorded known c.memo s t → (s, t) ≠ (r, q) → t ≠ q := by
    rintro s t hst hne rfl
    exact hne (by rw [hs.unique hst hrq])
  have hitems : ∀ {t : Nat}, t ≠ q → (c.heap.replace q xs).items t = c.heap.items t :=
    fun {t} ht => (Heap.items_replace c.heap q t xs).trans (if_neg fun h => ht h.1)
  have hsize : (c.heap.replace q xs).size = c.heap.size := Heap.size_replace c.heap q xs
  have hpending : ∀ {s t : Nat}, (s, t) ∈ c.pending → t ≠ q := fun hp => by
    refine hne (hs.todo _ _ (List.mem_cons_of_mem _ hp)) fun heq => ?_
    exact (List.nodup_cons.mp hs.nodup).1 (heq ▸ hp)
  exact {
    base_eq := hs.base_eq
    size_le := hsize ▸ hs.size_le
    kept := fun s hlt => by
      have hold : s ≠ q := Nat.ne_of_lt (Nat.lt_of_lt_of_le hlt (hs.new hrq).1)
      exact (hitems hold).trans (hs.kept s hlt)
    known_le := hs.known_le
    reached := hs.reached
    new := fun hst => hsize ▸ hs.new hst
    unique := hs.unique
    covered := fun t hle hlt => hs.covered t hle (hsize ▸ hlt)
    todo := hs.todo
    nodup := hs.nodup
    empty := fun s t hp => (hitems (hpending hp)).trans (hs.empty s t hp)
    filled := fun {s t} hst hp => by
      have hother : t ≠ q := hne hst fun heq => hp (heq ▸ List.mem_cons_self)
      show List.Forall₂ _ _ ((c.heap.replace q xs).items t)
      rw [hitems hother]
      exact hs.filled hst hp }

end Invariant

section Loop

variable {h : Heap} {known : CopyMemo} {v : Value} {c : Copying} {r q : Nat}
  {done : List Value}

/-- The pending copy that came last is taken up. -/
theorem Sound.pop {pending : List (Ref × Ref)} (hs : Sound h known v [] c)
    (hp : c.pending = (r, q) :: pending) :
    Filling h known v r q [] ⟨c.base, c.memo, pending, c.heap⟩ := by
  have htodo : [] ++ c.pending = [(r, q)] ++ pending := hp
  constructor
  · exact { hs with
      todo := fun s t hst => hs.todo s t (htodo ▸ hst)
      nodup := htodo ▸ hs.nodup
      empty := fun s t hst => hs.empty s t (hp ▸ List.mem_cons_of_mem _ hst)
      filled := fun hst hout => hs.filled hst (htodo ▸ hout) }
  · have hempty : c.heap.items q = [] := hs.empty r q (hp ▸ List.mem_cons_self)
    show List.Forall₂ _ [] (c.heap.items q)
    rw [hempty]
    exact .nil

/-- **One item more**: its copy is appended. -/
theorem Filling.append (hf : Filling h known v r q done c) {item : Value}
    (hitem : item.LiesIn (h.Reaches v)) :
    Filling h known v r q (done ++ [item]) (c.append q item) := by
  have hs := hf.sound.copyItem hitem
  have hrq := hf.sound.todo r q List.mem_cons_self
  have hsize : q < (c.copyItem item).2.heap.size :=
    (hs.new (hs.todo r q List.mem_cons_self)).2
  have happended : (c.append q item).heap.items q =
      (c.copyItem item).2.heap.items q ++ [(c.copyItem item).1] :=
    (Heap.items_replace _ q q _).trans (if_pos ⟨rfl, hsize⟩)
  refine ⟨hs.replace _, ?_⟩
  rw [happended, items_copyItem c item (hf.sound.new hrq).2]
  have hdone := hf.items.imp fun _ _ => (extends_copyItem c item).copies
  exact List.rel_append hdone (.cons (copies_copyItem c item) .nil)

theorem Filling.fill {items : List Value} (hf : Filling h known v r q done c)
    (hitems : ∀ item, item ∈ items → item.LiesIn (h.Reaches v)) :
    Filling h known v r q (done ++ items) (c.fill q items) := by
  induction items generalizing done c with
  | nil => rwa [List.append_nil]
  | cons item items ih =>
      obtain ⟨hitem, hitems⟩ := List.forall_mem_cons.mp hitems
      rw [List.append_cons]
      exact ih (hf.append hitem) hitems

/-- **A copy with all the items is complete**, and need not be held any more. -/
theorem Filling.finish (hf : Filling h known v r q (h.items r) c) : Sound h known v [] c := by
  have hs := hf.sound
  exact { hs with
    todo := fun s t hst => hs.todo s t (List.mem_cons_of_mem _ hst)
    nodup := (List.nodup_cons.mp hs.nodup).2
    filled := fun {s t} hst hout => by
      by_cases heq : (s, t) = (r, q)
      · cases heq
        exact hf.items
      · exact hs.filled hst fun hmem => (List.mem_cons.mp hmem).elim heq hout }

/-- **The loop keeps the invariant**, and ends with nothing pending. -/
theorem Sound.run (hs : Sound h known v [] c) :
    Sound h known v [] c.run ∧ c.run.pending = [] := by
  fun_induction Copying.run c with
  | case1 c hp => exact ⟨hs, hp⟩
  | case2 c r q pending hp ih =>
      have hrq := hs.todo r q (hp ▸ List.mem_cons_self)
      have hreached := hs.reached hrq
      have hitems : c.heap.items r = h.items r := hs.kept r hreached.1
      rw [hitems] at ih ⊢
      refine ih (Filling.finish (r := r) (q := q) ?_)
      have hf := (hs.pop hp).fill (Heap.confined_reaches h v r hreached.2)
      exact hf

end Loop

/-- The state in which a copy ends. -/
def complete (h : Heap) (known : CopyMemo) (v : Value) : Copying :=
  ((start h known).copyItem v).2.run

section Completed

variable {h : Heap} {known : CopyMemo} {v u w : Value} {c : Copying} {r q : Nat}

theorem sound_complete (h : Heap) (known : CopyMemo) (v : Value) :
    Sound h known v [] (complete h known v) :=
  ((sound_start h known v).copyItem (Heap.liesIn_reaches h v)).run.1

/-- **What has been made is complete**: it holds the copies of what its original holds. -/
theorem items_complete (hrq : NewlyRecorded known (complete h known v).memo r q) :
    List.Forall₂ (complete h known v).Copies (h.items r) ((complete h known v).heap.items q) := by
  have hrun := ((sound_start h known v).copyItem (Heap.liesIn_reaches h v)).run
  refine hrun.1.filled hrq ?_
  rw [hrun.2]
  exact List.not_mem_nil

theorem copies_copyWith (h : Heap) (known : CopyMemo) (v : Value) :
    (complete h known v).Copies v (h.copyWith known v).1 :=
  (extends_run _).copies (copies_copyItem (start h known) v)

/-- The copy of an existing value is recorded. -/
theorem Copies.related (huw : c.Copies u w) (hu : u.LiesIn fun r => r < c.base) :
    u.Related (Recorded c.memo) w := by
  cases huw with
  | int n => exact .int n
  | list hrq => exact .list (hrq hu)

theorem related_items {xs ys : List Value} (hxy : List.Forall₂ c.Copies xs ys)
    (hxs : ∀ x, x ∈ xs → x.LiesIn fun r => r < c.base) :
    List.Forall₂ (Value.Related (Recorded c.memo)) xs ys := by
  induction hxy with
  | nil => exact .nil
  | cons hx _ ih =>
      obtain ⟨hhead, htail⟩ := List.forall_mem_cons.mp hxs
      exact .cons (Copies.related hx hhead) (ih htail)

end Completed

end Copying
end LineMachine
