import LineMachine.Proofs.Heap.Copying

/-!
# A deep copy is new and has the same shape

A copy by an empty memo makes one list for each list that the value reaches, and
records it as the copy of this list.  In a closed heap every list that a list
holds exists, so that the copies hold copies only.

**Results.**
* `items_deepCopy_of_lt`: the lists that existed keep their items.
* `liesIn_deepCopy`, `confined_new`: a copy is new, and holds new lists only.
* `isomorphism_deepCopy`, `related_deepCopy`: a list and its copy have the same
  shape, sharing and cycles included.
-/

namespace LineMachine
namespace Heap

variable {h : Heap} {v : Value}

/-- The lists that a deep copy creates. -/
def IsNew (h : Heap) (v : Value) (r : Nat) : Prop :=
  h.size ≤ r ∧ r < (h.deepCopy v).2.size

/-- The second list is the copy of the first. -/
def IsCopy (h : Heap) (v : Value) (r q : Nat) : Prop :=
  Recorded (h.copyWith ∅ v).2.1 r q

/-- Nothing is known when a value is copied by an empty memo. -/
theorem IsCopy.newlyRecorded {r q : Nat} (hrq : h.IsCopy v r q) :
    NewlyRecorded ∅ (Copying.complete h ∅ v).memo r q :=
  ⟨Std.HashMap.getElem?_empty, hrq⟩

theorem size_le_size_deepCopy (h : Heap) (v : Value) : h.size ≤ (h.deepCopy v).2.size :=
  (Copying.sound_complete h ∅ v).size_le

theorem items_deepCopy_of_lt {r : Ref} (hr : r < h.size) :
    (h.deepCopy v).2.items r = h.items r :=
  (Copying.sound_complete h ∅ v).kept r hr

/-- A copy holds the copies of the items of its original, in order. -/
theorem IsCopy.items {r q : Nat} (hrq : h.IsCopy v r q) :
    List.Forall₂ (Copying.complete h ∅ v).Copies (h.items r) ((h.deepCopy v).2.items q) :=
  Copying.items_complete hrq.newlyRecorded

theorem IsCopy.isNew {r q : Nat} (hrq : h.IsCopy v r q) : h.IsNew v q :=
  (Copying.sound_complete h ∅ v).new hrq.newlyRecorded

theorem IsCopy.lt_size {r q : Nat} (hrq : h.IsCopy v r q) : r < h.size :=
  ((Copying.sound_complete h ∅ v).reached hrq.newlyRecorded).1

theorem IsNew.exists_isCopy {q : Nat} (hq : h.IsNew v q) : ∃ r, h.IsCopy v r q := by
  obtain ⟨r, hrq⟩ := (Copying.sound_complete h ∅ v).covered q hq.1 hq.2
  exact ⟨r, hrq.recorded⟩

/-- Only lists that are reached are copied. -/
theorem IsCopy.reaches {r q : Nat} (hrq : h.IsCopy v r q) : h.Reaches v r :=
  ((Copying.sound_complete h ∅ v).reached hrq.newlyRecorded).2

/-- No list has two copies, and no list is the copy of two. -/
theorem isCopy_biUnique (h : Heap) (v : Value) : Relator.BiUnique (h.IsCopy v) := by
  constructor
  · intro r s q hrq hsq
    exact (Copying.sound_complete h ∅ v).unique hrq.newlyRecorded hsq.newlyRecorded
  · intro r q t hrq hrt
    exact Option.some.inj (hrq.symm.trans hrt)

/-- The copy of a value is related to it as the copy of a list is to the list. -/
theorem related_deepCopy (hv : v.LiesIn fun r => r < h.size) :
    v.Related (h.IsCopy v) (h.deepCopy v).1 := by
  refine (Copying.copies_copyWith h ∅ v).related ?_
  rwa [(Copying.sound_complete h ∅ v).base_eq]

theorem IsCopy.related_items (hh : h.Closed) {r q : Nat} (hrq : h.IsCopy v r q) :
    List.Forall₂ (Value.Related (h.IsCopy v)) (h.items r) ((h.deepCopy v).2.items q) := by
  have hexist : ∀ w, w ∈ h.items r → w.LiesIn fun p => p < (Copying.complete h ∅ v).base := by
    rw [(Copying.sound_complete h ∅ v).base_eq]
    exact fun w hw => hh.liesIn hw
  exact Copying.related_items hrq.items hexist

/-- **A list and its copy have the same shape**, sharing and cycles included. -/
theorem isomorphism_deepCopy (hh : h.Closed) (v : Value) :
    Isomorphism h (h.deepCopy v).2 (h.IsCopy v) :=
  ⟨fun _ _ hrq => hrq.related_items hh, isCopy_biUnique h v⟩

theorem alike_deepCopy (hh : h.Closed) (hv : v.LiesIn fun r => r < h.size) :
    Alike h v (h.deepCopy v).2 (h.deepCopy v).1 :=
  ⟨_, (isomorphism_deepCopy hh v).bisimulation, related_deepCopy hv⟩

theorem isNew_of_related {w w' : Value} (hw : w.Related (h.IsCopy v) w') :
    w'.LiesIn (h.IsNew v) := by
  cases hw with
  | int n => trivial
  | list hrq => exact hrq.isNew

/-- **The copy of a list is a new list.** -/
theorem liesIn_deepCopy (hv : v.LiesIn fun r => r < h.size) :
    (h.deepCopy v).1.LiesIn (h.IsNew v) :=
  isNew_of_related (related_deepCopy hv)

theorem confined_new (hh : h.Closed) (v : Value) : (h.deepCopy v).2.Confined (h.IsNew v) := by
  intro q hq w hw
  obtain ⟨r, hrq⟩ := hq.exists_isCopy
  cases w with
  | int n => trivial
  | list t =>
      obtain ⟨s, _, hst⟩ := (isomorphism_deepCopy hh v).bisimulation.exists_item hrq hw
      exact hst.isNew

theorem confined_not_new (hh : h.Closed) (v : Value) :
    (h.deepCopy v).2.Confined fun r => ¬ h.IsNew v r := by
  intro r hr w hw
  by_cases hlt : r < h.size
  · rw [items_deepCopy_of_lt hlt] at hw
    exact (hh.liesIn hw).mono fun q hq hnew => Nat.not_le_of_lt hq hnew.1
  · have hsize := lt_size_of_items_ne_nil (List.ne_nil_of_mem hw)
    exact absurd ⟨Nat.le_of_not_lt hlt, hsize⟩ hr

/-- A set that is confined before a copy, and holds the new lists, is confined
after it. -/
theorem confined_deepCopy {S : Ref → Prop} (hh : h.Closed) (hS : h.Confined S)
    (hnew : ∀ r, h.IsNew v r → S r) : (h.deepCopy v).2.Confined S := by
  intro r hr w hw
  by_cases hlt : r < h.size
  · rw [items_deepCopy_of_lt hlt] at hw
    exact hS r hr w hw
  · have hsize := lt_size_of_items_ne_nil (List.ne_nil_of_mem hw)
    exact (confined_new hh v r ⟨Nat.le_of_not_lt hlt, hsize⟩ w hw).mono hnew

end Heap
end LineMachine
