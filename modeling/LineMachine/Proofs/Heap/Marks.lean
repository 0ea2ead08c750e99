import LineMachine.Proofs.Heap.Cycle
import LineMachine.Proofs.Heap.Nesting
import LineMachine.Proofs.Numeral.Written

/-!
# What the marks in a text tell

Three dots stand in the text of a list if the list leads to one that contains itself, and in
no other text.  The dots are written where a list holds one of the lists on the path to it,
which closes a cycle.  Other lists may be met as often as they are shared; they are written
out each time.

**Input.**  Any heap and a list of it.

**Invariant.**  Every list that is reached is visited, at the end of some path, and its text
is a piece of the whole text.  As long as no mark is met, going on from a visited list
extends its path, so that a way back to the list can only end with a mark.

**Results.**
* `marked_iff`: a mark is met just if a list that contains itself is reached.
* `infix_text_iff`: the dots are in the text just if a mark is met.
* `marks_and_failures_are_exact`: when a list has no text, and when its text has dots.
-/

namespace LineMachine
namespace Heap

/-- A list that is visited holds a list of the path to it. -/
def Marked (h : Heap) (a : Ref) : Prop :=
  ∃ path s q, h.Visits a path s ∧ .list q ∈ h.items s ∧ q ∈ path

section Paths

variable {h : Heap} {a r s q : Ref} {path : Finset Ref}

/-- What a list reaches is the list itself, or is reached through one of its items. -/
theorem Reaches.eq_or_exists_item (hs : h.Reaches (.list r) s) :
    s = r ∨ ∃ q, .list q ∈ h.items r ∧ h.Reaches (.list q) s := by
  induction hs with
  | self hself =>
      cases hself
      exact Or.inl rfl
  | item _ hq ih =>
      right
      rcases ih with rfl | ⟨p, hp, hps⟩
      · exact ⟨_, hq, .self rfl⟩
      · exact ⟨p, hp, .item hps hq⟩

/-- A list is on a cycle if it is held by a list that it reaches. -/
theorem Reaches.onCycle (hs : h.Reaches (.list r) s) (hback : .list r ∈ h.items s) :
    h.OnCycle r := by
  rcases hs.eq_or_exists_item with rfl | ⟨q, hq, hqs⟩
  · exact ⟨s, hback, .self rfl⟩
  · exact ⟨q, hq, .item hqs hback⟩

theorem Visits.mem_path (hs : h.Visits a path s) : s ∈ path := by
  cases hs with
  | start => exact Finset.mem_singleton_self a
  | item _ _ _ => exact Finset.mem_insert_self s _

theorem Visits.reaches (hs : h.Visits a path s) : h.Reaches (.list a) s := by
  induction hs with
  | start => exact .self rfl
  | item _ hq _ ih => exact .item ih hq

/-- The lists of a path reach its end. -/
theorem Visits.reaches_of_mem (hs : h.Visits a path s) (hq : q ∈ path) :
    h.Reaches (.list q) s := by
  induction hs with
  | start =>
      obtain rfl := Finset.mem_singleton.mp hq
      exact .self rfl
  | item _ hp _ ih =>
      rcases Finset.mem_insert.mp hq with rfl | hq
      · exact .self rfl
      · exact .item (ih hq) hp

theorem Visits.onCycle (hs : h.Visits a path s) (hq : .list q ∈ h.items s) (hmem : q ∈ path) :
    h.OnCycle q :=
  (hs.reaches_of_mem hmem).onCycle hq

/-- If no mark is met, going on from the items of a visited list extends its path. -/
theorem Visits.exists_extension (hs : h.Visits a path s) (hnone : ¬ h.Marked a)
    (hq : .list q ∈ h.items s) (hr : h.Reaches (.list q) r) :
    ∃ path', h.Visits a path' r ∧ path ⊆ path' ∧ r ∉ path := by
  induction hr with
  | self hself =>
      cases hself
      have hnew : q ∉ path := fun hmem => hnone ⟨path, s, q, hs, hq, hmem⟩
      exact ⟨insert q path, .item hs hq hnew, Finset.subset_insert q path, hnew⟩
  | @item r p _ hp ih =>
      obtain ⟨path', hr, hsub, _⟩ := ih
      have hnew : p ∉ path' := fun hmem => hnone ⟨path', r, p, hr, hp, hmem⟩
      exact ⟨insert p path', .item hr hp hnew, hsub.trans (Finset.subset_insert p path'),
        fun hmem => hnew (hsub hmem)⟩

/-- **A mark is met just if a list that contains itself is reached.** -/
theorem marked_iff : h.Marked a ↔ ∃ r, h.Reaches (.list a) r ∧ h.OnCycle r := by
  constructor
  · rintro ⟨path, s, q, hs, hq, hmem⟩
    obtain ⟨path', hvisit⟩ := hs.exists_of_mem hmem
    exact ⟨q, hvisit.reaches, hs.onCycle hq hmem⟩
  · rintro ⟨r, hr, q, hq, hback⟩
    -- the list is on its own path, which the way round its cycle would have to extend
    by_contra hnone
    obtain ⟨path, hvisit⟩ := exists_visits_of_reaches hr
    obtain ⟨_, _, _, hnew⟩ := hvisit.exists_extension hnone hq hback
    exact hnew hvisit.mem_path

end Paths

section Pieces

variable {α : Type} {separator : List α} {x : α} {piece : List α} {pieces : List (List α)}

/-- What is in separated pieces is in the separator or in one of them. -/
theorem mem_or_exists_of_mem_intercalate (hx : x ∈ separator.intercalate pieces) :
    x ∈ separator ∨ ∃ piece, piece ∈ pieces ∧ x ∈ piece := by
  induction pieces with
  | nil => cases hx
  | cons piece pieces ih =>
      by_cases hlast : pieces = []
      · subst hlast
        rw [List.intercalate_singleton] at hx
        exact Or.inr ⟨piece, List.mem_cons_self, hx⟩
      · rw [List.intercalate_cons_of_ne_nil hlast] at hx
        rcases List.mem_append.mp hx with hx | hx
        · rcases List.mem_append.mp hx with hx | hx
          · exact Or.inr ⟨piece, List.mem_cons_self, hx⟩
          · exact Or.inl hx
        · exact (ih hx).imp_right fun ⟨p, hp, hxp⟩ => ⟨p, List.mem_cons_of_mem _ hp, hxp⟩

/-- Separated pieces have each of them as a piece. -/
theorem infix_intercalate (hpiece : piece ∈ pieces) : piece <:+: separator.intercalate pieces := by
  induction pieces with
  | nil => cases hpiece
  | cons first pieces ih =>
      by_cases hlast : pieces = []
      · subst hlast
        obtain rfl := List.mem_singleton.mp hpiece
        exact List.intercalate_singleton ▸ List.infix_refl piece
      · rw [List.intercalate_cons_of_ne_nil hlast]
        rcases List.mem_cons.mp hpiece with rfl | hpiece
        · rw [List.append_assoc]
          exact (List.prefix_append _ _).isInfix
        · exact (ih hpiece).trans (List.suffix_append _ _).isInfix

end Pieces

section Texts

variable {h : Heap} {a r s q : Ref} {path : Finset Ref} {t : String} {v : Value}

/-- The dots are in no text of an item but as a mark. -/
theorem dot_notMem_listText (hnone : ¬ h.Marked a) (hs : h.Visits a path s)
    (ht : h.listText path s = .ok t) : '.' ∉ t.toList := by
  induction path, s using listText.induct h generalizing t with
  | case1 path s ih =>
      intro hdot
      obtain ⟨parts, hparts, htext⟩ := listText_eq_ok ht
      have hpieces : '.' ∈ [',', ' '].intercalate (parts.map String.toList) := by
        simpa [htext] using hdot
      -- a dot is in no separator and no integer, and the lists inside are not marked
      rcases mem_or_exists_of_mem_intercalate hpieces with hseparator | ⟨piece, hpiece, hdot⟩
      · exact absurd hseparator (by decide)
      obtain ⟨part, hpart, rfl⟩ := List.mem_map.mp hpiece
      obtain ⟨v, hv, hvpart⟩ := exists_mem_of_forall₂ hparts hpart
      cases v with
      | int n =>
          obtain rfl := Numeral.text_eq_intText hvpart
          exact absurd (Numeral.isNumeralChar_of_mem_intText hdot) (by decide)
      | list q =>
          have hnew : q ∉ path := fun hmem => hnone ⟨path, s, q, hs, hv, hmem⟩
          rw [itemText, if_neg hnew] at hvpart
          exact ih q hv hnew (.item hs hv hnew) hvpart hdot

/-- The text of an item of a list is a piece of the text of the list. -/
theorem exists_infix_listText (ht : h.listText path s = .ok t) (hv : v ∈ h.items s) :
    ∃ part, h.itemText path v = .ok part ∧ part.toList <:+: t.toList := by
  obtain ⟨parts, hparts, htext⟩ := listText_eq_ok ht
  obtain ⟨part, hpart, hvpart⟩ := exists_mem_of_forall₂ hparts.flip hv
  have hpiece : part.toList <:+: [',', ' '].intercalate (parts.map String.toList) :=
    infix_intercalate (List.mem_map_of_mem hpart)
  exact ⟨part, hvpart, hpiece.trans ⟨['['], [']'], htext.symm⟩⟩

/-- **The text of a list that is visited is a piece of the whole text.** -/
theorem Visits.exists_infix_listText (hs : h.Visits a path s) (ht : h.listText {a} a = .ok t) :
    ∃ part, h.listText path s = .ok part ∧ part.toList <:+: t.toList := by
  induction hs with
  | start => exact ⟨t, ht, List.infix_refl _⟩
  | @item path s q _ hq hnew ih =>
      obtain ⟨outer, houter, hsub⟩ := ih
      obtain ⟨part, hpart, hinfix⟩ := Heap.exists_infix_listText houter hq
      rw [itemText, if_neg hnew] at hpart
      exact ⟨part, hpart, hinfix.trans hsub⟩

/-- **The dots are in the text just if a mark is met.** -/
theorem infix_text_iff (ht : h.text (.list a) = .ok t) :
    "[...]".toList <:+: t.toList ↔ h.Marked a := by
  rw [text_list_eq] at ht
  constructor
  · intro hdots
    by_contra hnone
    have hdot : '.' ∈ "[...]".toList := by decide
    exact dot_notMem_listText hnone .start ht (hdots.subset hdot)
  · rintro ⟨path, s, q, hs, hq, hmem⟩
    obtain ⟨outer, houter, hsub⟩ := hs.exists_infix_listText ht
    obtain ⟨part, hpart, hinfix⟩ := exists_infix_listText houter hq
    rw [itemText, if_pos hmem] at hpart
    cases hpart
    exact hinfix.trans hsub

/-- No text of an item begins with a dot. -/
theorem exists_itemText_eq_cons (ht : h.itemText path v = .ok t) :
    ∃ c cs, t.toList = c :: cs ∧ c ≠ '.' := by
  cases v with
  | int n =>
      obtain rfl := Numeral.text_eq_intText ht
      obtain ⟨c, cs, hcs, hc⟩ := Numeral.exists_intText_eq_cons n
      refine ⟨c, cs, hcs, ?_⟩
      rintro rfl
      exact absurd hc (by decide)
  | list q =>
      rw [itemText] at ht
      split at ht
      · cases ht
        exact ⟨'[', ['.', '.', '.', ']'], rfl, by decide⟩
      · obtain ⟨_, _, htext⟩ := listText_eq_ok ht
        exact ⟨'[', _, htext, by decide⟩

/-- No list is written out as the dots. -/
theorem listText_ne_dots : h.listText path r ≠ .ok "[...]" := by
  intro ht
  obtain ⟨parts, hparts, htext⟩ := listText_eq_ok ht
  have hpieces : [',', ' '].intercalate (parts.map String.toList) ++ [']'] = ['.', '.', '.', ']'] :=
    (List.cons.inj htext).2.symm
  cases parts with
  | nil => cases hpieces
  | cons part parts =>
      obtain ⟨v, _, hv⟩ := exists_mem_of_forall₂ hparts List.mem_cons_self
      obtain ⟨c, cs, hcs, hc⟩ := exists_itemText_eq_cons hv
      have hfirst := congrArg List.head? hpieces
      refine hc ?_
      cases parts <;> simpa [hcs] using hfirst

/-- **A list among the items is shown as the dots just if it is on the path.** -/
theorem itemText_eq_dots_iff : h.itemText path (.list q) = .ok "[...]" ↔ q ∈ path := by
  rw [itemText]
  split
  · rename_i hmem
    exact ⟨fun _ => hmem, fun _ => rfl⟩
  · rename_i hnew
    exact ⟨fun ht => absurd ht listText_ne_dots, fun hmem => absurd hmem hnew⟩

/-- **Main.** Writing a list fails just if an integer of a list that it reaches has more than
4300 digits.  If it does not fail, the dots are in the text just if the list reaches one that
contains itself.  No other list is ever shown as the dots, however often it is shared. -/
theorem marks_and_failures_are_exact (h : Heap) (a : Ref) :
    (∀ e, h.text (.list a) = .error e ↔ e = .writing ∧ ∃ r n, h.Reaches (.list a) r ∧
      .int n ∈ h.items r ∧ 4300 < (Nat.toDigits 10 n.natAbs).length) ∧
    (∀ t, h.text (.list a) = .ok t →
      ("[...]".toList <:+: t.toList ↔ ∃ r, h.Reaches (.list a) r ∧ h.OnCycle r)) ∧
    ∀ path s q, h.Visits a path s → .list q ∈ h.items s →
      h.itemText path (.list q) = .ok "[...]" → h.OnCycle q := by
  refine ⟨fun e => ?_, fun t ht => ?_, fun path s q hs hq hdots => ?_⟩
  · rw [text_eq_error_iff]
    constructor
    · rintro ⟨n, hn | ⟨r, hr, hn⟩, he⟩
      · cases hn
      · obtain ⟨hlong, rfl⟩ := numeralText_eq_error_iff.mp he
        exact ⟨rfl, r, n, hr, hn, Numeral.writable_eq_false_iff.mp hlong⟩
    · rintro ⟨rfl, r, n, hr, hn, hlong⟩
      have hrefused := Numeral.writable_eq_false_iff.mpr hlong
      exact ⟨n, Or.inr ⟨r, hr, hn⟩, numeralText_eq_error_iff.mpr ⟨hrefused, rfl⟩⟩
  · rw [infix_text_iff ht, marked_iff]
  · exact hs.onCycle hq (itemText_eq_dots_iff.mp hdots)

end Texts

/-- A list holds one that holds itself, and one of an integer twice. -/
def loopBesideShared : Heap :=
  ⟨#[[.list 1, .list 2, .list 2], [.list 1], [.int 7]]⟩

theorem marks_and_failures_are_exact_loopBesideShared :
    loopBesideShared.text (.list 0) = .ok "[[[...]], [7], [7]]" ∧
      (∃ r, loopBesideShared.Reaches (.list 0) r ∧ loopBesideShared.OnCycle r) ∧
      loopBesideShared.text (.list 2) = .ok "[7]" ∧
      ¬ ∃ r, loopBesideShared.Reaches (.list 2) r ∧ loopBesideShared.OnCycle r := by
  have hloop : loopBesideShared.text (.list 0) = .ok "[[[...]], [7], [7]]" := by cbv
  have hshared : loopBesideShared.text (.list 2) = .ok "[7]" := by cbv
  refine ⟨hloop, ?_, hshared, ?_⟩
  · refine ((marks_and_failures_are_exact loopBesideShared 0).2.1 _ hloop).mp ?_
    decide
  · refine mt ((marks_and_failures_are_exact loopBesideShared 2).2.1 _ hshared).mpr ?_
    decide

end Heap
end LineMachine
