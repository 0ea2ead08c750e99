import LineMachine.Proofs.Heap.Writing
import Mathlib.Data.Finset.Card
import Mathlib.Data.Finset.Range
import Mathlib.Data.Finset.SDiff
import Mathlib.Data.List.Forall2

/-!
# The text of a list by recursion

The text of a list is told by the texts of its items, and the text of a list among them
in the same way, unless it is one of the lists on the path to it.  The recursion ends,
as a path meets no list twice.  Writing with a stack comes to the same text: the stack is
the path, and the items still to come at each of its places are what remains to be told.

**Input.**  Any heap, with lists that are shared or contain themselves.

**Invariant.**  The lists that are open are those of the path; what is written already,
and the texts of all items still to come, from the innermost list to the outermost, make
up the text.

**Results.**
* `listText`, `itemText`: the text by recursion.
* `restText`: what remains to be written of a stack.
* `renderFrames_eq`: writing goes on with what remains.
* `text_list_eq`: the text written with a stack is the text by recursion.
* `text_eq_error_iff`: a list has no text exactly if an integer that it holds has none.
-/

namespace LineMachine
namespace Heap

/-- How many lists are not on a path. -/
def offPath (h : Heap) (path : Finset Ref) : Nat :=
  (Finset.range h.size \ path).card

/-- A path is longer by a list that exists, unless the list has no items. -/
theorem offPath_insert_lt {h : Heap} {path : Finset Ref} {r q : Ref}
    (hq : .list q ∈ h.items r) (hnew : q ∉ path) :
    Prod.Lex (· < ·) (· < ·) (h.offPath (insert q path), (h.items q).length)
      (h.offPath path, (h.items r).length) := by
  have hsub : Finset.range h.size \ insert q path ⊆ Finset.range h.size \ path :=
    Finset.sdiff_subset_sdiff Finset.Subset.rfl (Finset.subset_insert q path)
  by_cases hexists : q < h.size
  · refine Prod.Lex.left _ _ (Finset.card_lt_card ⟨hsub, fun hback => ?_⟩)
    have hmem : q ∈ Finset.range h.size \ path :=
      Finset.mem_sdiff.mpr ⟨Finset.mem_range.mpr hexists, hnew⟩
    exact (Finset.mem_sdiff.mp (hback hmem)).2 (Finset.mem_insert_self q path)
  · have hempty := items_of_size_le (Nat.le_of_not_lt hexists)
    have hpos := List.length_pos_of_mem hq
    rw [hempty]
    rcases Nat.lt_or_eq_of_le (Finset.card_le_card hsub) with hlt | heq
    · exact Prod.Lex.left _ _ hlt
    · rw [offPath, heq]
      exact Prod.Lex.right _ hpos

/-- The text of a list at the end of a path that it is on. -/
def listText (h : Heap) (path : Finset Ref) (r : Ref) : Except Numeral.DigitLimit String := do
  let parts ← (h.items r).attach.mapM fun
    | ⟨.int n, _⟩ => Numeral.text n
    | ⟨.list q, _⟩ => if q ∈ path then .ok "[...]" else listText h (insert q path) q
  return "[" ++ ", ".intercalate parts ++ "]"
termination_by (h.offPath path, (h.items r).length)
decreasing_by exact offPath_insert_lt ‹_› ‹_›

/-- The text of an item of the list at the end of a path. -/
def itemText (h : Heap) (path : Finset Ref) : Value → Except Numeral.DigitLimit String
  | .int n => Numeral.text n
  | .list q => if q ∈ path then .ok "[...]" else h.listText (insert q path) q

/-- The lists that are being written. -/
def pathOf (frames : List Frame) : Finset Ref :=
  (frames.map Frame.ref).toFinset

/-- What remains to be written of a stack. -/
def restText (h : Heap) : List Frame → Except Numeral.DigitLimit String
  | [] => .ok ""
  | ⟨r, rest⟩ :: outer => do
    let parts ← rest.mapM (h.itemText (pathOf (⟨r, rest⟩ :: outer)))
    let after ← h.restText outer
    return ", ".intercalate parts ++ "]" ++ afterList outer ++ after

section Recursion

variable {h : Heap} {path : Finset Ref} {r : Ref}

theorem listText_eq : h.listText path r = do
    let parts ← (h.items r).mapM (h.itemText path)
    return "[" ++ ", ".intercalate parts ++ "]" := by
  have hitems : (h.items r).attach.mapM (h.itemText path ∘ Subtype.val) =
      (h.items r).mapM (h.itemText path) := by
    rw [← List.mapM_map, List.attach_map_subtype_val]
  rw [← hitems, listText]
  congr 2
  funext ⟨v, hv⟩
  cases v <;> rfl

end Recursion

section Stacks

variable {h : Heap} {frames : List Frame}

theorem mem_pathOf {r : Ref} : r ∈ pathOf frames ↔ isOpen frames r = true := by
  simp [pathOf, isOpen]

theorem pathOf_next (r : Ref) (v : Value) (rest : List Value) (outer : List Frame) :
    pathOf (⟨r, v :: rest⟩ :: outer) = pathOf (⟨r, rest⟩ :: outer) :=
  rfl

theorem pathOf_cons (r : Ref) (rest : List Value) (outer : List Frame) :
    pathOf (⟨r, rest⟩ :: outer) = insert r (pathOf outer) := by
  simp [pathOf]

theorem exists_mem_of_forall₂ {α β : Type} {R : α → β → Prop} {xs : List α} {ys : List β}
    (hR : List.Forall₂ R xs ys) {y : β} (hy : y ∈ ys) : ∃ x, x ∈ xs ∧ R x y := by
  induction hR with
  | nil => cases hy
  | cons hxy _ ih =>
      rcases List.mem_cons.mp hy with rfl | hy
      · exact ⟨_, List.mem_cons_self, hxy⟩
      · obtain ⟨x, hx, hxy⟩ := ih hy
        exact ⟨x, List.mem_cons_of_mem _ hx, hxy⟩

theorem intercalate_cons {t : String} {parts : List String} {rest : List Value}
    (hlength : parts.length = rest.length) :
    ", ".intercalate (t :: parts) = t ++ separator rest ++ ", ".intercalate parts := by
  cases rest with
  | nil =>
      obtain rfl := List.length_eq_zero_iff.mp hlength
      rw [String.intercalate_singleton, String.intercalate_nil, separator, if_pos List.isEmpty_nil,
        String.append_empty, String.append_empty]
  | cons v rest =>
      have hne : parts ≠ [] := List.ne_nil_of_length_eq_add_one hlength
      rw [String.intercalate_cons_of_ne_nil hne]
      rfl

/-- The next item comes before what then remains to be written. -/
theorem restText_cons (r : Ref) (v : Value) (rest : List Value) (outer : List Frame) :
    h.restText (⟨r, v :: rest⟩ :: outer) = do
      let t ← h.itemText (pathOf (⟨r, rest⟩ :: outer)) v
      let after ← h.restText (⟨r, rest⟩ :: outer)
      return t ++ separator rest ++ after := by
  rw [restText, restText, pathOf_next, List.mapM_cons]
  cases h.itemText (pathOf (⟨r, rest⟩ :: outer)) v with
  | error e => rfl
  | ok t =>
      cases hparts : rest.mapM (h.itemText (pathOf (⟨r, rest⟩ :: outer))) with
      | error e => rfl
      | ok parts =>
          cases h.restText outer with
          | error e => rfl
          | ok after =>
              show Except.ok (", ".intercalate (t :: parts) ++ "]" ++ afterList outer ++ after) = _
              have hlength := (mapM_eq_ok_iff.mp hparts).length_eq.symm
              simp only [intercalate_cons hlength, String.append_assoc]
              rfl

/-- **Writing goes on with what remains to be written.** -/
theorem renderFrames_eq (out : String) (frames : List Frame) :
    h.renderFrames out frames = (h.restText frames).map fun after => out ++ after := by
  fun_induction h.renderFrames out frames with
  | case1 out =>
      rw [restText, Except.map, String.append_empty]
  | case2 out r outer ih =>
      rw [ih, restText, List.mapM_nil]
      cases h.restText outer with
      | error e => rfl
      | ok after =>
          show Except.ok (out ++ "]" ++ afterList outer ++ after) =
            .ok (out ++ (", ".intercalate [] ++ "]" ++ afterList outer ++ after))
          simp only [String.intercalate_nil, String.empty_append, String.append_assoc]
  | case3 out r n rest outer ih =>
      rw [restText_cons, itemText]
      cases Numeral.text n with
      | error e => rfl
      | ok t =>
          show h.renderFrames (out ++ t ++ separator rest) (⟨r, rest⟩ :: outer) = _
          rw [ih]
          cases h.restText (⟨r, rest⟩ :: outer) with
          | error e => rfl
          | ok after =>
              show Except.ok (out ++ t ++ separator rest ++ after) =
                .ok (out ++ (t ++ separator rest ++ after))
              simp only [String.append_assoc]
  | case4 out r q rest outer hopen ih =>
      rw [ih, restText_cons, itemText, if_pos (mem_pathOf.mpr hopen)]
      cases h.restText (⟨r, rest⟩ :: outer) with
      | error e => rfl
      | ok after =>
          show Except.ok (out ++ "[...]" ++ separator rest ++ after) =
            .ok (out ++ ("[...]" ++ separator rest ++ after))
          simp only [String.append_assoc]
  | case5 out r q rest outer hopen ih =>
      rw [ih, restText_cons, itemText, if_neg (fun hmem => hopen (mem_pathOf.mp hmem)), listText_eq,
        restText, pathOf_cons]
      cases (h.items q).mapM (h.itemText (insert q (pathOf (⟨r, rest⟩ :: outer)))) with
      | error e => rfl
      | ok parts =>
          cases h.restText (⟨r, rest⟩ :: outer) with
          | error e => rfl
          | ok after =>
              show Except.ok
                  (out ++ "[" ++ (", ".intercalate parts ++ "]" ++ separator rest ++ after)) =
                .ok (out ++ ("[" ++ ", ".intercalate parts ++ "]" ++ separator rest ++ after))
              simp only [String.append_assoc]

end Stacks

/-- The text of a list is made up of the texts of its items. -/
theorem listText_eq_ok {h : Heap} {path : Finset Ref} {r : Ref} {t : String}
    (ht : h.listText path r = .ok t) :
    ∃ parts, List.Forall₂ (fun v part => h.itemText path v = .ok part) (h.items r) parts ∧
      t.toList = '[' :: ([',', ' '].intercalate (parts.map String.toList) ++ [']']) := by
  rw [listText_eq] at ht
  cases hparts : (h.items r).mapM (h.itemText path) with
  | error e =>
      rw [hparts] at ht
      cases ht
  | ok parts =>
      rw [hparts] at ht
      cases ht
      refine ⟨parts, mapM_eq_ok_iff.mp hparts, ?_⟩
      simp only [String.toList_append, String.toList_intercalate]
      rfl

/-- **The text written with a stack is the text by recursion.** -/
theorem text_list_eq (h : Heap) (r : Ref) : h.text (.list r) = h.listText {r} r := by
  have hpath : pathOf [⟨r, h.items r⟩] = {r} := rfl
  rw [text, renderFrames_eq, listText_eq, restText, hpath, restText]
  cases (h.items r).mapM (h.itemText {r}) with
  | error e => rfl
  | ok parts =>
      show Except.ok ("[" ++ (", ".intercalate parts ++ "]" ++ "" ++ "")) = _
      simp only [String.append_assoc, String.append_empty]
      rfl

/-- The recursion from a list comes to a list at the end of a path. -/
inductive Visits (h : Heap) (r : Ref) : Finset Ref → Ref → Prop
  | start : Visits h r {r} r
  | item {path : Finset Ref} {s q : Ref} (hs : Visits h r path s) (hq : .list q ∈ h.items s)
      (hnew : q ∉ path) : Visits h r (insert q path) q

section Visits

variable {h : Heap} {r s : Ref} {path : Finset Ref}

/-- The lists of a path have been visited before its end. -/
theorem Visits.exists_of_mem (hs : h.Visits r path s) {q : Ref} (hq : q ∈ path) :
    ∃ path', h.Visits r path' q := by
  induction hs with
  | start =>
      obtain rfl := Finset.mem_singleton.mp hq
      exact ⟨{q}, .start⟩
  | @item path s p hs hp hnew ih =>
      rcases Finset.mem_insert.mp hq with rfl | hq
      · exact ⟨insert q path, .item hs hp hnew⟩
      · exact ih hq

/-- Every list that is reached is visited: a list that is met on its own path has been
visited already. -/
theorem exists_visits_of_reaches {q : Ref} (hq : h.Reaches (.list r) q) :
    ∃ path, h.Visits r path q := by
  have hconfined : h.Confined fun q => ∃ path, h.Visits r path q := by
    rintro s ⟨path, hs⟩ v hv
    cases v with
    | int n => trivial
    | list q =>
        by_cases hmem : q ∈ path
        · exact hs.exists_of_mem hmem
        · exact ⟨insert q path, .item hs hv hmem⟩
  have hstart : ∃ path, h.Visits r path r := ⟨{r}, .start⟩
  exact hq.liesIn hconfined hstart

theorem exists_itemText (hs : ∃ t, h.listText path s = .ok t) {v : Value}
    (hv : v ∈ h.items s) : ∃ t, h.itemText path v = .ok t := by
  obtain ⟨t, ht⟩ := hs
  obtain ⟨parts, hparts, _⟩ := listText_eq_ok ht
  obtain ⟨part, _, hpart⟩ := exists_mem_of_forall₂ hparts.flip hv
  exact ⟨part, hpart⟩

/-- If a list has a text, so has every list that is visited. -/
theorem Visits.exists_listText (hs : h.Visits r path s) (hr : ∃ t, h.listText {r} r = .ok t) :
    ∃ t, h.listText path s = .ok t := by
  induction hs with
  | start => exact hr
  | @item path s q _ hq hnew ih =>
      have hitem := exists_itemText ih hq
      rwa [itemText, if_neg hnew] at hitem

/-- **A list has a text exactly if all the integers that it holds can be written.** -/
theorem exists_text_iff : (∃ t, h.text (.list r) = .ok t) ↔
    ∀ n, h.Holds (.list r) n → Numeral.writable n = true := by
  constructor
  · intro hr n hn
    rw [text_list_eq] at hr
    rcases hn with hn | ⟨s, hs, hn⟩
    · cases hn
    · obtain ⟨path, hs⟩ := exists_visits_of_reaches hs
      obtain ⟨t, ht⟩ := exists_itemText (hs.exists_listText hr) hn
      rw [itemText, Numeral.text] at ht
      split at ht
      · assumption
      · cases ht
  · exact exists_text

theorem numeralText_eq_error_iff {n : Int} {e : Numeral.DigitLimit} :
    Numeral.text n = .error e ↔ Numeral.writable n = false ∧ e = .writing := by
  cases hn : Numeral.writable n with
  | true => simp [Numeral.text_eq_ok hn]
  | false => simp [Numeral.text_eq_error hn, eq_comm]

theorem eq_writing_of_renderFrames {out : String} {frames : List Frame} {e : Numeral.DigitLimit}
    (he : h.renderFrames out frames = .error e) : e = .writing := by
  fun_induction h.renderFrames out frames with
  | case1 out => cases he
  | case2 out r outer ih => exact ih he
  | case3 out r n rest outer ih =>
      cases htext : Numeral.text n with
      | error e' =>
          rw [htext] at he
          cases he
          exact (numeralText_eq_error_iff.mp htext).2
      | ok t =>
          rw [htext] at he
          exact ih t he
  | case4 out r q rest outer hopen ih => exact ih he
  | case5 out r q rest outer hopen ih => exact ih he

/-- **A list has no text exactly if an integer that it holds has none**, and for the same
reason. -/
theorem text_eq_error_iff {e : Numeral.DigitLimit} :
    h.text (.list r) = .error e ↔ ∃ n, h.Holds (.list r) n ∧ Numeral.text n = .error e := by
  constructor
  · intro he
    obtain rfl : e = .writing := by
      rw [text] at he
      exact eq_writing_of_renderFrames he
    by_contra hnone
    obtain ⟨t, ht⟩ := (exists_text_iff (h := h) (r := r)).mpr fun n hn => by
      by_contra hw
      exact hnone ⟨n, hn, numeralText_eq_error_iff.mpr ⟨by simpa using hw, rfl⟩⟩
    rw [ht] at he
    cases he
  · rintro ⟨n, hn, he⟩
    obtain ⟨hw, rfl⟩ := numeralText_eq_error_iff.mp he
    cases htext : h.text (.list r) with
    | ok t =>
        have hwritable := exists_text_iff.mp ⟨t, htext⟩ n hn
        rw [hw] at hwritable
        cases hwritable
    | error e' =>
        rw [text] at htext
        rw [eq_writing_of_renderFrames htext]

end Visits

end Heap
end LineMachine
