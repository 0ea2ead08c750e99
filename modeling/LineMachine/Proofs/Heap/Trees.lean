import LineMachine.Proofs.Heap.Equality
import LineMachine.Proofs.Heap.Marks
import LineMachine.Proofs.Text.Separated

/-!
# Reading the text of a value back

A value that leads to no list that contains itself unfolds to a nested list of integers, in
which nothing is shared, and its text is the text of that.  The brackets make the notation
unambiguous: an integer ends before a separator or a bracket, a list with the bracket that
closes it, so that no two nested lists are written alike.  Texts therefore differ where
values differ; and values that unfold to one nested list are equal, however they share.

**Input.**  A heap and values of it that reach no list on a cycle.

**Invariant.**  A nested list is told from the beginning of any text that goes on with a
separator or a bracket.

**Results.**
* `Tree.text_injective`: no two nested lists of integers are written alike.
* `exists_unfolds`: a value without cycles is written as what it unfolds to.
* `alike_iff_eq`: values are alike just if they unfold to one nested list.
* `text_determines_value`: values without cycles are equal just if their texts are.
-/

namespace LineMachine

/-- A nested list of integers, with nothing shared. -/
inductive Tree where
  | int (n : Int)
  | list (trees : List Tree)

/-- Integers are written in decimal, lists between brackets with a comma and a space between
the items. -/
def Tree.text : Tree → String
  | .int n => Numeral.intText n
  | .list trees => "[" ++ ", ".intercalate (trees.map Tree.text) ++ "]"

/-- The texts of the items after the first, each with the separator before it. -/
def Tree.tail (trees : List Tree) : List Char :=
  trees.flatMap fun t => ',' :: ' ' :: t.text.toList

namespace Tree

/-- The end of the tree is told wherever its text stands, if no integer could go on there. -/
def Delimited (t : Tree) : Prop :=
  ∀ t' rest rest', rest.takeWhile Numeral.isNumeralChar = [] →
    rest'.takeWhile Numeral.isNumeralChar = [] →
    t.text.toList ++ rest = t'.text.toList ++ rest' → t = t' ∧ rest = rest'

section Notation

variable {t : Tree} {trees trees' : List Tree} {rest rest' : List Char}

theorem text_nil_append (rest : List Char) :
    (Tree.list []).text.toList ++ rest = '[' :: ']' :: rest := by
  rw [text]
  rfl

theorem text_cons_append (t : Tree) (trees : List Tree) (rest : List Char) :
    (Tree.list (t :: trees)).text.toList ++ rest =
      '[' :: (t.text.toList ++ (tail trees ++ ']' :: rest)) := by
  rw [text, String.toList_append, String.toList_append, String.toList_intercalate, List.map_cons,
    List.map_cons, Text.intercalate_cons_eq, List.map_map, List.flatMap_map, List.append_assoc,
    List.append_assoc, List.append_assoc]
  rfl

theorem exists_text_list_append (trees : List Tree) (rest : List Char) :
    ∃ cs, (Tree.list trees).text.toList ++ rest = '[' :: cs := by
  cases trees with
  | nil => exact ⟨_, text_nil_append rest⟩
  | cons t trees => exact ⟨_, text_cons_append t trees rest⟩

/-- A text does not begin with a closing bracket. -/
theorem text_append_ne (t : Tree) (rest rest' : List Char) :
    t.text.toList ++ rest ≠ ']' :: rest' := by
  intro h
  cases t with
  | int n =>
      obtain ⟨c, cs, hcs, hc⟩ := Numeral.exists_intText_eq_cons n
      rw [text, hcs] at h
      obtain rfl := (List.cons.inj h).1
      exact absurd hc (by decide)
  | list trees =>
      obtain ⟨cs, hcs⟩ := exists_text_list_append trees rest
      rw [hcs] at h
      cases (List.cons.inj h).1

/-- An integer and a list are not written alike. -/
theorem int_text_append_ne (n : Int) (trees : List Tree) (rest rest' : List Char) :
    (Tree.int n).text.toList ++ rest ≠ (Tree.list trees).text.toList ++ rest' := by
  intro h
  obtain ⟨c, cs, hcs, hc⟩ := Numeral.exists_intText_eq_cons n
  obtain ⟨ds, hds⟩ := exists_text_list_append trees rest'
  rw [text, hcs, hds] at h
  obtain rfl := (List.cons.inj h).1
  exact absurd hc (by decide)

/-- After an item there is a separator or a bracket. -/
theorem takeWhile_tail (trees : List Tree) (rest : List Char) :
    (tail trees ++ ']' :: rest).takeWhile Numeral.isNumeralChar = [] :=
  Text.takeWhile_laterPieces rfl rfl trees rest

/-- The items after the first are told up to the bracket that closes the list. -/
theorem tail_append_inj (hitems : ∀ t, t ∈ trees → t.Delimited)
    (h : tail trees ++ ']' :: rest = tail trees' ++ ']' :: rest') :
    trees = trees' ∧ rest = rest' :=
  Text.laterPieces_append_inj rfl rfl (by decide) (fun t ht t' _ => hitems t ht t') h

/-- The items of a list are told up to the end of it. -/
theorem list_append_inj (hitems : ∀ t, t ∈ trees → t.Delimited)
    (h : (Tree.list trees).text.toList ++ rest = (Tree.list trees').text.toList ++ rest') :
    trees = trees' ∧ rest = rest' := by
  cases trees with
  | nil =>
      rw [text_nil_append] at h
      cases trees' with
      | nil =>
          rw [text_nil_append] at h
          exact ⟨rfl, (List.cons.inj (List.cons.inj h).2).2⟩
      | cons t' trees' =>
          rw [text_cons_append] at h
          exact absurd (List.cons.inj h).2.symm (text_append_ne t' _ rest)
  | cons t trees =>
      rw [text_cons_append] at h
      cases trees' with
      | nil =>
          rw [text_nil_append] at h
          exact absurd (List.cons.inj h).2 (text_append_ne t _ rest')
      | cons t' trees' =>
          rw [text_cons_append] at h
          obtain ⟨ht, htrees⟩ := List.forall_mem_cons.mp hitems
          obtain ⟨rfl, htail⟩ := ht t' _ _ (takeWhile_tail trees rest)
            (takeWhile_tail trees' rest') (List.cons.inj h).2
          obtain ⟨rfl, hrest⟩ := tail_append_inj htrees htail
          exact ⟨rfl, hrest⟩

/-- **The end of a tree is told wherever its text stands.** -/
theorem delimited (t : Tree) : t.Delimited := by
  induction t using Tree.text.induct with
  | case1 n =>
      intro t' rest rest' hrest hrest' h
      cases t' with
      | int n' =>
          rw [text, text] at h
          obtain ⟨rfl, hrest⟩ := Numeral.intText_append_inj hrest hrest' h
          exact ⟨rfl, hrest⟩
      | list trees' => exact absurd h (int_text_append_ne n trees' rest rest')
  | case2 trees ih =>
      intro t' rest rest' hrest hrest' h
      cases t' with
      | int n' => exact absurd h.symm (int_text_append_ne n' trees rest' rest)
      | list trees' =>
          obtain ⟨rfl, hrest⟩ := list_append_inj ih h
          exact ⟨rfl, hrest⟩

/-- **No two nested lists of integers are written alike.** -/
theorem text_injective : Function.Injective text := by
  intro t t' h
  exact (delimited t t' [] [] rfl rfl (congrArg (fun s : String => s.toList ++ []) h)).1

end Notation

end Tree

namespace Heap

/-- What the value holds is the tree, once all that is shared is written out. -/
inductive Unfolds (h : Heap) : Value → Tree → Prop
  | int (n : Int) : Unfolds h (.int n) (.int n)
  | list {r : Ref} {trees : List Tree} (hlength : (h.items r).length = trees.length)
      (hitems : ∀ v t, (v, t) ∈ (h.items r).zip trees → Unfolds h v t) :
      Unfolds h (.list r) (.list trees)

theorem exists_forall₂ {α β : Type} {R : α → β → Prop} {xs : List α}
    (hxs : ∀ x, x ∈ xs → ∃ y, R x y) : ∃ ys, List.Forall₂ R xs ys := by
  induction xs with
  | nil => exact ⟨[], .nil⟩
  | cons x xs ih =>
      obtain ⟨hx, hxs⟩ := List.forall_mem_cons.mp hxs
      obtain ⟨y, hy⟩ := hx
      obtain ⟨ys, hys⟩ := ih hxs
      exact ⟨y :: ys, .cons hy hys⟩

section Unfolding

variable {h : Heap} {a r s : Nat} {v w : Value} {t t' : Tree} {trees : List Tree}
  {path : Finset Ref} {R : Ref → Ref → Prop}

theorem unfolds_list_iff :
    h.Unfolds (.list r) (.list trees) ↔ List.Forall₂ h.Unfolds (h.items r) trees := by
  rw [List.forall₂_iff_zip]
  constructor
  · intro hr
    cases hr with
    | list hlength hitems => exact ⟨hlength, fun hvt => hitems _ _ hvt⟩
  · rintro ⟨hlength, hitems⟩
    exact .list hlength fun v t hvt => hitems hvt

/-- A value unfolds to one tree at most. -/
theorem Unfolds.unique (hv : h.Unfolds v t) (hv' : h.Unfolds v t') : t = t' := by
  induction hv generalizing t' with
  | int n =>
      cases hv'
      rfl
  | @list r trees hlength _ ih =>
      cases hv' with
      | @list _ trees' hlength' hitems' =>
          have hrow : List.Forall₂ (fun v t => ∀ t', h.Unfolds v t' → t = t') (h.items r) trees :=
            List.forall₂_iff_zip.mpr ⟨hlength, fun hvt t' hv => ih _ _ hvt hv⟩
          have hrow' := unfolds_list_iff.mp (.list hlength' hitems')
          have heq : List.Forall₂ Eq trees trees' :=
            (forall₂_meet hrow hrow').imp fun t t' ⟨v, hunique, hv⟩ => hunique t' hv
          rw [List.forall₂_eq_eq_eq] at heq
          rw [heq]

/-- Related values unfold alike. -/
theorem Unfolds.of_related (hv : h.Unfolds v t) (hR : Bisimulation h h R)
    (hvw : v.Related R w) : h.Unfolds w t := by
  induction hv generalizing w with
  | int n =>
      cases hvw
      exact .int n
  | @list r trees hlength _ ih =>
      cases hvw with
      | @list _ s hrs =>
          have hrow : List.Forall₂ (fun v t => ∀ w, v.Related R w → h.Unfolds w t)
              (h.items r) trees :=
            List.forall₂_iff_zip.mpr ⟨hlength, fun hvt w hvw => ih _ _ hvt hvw⟩
          refine unfolds_list_iff.mpr ((forall₂_meet (hR r s hrs) hrow).imp ?_)
          exact fun w t ⟨v, hvw, hunfolds⟩ => hunfolds w hvw

theorem related_of_unfolds (hv : h.Unfolds v t) (hw : h.Unfolds w t) :
    v.Related (fun r s => ∃ t, h.Unfolds (.list r) t ∧ h.Unfolds (.list s) t) w := by
  cases hv with
  | int n =>
      cases hw
      exact .int n
  | list hlength hitems =>
      cases hw with
      | list hlength' hitems' => exact .list ⟨_, .list hlength hitems, .list hlength' hitems'⟩

/-- Lists that unfold to one tree hold items that do. -/
theorem bisimulation_unfolds (h : Heap) :
    Bisimulation h h fun r s => ∃ t, h.Unfolds (.list r) t ∧ h.Unfolds (.list s) t := by
  rintro r s ⟨t, hr, hs⟩
  cases hr with
  | @list _ trees hlength hitems =>
      have hrow := unfolds_list_iff.mp (.list hlength hitems)
      have hrow' := unfolds_list_iff.mp hs
      refine (forall₂_meet hrow.flip hrow'.flip).imp fun v w ⟨t, hv, hw⟩ => ?_
      exact related_of_unfolds hv hw

/-- **Values are alike just if they unfold to one tree.** -/
theorem alike_iff_eq (hv : h.Unfolds v t) (hw : h.Unfolds w t') : Alike h v h w ↔ t = t' := by
  constructor
  · rintro ⟨R, hR, hvw⟩
    exact (hv.of_related hR hvw).unique hw
  · rintro rfl
    exact ⟨_, bisimulation_unfolds h, related_of_unfolds hv hw⟩

/-- A list that is visited without a mark unfolds to a tree, and is written as that. -/
theorem Visits.exists_unfolds (hnone : ¬ h.Marked a)
    (hwritable : ∀ n, h.Holds (.list a) n → Numeral.writable n = true)
    (hs : h.Visits a path s) : ∃ t, h.Unfolds (.list s) t ∧ h.listText path s = .ok t.text := by
  induction path, s using listText.induct h with
  | case1 path s ih =>
      -- as no list inside is marked, the recursion of the text takes up every list
      have hitems : ∀ v, v ∈ h.items s → ∃ t, h.Unfolds v t ∧ h.itemText path v = .ok t.text := by
        intro v hv
        cases v with
        | int n =>
            have hn := hwritable n (Or.inr ⟨s, hs.reaches, hv⟩)
            refine ⟨.int n, .int n, ?_⟩
            rw [itemText, Numeral.text_eq_ok hn, Tree.text]
        | list q =>
            have hnew : q ∉ path := fun hmem => hnone ⟨path, s, q, hs, hv, hmem⟩
            rw [itemText, if_neg hnew]
            exact ih q hv hnew (.item hs hv hnew)
      obtain ⟨trees, htrees⟩ := exists_forall₂ hitems
      have htexts : (h.items s).mapM (h.itemText path) = .ok (trees.map Tree.text) :=
        mapM_eq_ok_iff.mpr (List.forall₂_map_right_iff.mpr (htrees.imp fun _ _ => And.right))
      refine ⟨.list trees, unfolds_list_iff.mpr (htrees.imp fun _ _ => And.left), ?_⟩
      rw [listText_eq, htexts, Tree.text]
      rfl

/-- **A value without cycles is written as what it unfolds to.** -/
theorem exists_unfolds (hacyclic : ∀ r, h.Reaches v r → ¬ h.OnCycle r)
    (hwritable : ∀ n, h.Holds v n → Numeral.writable n = true) :
    ∃ t, h.Unfolds v t ∧ h.text v = .ok t.text := by
  cases v with
  | int n =>
      refine ⟨.int n, .int n, ?_⟩
      rw [text, Numeral.text_eq_ok (hwritable n (Or.inl rfl)), Tree.text]
  | list a =>
      have hnone : ¬ h.Marked a := fun hmarked => by
        obtain ⟨r, hr, hcycle⟩ := marked_iff.mp hmarked
        exact hacyclic r hr hcycle
      rw [text_list_eq]
      exact Visits.exists_unfolds hnone hwritable .start

/-- **Main.** Two values that reach no list on a cycle, and hold no integer of more than 4300
digits, have texts, and these are the same just if the values are equal.  The text of such a
value is that of the nested list that it unfolds to, and of no other. -/
theorem text_determines_value
    (hv : ∀ r, h.Reaches v r → ¬ h.OnCycle r) (hw : ∀ r, h.Reaches w r → ¬ h.OnCycle r)
    (hv' : ∀ n, h.Holds v n → (Nat.toDigits 10 n.natAbs).length ≤ 4300)
    (hw' : ∀ n, h.Holds w n → (Nat.toDigits 10 n.natAbs).length ≤ 4300) :
    (h.text v = h.text w ↔ h.sameValue v w = true) ∧
      ∃ t, h.Unfolds v t ∧ h.text v = .ok t.text ∧ ∀ t', h.text v = .ok t'.text → t' = t := by
  obtain ⟨t, ht, htext⟩ := exists_unfolds hv fun n hn => Numeral.writable_iff_length.mpr (hv' n hn)
  obtain ⟨t', ht', htext'⟩ :=
    exists_unfolds hw fun n hn => Numeral.writable_iff_length.mpr (hw' n hn)
  refine ⟨?_, t, ht, htext, fun u hu => ?_⟩
  · rw [sameValue_iff_alike, alike_iff_eq ht ht', htext, htext', Except.ok.injEq]
    exact Tree.text_injective.eq_iff
  · rw [htext] at hu
    exact Tree.text_injective (Except.ok.inj hu).symm

end Unfolding

/-- Two lists of the same items, which the one shares and the other does not. -/
def sharedAndCopied : Heap :=
  ⟨#[[.list 2, .list 2], [.list 2, .list 3], [.int (-7)], [.int (-7)]]⟩

theorem text_determines_value_sharedAndCopied :
    (∀ r, ¬ sharedAndCopied.OnCycle r) ∧
      (∀ v, (∃ r, v = .list r) → ∀ n, sharedAndCopied.Holds v n →
        (Nat.toDigits 10 n.natAbs).length ≤ 4300) ∧
      sharedAndCopied.sameValue (.list 0) (.list 1) = true ∧
      sharedAndCopied.text (.list 0) ≠ sharedAndCopied.text (.list 2) := by
  have hitems : ∀ (r : Nat) v, v ∈ sharedAndCopied.items r →
      (∃ q : Nat, v = .list q ∧ r < q) ∨ v = .int (-7) := by
    rintro (_ | _ | _ | _ | r) v hv <;> simp [sharedAndCopied, items] at hv
    · exact Or.inl ⟨2, hv, by decide⟩
    · rcases hv with hv | hv
      · exact Or.inl ⟨2, hv, by decide⟩
      · exact Or.inl ⟨3, hv, by decide⟩
    · exact Or.inr hv
    · exact Or.inr hv
  have hlater : ∀ r q : Nat, .list q ∈ sharedAndCopied.items r → r < q := by
    intro r q hq
    rcases hitems r _ hq with ⟨p, hp, hrp⟩ | hint
    · cases hp
      exact hrp
    · cases hint
  have hints : ∀ v, (∃ r, v = .list r) → ∀ n, sharedAndCopied.Holds v n →
      (Nat.toDigits 10 n.natAbs).length ≤ 4300 := by
    rintro _ ⟨r, rfl⟩ n (hn | ⟨q, _, hq⟩)
    · cases hn
    · rcases hitems q _ hq with ⟨p, hp, _⟩ | hint
      · cases hp
      · cases hint
        decide
  have hnone := not_onCycle_of_later hlater
  have hsame := (text_determines_value (v := .list 0) (w := .list 1) (fun r _ => hnone r)
    (fun r _ => hnone r) (hints _ ⟨0, rfl⟩) (hints _ ⟨1, rfl⟩)).1
  have hother := (text_determines_value (v := .list 0) (w := .list 2) (fun r _ => hnone r)
    (fun r _ => hnone r) (hints _ ⟨0, rfl⟩) (hints _ ⟨2, rfl⟩)).1
  have hdiffer : sharedAndCopied.sameValue (.list 0) (.list 2) = false := by cbv
  refine ⟨hnone, hints, hsame.mp (by cbv), fun htext => ?_⟩
  rw [hother.mp htext] at hdiffer
  cases hdiffer

-- Values with cycles may be equal and written in different ways.
example : (⟨#[[.list 0], [.list 0]]⟩ : Heap).sameValue (.list 0) (.list 1) = true ∧
    (⟨#[[.list 0], [.list 0]]⟩ : Heap).text (.list 0) = .ok "[[...]]" ∧
    (⟨#[[.list 0], [.list 0]]⟩ : Heap).text (.list 1) = .ok "[[[...]]]" := by
  refine ⟨?_, ?_, ?_⟩ <;> cbv

end Heap
end LineMachine
