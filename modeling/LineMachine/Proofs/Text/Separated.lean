/-!
# Pieces between separators

Pieces are written with a comma and a space between them, and a closing character at the
end.  If each piece can be told where a comma or the closing character follows it, and none
begins with the closing character, so can the whole row: after each piece, the next
character says whether another one follows.  A piece made of characters that cannot stand
after it is told in any case.

**Input.**  Two rows of pieces, the way that a piece is written, and a closing character.

**Results.**
* `run_append_inj`: a run of characters is told up to one that does not continue it.
* `intercalate_cons_eq`: a row is its first piece, and the others with the separator before
  them.
* `intercalate_append_inj`: a row is told up to the character that closes it.
-/

namespace LineMachine
namespace Text

/-- A run of characters is told up to one that does not continue it. -/
theorem run_append_inj {goesOn : Char → Bool} {cs ds rest rest' : List Char}
    (hcs : ∀ c, c ∈ cs → goesOn c = true) (hds : ∀ c, c ∈ ds → goesOn c = true)
    (hrest : rest.takeWhile goesOn = []) (hrest' : rest'.takeWhile goesOn = [])
    (h : cs ++ rest = ds ++ rest') : cs = ds ∧ rest = rest' := by
  have htake := congrArg (List.takeWhile goesOn) h
  rw [List.takeWhile_append_of_pos hcs, List.takeWhile_append_of_pos hds, hrest, hrest',
    List.append_nil, List.append_nil] at htake
  subst htake
  exact ⟨rfl, List.append_cancel_left h⟩

theorem intercalate_cons_eq {α : Type} (separator piece : List α) (pieces : List (List α)) :
    separator.intercalate (piece :: pieces) =
      piece ++ pieces.flatMap fun next => separator ++ next := by
  induction pieces generalizing piece with
  | nil => simp
  | cons next pieces ih =>
      rw [List.intercalate_cons_cons, ih, List.flatMap_cons, List.append_assoc, List.append_assoc]

section Rows

variable {α : Type} {write : α → List Char} {goesOn : Char → Bool} {close : Char}
  {xs ys : List α} {rest rest' : List Char}

/-- The pieces after the first, each with the separator before it. -/
def laterPieces (write : α → List Char) (xs : List α) : List Char :=
  xs.flatMap fun x => ',' :: ' ' :: write x

theorem laterPieces_cons (x : α) (xs : List α) :
    laterPieces write (x :: xs) = ',' :: ' ' :: (write x ++ laterPieces write xs) :=
  rfl

theorem intercalate_map_cons (x : α) (xs : List α) (rest : List Char) :
    [',', ' '].intercalate ((x :: xs).map write) ++ rest =
      write x ++ (laterPieces write xs ++ rest) := by
  rw [List.map_cons, intercalate_cons_eq, List.flatMap_map, List.append_assoc]
  rfl

/-- After a piece there is a separator or the closing character. -/
theorem takeWhile_laterPieces (hcomma : goesOn ',' = false) (hclose : goesOn close = false)
    (xs : List α) (rest : List Char) :
    (laterPieces write xs ++ close :: rest).takeWhile goesOn = [] := by
  cases xs with
  | nil => exact List.takeWhile_cons_of_neg (Bool.eq_false_iff.mp hclose)
  | cons x xs => exact List.takeWhile_cons_of_neg (Bool.eq_false_iff.mp hcomma)

/-- Two pieces written alike before what may follow a piece are the same. -/
def Delimited (write : α → List Char) (goesOn : Char → Bool) (x y : α) : Prop :=
  ∀ rest rest', rest.takeWhile goesOn = [] → rest'.takeWhile goesOn = [] →
    write x ++ rest = write y ++ rest' → x = y ∧ rest = rest'

theorem laterPieces_append_inj (hcomma : goesOn ',' = false) (hclose : goesOn close = false)
    (hne : close ≠ ',') (hpieces : ∀ x, x ∈ xs → ∀ y, y ∈ ys → Delimited write goesOn x y)
    (h : laterPieces write xs ++ close :: rest = laterPieces write ys ++ close :: rest') :
    xs = ys ∧ rest = rest' := by
  induction xs generalizing ys with
  | nil =>
      cases ys with
      | nil => exact ⟨rfl, (List.cons.inj h).2⟩
      | cons y ys => exact absurd (List.cons.inj h).1 hne
  | cons x xs ih =>
      obtain ⟨hx, hxs⟩ := List.forall_mem_cons.mp hpieces
      cases ys with
      | nil => exact absurd (List.cons.inj h).1.symm hne
      | cons y ys =>
          simp only [laterPieces_cons, List.cons_append, List.append_assoc, List.cons.injEq,
            true_and] at h
          obtain ⟨rfl, htail⟩ := hx y List.mem_cons_self _ _
            (takeWhile_laterPieces hcomma hclose xs rest)
            (takeWhile_laterPieces hcomma hclose ys rest') h
          obtain ⟨rfl, hrest⟩ :=
            ih (fun x hx y hy => hxs x hx y (List.mem_cons_of_mem _ hy)) htail
          exact ⟨rfl, hrest⟩

/-- **A row of pieces is told up to the character that closes it.** -/
theorem intercalate_append_inj (hcomma : goesOn ',' = false) (hclose : goesOn close = false)
    (hne : close ≠ ',') (hpieces : ∀ x, x ∈ xs → ∀ y, y ∈ ys → Delimited write goesOn x y)
    (hstart : ∀ x, x ∈ xs ++ ys → ∀ rest rest', write x ++ rest ≠ close :: rest')
    (h : [',', ' '].intercalate (xs.map write) ++ close :: rest =
      [',', ' '].intercalate (ys.map write) ++ close :: rest') : xs = ys ∧ rest = rest' := by
  cases xs with
  | nil =>
      cases ys with
      | nil => exact ⟨rfl, (List.cons.inj h).2⟩
      | cons y ys =>
          rw [intercalate_map_cons] at h
          exact absurd h.symm (hstart y List.mem_cons_self _ _)
  | cons x xs =>
      rw [intercalate_map_cons] at h
      cases ys with
      | nil => exact absurd h (hstart x List.mem_cons_self _ _)
      | cons y ys =>
          rw [intercalate_map_cons] at h
          obtain ⟨rfl, htail⟩ := hpieces x List.mem_cons_self y List.mem_cons_self _ _
            (takeWhile_laterPieces hcomma hclose xs rest)
            (takeWhile_laterPieces hcomma hclose ys rest') h
          obtain ⟨rfl, hrest⟩ := laterPieces_append_inj hcomma hclose hne
            (fun x hx y hy => hpieces x (List.mem_cons_of_mem _ hx) y (List.mem_cons_of_mem _ hy))
            htail
          exact ⟨rfl, hrest⟩

end Rows

end Text
end LineMachine
