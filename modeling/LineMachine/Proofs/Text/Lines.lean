import LineMachine.Text.Lines

/-!
# The pieces of a text

A text is a row of pieces, each up to a line feed; what stands after the last line feed is
one more piece if it is not empty.  The lines of a program are these pieces, less one
carriage return at the end of each.  So a line is found by counting line feeds, and no
other character has a say in it.

**Input.**  Any sequence of characters.

**Results.**
* `pieces_iff`: splitting a text gives its pieces and nothing else.
* `Pieces.getElem?_eq_some_iff`: the piece with a number stands after as many line feeds.
* `Pieces.length_eq`: how many pieces a text has.
* `programLines_ended`: lines that are written with line ends are read again.
-/

namespace LineMachine
namespace Text

/-- The text has these pieces, in order. -/
inductive Pieces : List Char → List (List Char) → Prop
  | nil : Pieces [] []
  | rest {p : List Char} (hne : p ≠ []) (hp : '\n' ∉ p) : Pieces p [p]
  | feed {p cs : List Char} {ps : List (List Char)} (hp : '\n' ∉ p) (h : Pieces cs ps) :
      Pieces (p ++ '\n' :: cs) (p :: ps)

/-- The text is empty or ends at a line feed. -/
def EndsAtFeed (cs : List Char) : Prop :=
  cs = [] ∨ ∃ before, cs = before ++ ['\n']

/-- After the first `n` line feeds of the text, the piece follows up to the next line feed,
or up to the end of the text if there is none and the piece is not empty. -/
def PieceAfter (cs : List Char) (n : Nat) (p : List Char) : Prop :=
  ∃ front back, cs = front ++ (p ++ back) ∧ front.count '\n' = n ∧ EndsAtFeed front ∧
    '\n' ∉ p ∧ (p ≠ [] ∧ back = [] ∨ ∃ rest, back = '\n' :: rest)

/-- The line is the piece less one carriage return at its end, if there is one. -/
def TrimmedTo (p : List Char) (line : String) : Prop :=
  p = line.toList ++ ['\r'] ∨ p = line.toList ∧ p.getLast? ≠ some '\r'

section Splitting

variable {cs p : List Char} {ps : List (List Char)}

theorem dropEmptyLast_cons (p : List Char) (hne : ps ≠ []) :
    dropEmptyLast (p :: ps) = p :: dropEmptyLast ps := by
  rw [dropEmptyLast, dropEmptyLast, List.getLast?_cons_of_ne_nil hne,
    List.dropLast_cons_of_ne_nil hne]
  split <;> rfl

theorem Pieces.splitOn_eq (h : Pieces cs ps) : dropEmptyLast (cs.splitOn '\n') = ps := by
  induction h with
  | nil => rfl
  | @rest p hne hp =>
      rw [List.splitOn_eq_singleton hp, dropEmptyLast]
      simp [hne]
  | @feed p cs ps hp _ ih =>
      rw [List.splitOn_append_cons_self_of_not_mem hp,
        dropEmptyLast_cons p (List.splitOn_ne_nil _ _), ih]

/-- Every text has pieces: a line feed ends an empty one, and any other character lengthens
the one that the rest of the text begins with. -/
theorem exists_pieces (cs : List Char) : ∃ ps, Pieces cs ps := by
  induction cs with
  | nil => exact ⟨[], .nil⟩
  | cons c cs ih =>
      obtain ⟨ps, h⟩ := ih
      by_cases hc : c = '\n'
      · subst hc
        exact ⟨[] :: ps, .feed List.not_mem_nil h⟩
      · have hcons : ∀ {p : List Char}, '\n' ∉ p → '\n' ∉ c :: p := fun hp hmem => by
          rcases List.mem_cons.mp hmem with heq | hmem
          · exact hc heq.symm
          · exact hp hmem
        cases h with
        | nil => exact ⟨[[c]], .rest (List.cons_ne_nil _ _) (hcons List.not_mem_nil)⟩
        | rest hne hp => exact ⟨[c :: cs], .rest (List.cons_ne_nil _ _) (hcons hp)⟩
        | @feed p cs ps hp h => exact ⟨(c :: p) :: ps, .feed (hcons hp) h⟩

/-- **Splitting a text gives its pieces** and nothing else. -/
theorem pieces_iff : Pieces cs ps ↔ dropEmptyLast (cs.splitOn '\n') = ps := by
  constructor
  · exact Pieces.splitOn_eq
  · rintro rfl
    obtain ⟨ps, h⟩ := exists_pieces cs
    rwa [h.splitOn_eq]

theorem Pieces.unique {qs : List (List Char)} (h : Pieces cs ps) (h' : Pieces cs qs) :
    ps = qs :=
  h.splitOn_eq.symm.trans h'.splitOn_eq

end Splitting

section Counting

variable {cs ds p : List Char} {ps qs : List (List Char)}

theorem Pieces.not_mem (h : Pieces cs ps) : ∀ p, p ∈ ps → '\n' ∉ p := by
  induction h with
  | nil => exact fun p hp => absurd hp List.not_mem_nil
  | rest hne hp => exact List.forall_mem_singleton.mpr hp
  | feed hp _ ih => exact List.forall_mem_cons.mpr ⟨hp, ih⟩

/-- **A text has as many pieces as line feeds**, and one more if something stands after the
last of these. -/
theorem Pieces.length_eq (h : Pieces cs ps) :
    ps.length = cs.count '\n' + if cs ≠ [] ∧ cs.getLast? ≠ some '\n' then 1 else 0 := by
  induction h with
  | nil => rfl
  | @rest p hne hp =>
      have hlast : p.getLast? ≠ some '\n' := fun hlast => hp (List.mem_of_getLast? hlast)
      rw [List.count_eq_zero_of_not_mem hp, if_pos ⟨hne, hlast⟩]
      rfl
  | @feed p cs ps hp h ih =>
      have hlast : (p ++ '\n' :: cs ≠ [] ∧ (p ++ '\n' :: cs).getLast? ≠ some '\n') ↔
          cs ≠ [] ∧ cs.getLast? ≠ some '\n' := by
        cases cs <;> simp
      rw [List.length_cons, ih, List.count_append, List.count_eq_zero_of_not_mem hp,
        List.count_cons_self]
      simp only [hlast]
      omega

theorem EndsAtFeed.of_append (h : EndsAtFeed (p ++ '\n' :: cs)) : EndsAtFeed cs := by
  rcases List.eq_nil_or_concat cs with rfl | ⟨before, c, rfl⟩
  · exact Or.inl rfl
  · rcases h with h | ⟨before', h⟩
    · simp at h
    · rw [List.concat_eq_append, ← List.cons_append, ← List.append_assoc] at h
      obtain ⟨-, hc⟩ := List.append_inj' h rfl
      cases hc
      exact Or.inr ⟨before, List.concat_eq_append⟩

/-- Texts that are put together have the pieces of both, if the first ends at a line feed. -/
theorem Pieces.append (h : Pieces cs ps) (hend : EndsAtFeed cs) (h' : Pieces ds qs) :
    Pieces (cs ++ ds) (ps ++ qs) := by
  induction h with
  | nil => exact h'
  | @rest p hne hp =>
      rcases hend with rfl | ⟨before, rfl⟩
      · exact absurd rfl hne
      · exact absurd (List.mem_append_right before List.mem_cons_self) hp
  | @feed p cs ps hp h ih =>
      rw [List.append_assoc, List.cons_append]
      exact .feed hp (ih hend.of_append)

theorem Pieces.length_eq_count (h : Pieces cs ps) (hend : EndsAtFeed cs) :
    ps.length = cs.count '\n' := by
  rw [h.length_eq, if_neg, Nat.add_zero]
  rintro ⟨hne, hlast⟩
  rcases hend with rfl | ⟨before, rfl⟩
  · exact hne rfl
  · exact hlast List.getLast?_concat

theorem pieceAfter_succ {n : Nat} {q : List Char} (hp : '\n' ∉ p) (h : PieceAfter cs n q) :
    PieceAfter (p ++ '\n' :: cs) (n + 1) q := by
  obtain ⟨front, back, rfl, rfl, hfront, hq, hback⟩ := h
  refine ⟨p ++ '\n' :: front, back, by simp, ?_, Or.inr ?_, hq, hback⟩
  · rw [List.count_append, List.count_eq_zero_of_not_mem hp, List.count_cons_self, Nat.zero_add]
  · rcases hfront with rfl | ⟨before, rfl⟩
    · exact ⟨p, rfl⟩
    · exact ⟨p ++ '\n' :: before, by simp⟩

/-- **The piece with a number stands after as many line feeds.** -/
theorem Pieces.getElem?_eq_some_iff (h : Pieces cs ps) {n : Nat} :
    ps[n]? = some p ↔ PieceAfter cs n p := by
  constructor
  · intro hget
    induction h generalizing n with
    | nil => cases hget
    | @rest q hne hq =>
        cases n with
        | zero =>
            cases hget
            exact ⟨[], [], by simp, rfl, Or.inl rfl, hq, Or.inl ⟨hne, rfl⟩⟩
        | succ n => cases hget
    | @feed q cs ps hq _ ih =>
        cases n with
        | zero =>
            cases hget
            exact ⟨[], '\n' :: cs, rfl, rfl, Or.inl rfl, hq, Or.inr ⟨cs, rfl⟩⟩
        | succ n => exact pieceAfter_succ hq (ih hget)
  · -- the pieces of what is in front are as many as the line feeds there
    rintro ⟨front, back, rfl, rfl, hfront, hp, hback⟩
    obtain ⟨fs, hfs⟩ := exists_pieces front
    have hlength := hfs.length_eq_count hfront
    obtain ⟨rest, hrest⟩ : ∃ rest, Pieces (p ++ back) (p :: rest) := by
      rcases hback with ⟨hne, rfl⟩ | ⟨cs, rfl⟩
      · exact ⟨[], by rw [List.append_nil]; exact .rest hne hp⟩
      · obtain ⟨rest, hrest⟩ := exists_pieces cs
        exact ⟨rest, .feed hp hrest⟩
    rw [h.unique (hfs.append hfront hrest), ← hlength, List.getElem?_append_right (Nat.le_refl _),
      Nat.sub_self]
    rfl

end Counting

section Returns

variable {p : List Char} {line : String}

/-- **At most one carriage return is dropped** from a piece, and nothing else. -/
theorem trimmedTo_iff : TrimmedTo p line ↔ String.ofList (dropReturn p) = line := by
  rw [dropReturn, TrimmedTo]
  constructor
  · rintro (rfl | ⟨rfl, hlast⟩)
    · rw [if_pos List.getLast?_concat, List.dropLast_concat, String.ofList_toList]
    · rw [if_neg hlast, String.ofList_toList]
  · rintro rfl
    rw [String.toList_ofList]
    split
    · rename_i hlast
      obtain ⟨before, rfl⟩ := List.getLast?_eq_some_iff.mp hlast
      exact Or.inl (by rw [List.dropLast_concat])
    · rename_i hlast
      exact Or.inr ⟨rfl, hlast⟩

theorem not_mem_of_trimmedTo (h : TrimmedTo p line) (hp : '\n' ∉ p) : '\n' ∉ line.toList := by
  rcases h with rfl | ⟨rfl, _⟩
  · exact fun hmem => hp (List.mem_append_left _ hmem)
  · exact hp

end Returns

section Lines

/-- The two ways to end a line. -/
inductive LineEnd where
  | feed
  | returnFeed
deriving DecidableEq, Repr

def LineEnd.chars : LineEnd → List Char
  | feed => ['\n']
  | returnFeed => ['\r', '\n']

/-- The text may stand on a line, as no line end is part of it. -/
def IsLine (l : String) : Prop :=
  '\n' ∉ l.toList ∧ l.toList.getLast? ≠ some '\r'

/-- The text of some lines, each with its line end, and of a last line without one. -/
def ended (ls : List (String × LineEnd)) (last : String) : String :=
  String.ofList (ls.flatMap (fun l => l.1.toList ++ l.2.chars) ++ last.toList)

/-- The lines of such a text: a last line that is empty is none. -/
def endedLines (ls : List (String × LineEnd)) (last : String) : List String :=
  ls.map Prod.fst ++ if last = "" then [] else [last]

variable {text : String}

/-- The lines of a program are the pieces of its text, trimmed. -/
theorem programLines_of_pieces {ps : List (List Char)} (h : Pieces text.toList ps) :
    programLines text = ps.map (String.ofList ∘ dropReturn) := by
  rw [programLines, h.splitOn_eq]

theorem trimmedTo_self {l : String} (hl : IsLine l) : TrimmedTo l.toList l :=
  Or.inr ⟨rfl, hl.2⟩

/-- The piece that a line with its line end is. -/
theorem exists_piece {l : String} (hl : IsLine l) (e : LineEnd) :
    ∃ p, l.toList ++ e.chars = p ++ ['\n'] ∧ '\n' ∉ p ∧ TrimmedTo p l := by
  cases e with
  | feed => exact ⟨l.toList, rfl, hl.1, trimmedTo_self hl⟩
  | returnFeed =>
      refine ⟨l.toList ++ ['\r'], by simp [LineEnd.chars], ?_, Or.inl rfl⟩
      rw [List.mem_append, List.mem_singleton]
      rintro (hmem | hreturn)
      · exact hl.1 hmem
      · cases hreturn

/-- **Lines that are written with line ends are read again.** -/
theorem programLines_ended {ls : List (String × LineEnd)} {last : String}
    (hls : ∀ l, l ∈ ls → IsLine l.1) (hlast : IsLine last) :
    programLines (ended ls last) = endedLines ls last := by
  obtain ⟨ps, hps, hmap⟩ : ∃ ps, Pieces (ended ls last).toList ps ∧
      ps.map (String.ofList ∘ dropReturn) = endedLines ls last := by
    rw [ended, String.toList_ofList]
    induction ls with
    | nil =>
        by_cases hempty : last = ""
        · subst hempty
          exact ⟨[], .nil, rfl⟩
        · have hne : last.toList ≠ [] := fun h => hempty (String.toList_injective h)
          refine ⟨[last.toList], .rest hne hlast.1, ?_⟩
          rw [endedLines, if_neg hempty]
          exact congrArg (fun l => [l]) (trimmedTo_iff.mp (trimmedTo_self hlast))
    | cons l ls ih =>
        obtain ⟨hl, hls⟩ := List.forall_mem_cons.mp hls
        obtain ⟨ps, hps, hmap⟩ := ih hls
        obtain ⟨p, hsplit, hp, htrimmed⟩ := exists_piece hl l.2
        refine ⟨p :: ps, ?_, ?_⟩
        · rw [List.flatMap_cons, hsplit, List.append_assoc, List.append_assoc]
          exact .feed hp hps
        · rw [List.map_cons, hmap, Function.comp_apply, trimmedTo_iff.mp htrimmed]
          rfl
  rw [programLines_of_pieces hps, hmap]

theorem getElem?_programLines_iff (text : String) {n : Nat} {line : String} :
    (programLines text)[n]? = some line ↔
      ∃ p, PieceAfter text.toList n p ∧ TrimmedTo p line := by
  obtain ⟨ps, h⟩ := exists_pieces text.toList
  rw [programLines_of_pieces h, List.getElem?_map, Option.map_eq_some_iff]
  simp only [h.getElem?_eq_some_iff, trimmedTo_iff, Function.comp_apply]

end Lines

end Text
end LineMachine
