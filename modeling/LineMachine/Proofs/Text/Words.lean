import LineMachine.Numeral.Decimal
import Mathlib.Data.List.TakeWhile

/-!
# The words of a text

A text is a row of words and white space.  A word ends at the end of the text or before
white space, so it is as long as it can be; white space parts words and means nothing
else, however much of it there is and of whatever kind.

**Input.**  Any sequence of characters.

**Results.**
* `splits_iff`, `splits_toList_iff`: splitting a text gives its words and nothing else.
* `splitWords_joinWords`: words that are set apart by spaces are found again.
* `readMargined_of_isWord`: a word has no margins.
-/

namespace LineMachine
namespace Text

/-- The text is at its end or at white space. -/
def atBreak : List Char → Bool
  | [] => true
  | c :: _ => isBlank c

/-- The text has these words, in order. -/
inductive Splits : List Char → List (List Char) → Prop
  | nil : Splits [] []
  | blank {c : Char} {cs : List Char} {ws : List (List Char)} (hc : isBlank c = true)
      (h : Splits cs ws) : Splits (c :: cs) ws
  | word {w cs : List Char} {ws : List (List Char)} (hne : w ≠ [])
      (hw : ∀ c, c ∈ w → isBlank c = false)
      (hend : atBreak cs = true) (h : Splits cs ws) : Splits (w ++ cs) (w :: ws)

/-- A word before the end of the text or before white space is the first word. -/
theorem words_append {w cs : List Char} (hne : w ≠ []) (hw : ∀ c, c ∈ w → isBlank c = false)
    (hend : atBreak cs = true) :
    words (w ++ cs) = w :: words cs := by
  cases cs with
  | nil => rw [List.append_nil, words_nil, words_of_forall_not_isBlank hne hw]
  | cons c cs =>
      have hc : isBlank c = true := hend
      rw [words_append_blank hc, words_cons_blank hc, words_of_forall_not_isBlank hne hw]
      rfl

theorem Splits.words_eq {cs : List Char} {ws : List (List Char)} (h : Splits cs ws) :
    words cs = ws := by
  induction h with
  | nil => exact words_nil
  | blank hc _ ih => rw [words_cons_blank hc, ih]
  | word hne hw hend _ ih => rw [words_append hne hw hend, ih]

/-- Every text has words: a character that is not white space opens a word, or lengthens
the one that the rest of the text begins with. -/
theorem exists_splits (cs : List Char) : ∃ ws, Splits cs ws := by
  induction cs with
  | nil => exact ⟨[], .nil⟩
  | cons c cs ih =>
      obtain ⟨ws, h⟩ := ih
      by_cases hc : isBlank c = true
      · exact ⟨ws, .blank hc h⟩
      · have hword : ∀ d, d ∈ [c] → isBlank d = false := by simpa using hc
        cases h with
        | nil => exact ⟨[[c]], .word (by simp) hword rfl .nil⟩
        | blank hd h => exact ⟨[c] :: ws, .word (by simp) hword hd (.blank hd h)⟩
        | @word w cs ws hne hw hend h =>
            have hw' : ∀ d, d ∈ c :: w → isBlank d = false := by
              rw [List.forall_mem_cons]
              exact ⟨by simpa using hc, hw⟩
            exact ⟨(c :: w) :: ws, .word (by simp) hw' hend h⟩

/-- **Splitting a text gives its words** and nothing else. -/
theorem splits_iff {cs : List Char} {ws : List (List Char)} : Splits cs ws ↔ words cs = ws := by
  constructor
  · exact Splits.words_eq
  · rintro rfl
    obtain ⟨ws, h⟩ := exists_splits cs
    rwa [h.words_eq]

/-- A line has one sequence of words. -/
theorem splits_toList_iff {line : String} {ws : List String} :
    Splits line.toList (ws.map String.toList) ↔ ws = splitWords line := by
  rw [splits_iff, splitWords]
  constructor
  · intro h
    rw [h, List.map_map]
    exact (List.map_id'' (fun w => String.ofList_toList) ws).symm
  · rintro rfl
    rw [List.map_map]
    exact (List.map_id'' (fun w => String.toList_ofList) (words line.toList)).symm

/-- The text is not empty and has no white space. -/
def IsWord (w : String) : Prop :=
  w.toList ≠ [] ∧ ∀ c, c ∈ w.toList → isBlank c = false

-- The characters of the word are tried, not all that there are.
instance (w : String) : Decidable (IsWord w) :=
  @instDecidableAnd _ _ inferInstance (List.decidableBAll (fun c => isBlank c = false) w.toList)

/-- A line of some words. -/
def joinWords (ws : List String) : String :=
  String.ofList (ws.flatMap fun w => w.toList ++ [' '])

theorem isWord_of_mem_splitWords {line w : String} (hw : w ∈ splitWords line) : IsWord w := by
  obtain ⟨cs, hcs, rfl⟩ := List.mem_map.mp hw
  obtain ⟨hne, hblank⟩ := mem_words hcs
  rw [IsWord, String.toList_ofList]
  exact ⟨hne, hblank⟩

theorem splitWords_joinWords {ws : List String} (hws : ∀ w, w ∈ ws → IsWord w) :
    splitWords (joinWords ws) = ws := by
  have hwords : words (ws.flatMap fun w => w.toList ++ [' ']) = ws.map String.toList := by
    induction ws with
    | nil => exact words_nil
    | cons w ws ih =>
        obtain ⟨hw, hws⟩ := List.forall_mem_cons.mp hws
        rw [List.flatMap_cons, List.append_assoc, List.singleton_append,
          words_append_blank (by decide), words_of_forall_not_isBlank hw.1 hw.2, ih hws]
        rfl
  rw [splitWords, joinWords, String.toList_ofList, hwords, List.map_map]
  exact List.map_id'' (fun w => String.ofList_toList) ws

theorem isBlank_of_isMargin {c : Char} (hc : Numeral.isMargin c = true) : isBlank c = true := by
  simp only [Numeral.isMargin, Bool.or_eq_true, beq_iff_eq] at hc
  rcases hc with ((rfl | rfl) | rfl) | rfl
  · decide
  · decide
  · decide
  · decide

/-- No margin stands before a word. -/
theorem dropWhile_isMargin_append {w : String} (hw : IsWord w) (cs : List Char) :
    (w.toList ++ cs).dropWhile Numeral.isMargin = w.toList ++ cs := by
  cases hcs : w.toList with
  | nil => exact absurd hcs hw.1
  | cons d ds =>
      refine List.dropWhile_cons_of_neg fun hd => ?_
      have hblank := hw.2 d (by rw [hcs]; exact List.mem_cons_self)
      rw [isBlank_of_isMargin hd] at hblank
      cases hblank

/-- A word has no margins. -/
theorem readMargined_of_isWord {w : String} (hw : IsWord w) :
    Numeral.readMargined w = Numeral.readWord w := by
  have hmargin : w.toList.dropWhile Numeral.isMargin = w.toList := by
    simpa using dropWhile_isMargin_append hw []
  have hword : ∀ c, c ∈ w.toList → (!isBlank c) = true := fun c hc => by
    rw [hw.2 c hc]
    rfl
  rw [Numeral.readMargined, hmargin, List.takeWhile_eq_self_iff.mpr hword,
    List.dropWhile_eq_nil_iff.mpr hword, Numeral.readWord]
  cases Numeral.readChars w.toList <;> rfl

end Text
end LineMachine
