/-!
# White space and words

A line of program text is read as a sequence of words, the maximal runs of
characters that are not white space.

**Input.**  Any sequence of characters.

**Algorithm.**  The text is split at every white space character; the pieces
that are not empty are the words.

**Results.**
* `mem_words`: a word is not empty and has no white space.
* `words_of_forall_not_isBlank`: a text without white space is one word.
* `words_append_blank`: white space ends one word and lets another begin.
* `trimBlank`: a text less the white space at both of its ends.
-/

namespace LineMachine
namespace Text

/-- The ranges of code points, both ends included and in increasing order, whose
characters are white space: the controls that move the cursor or separate
records, and every space and separator of the character set. -/
def blankRanges : List (Nat × Nat) :=
  [(0x09, 0x0D), (0x1C, 0x20), (0x85, 0x85), (0xA0, 0xA0), (0x1680, 0x1680),
    (0x2000, 0x200A), (0x2028, 0x2029), (0x202F, 0x202F), (0x205F, 0x205F),
    (0x3000, 0x3000)]

def isBlank (c : Char) : Bool :=
  blankRanges.any fun r => r.1 ≤ c.toNat && c.toNat ≤ r.2

def words (cs : List Char) : List (List Char) :=
  (cs.splitOnP isBlank).filter fun w => !w.isEmpty

def splitWords (s : String) : List String :=
  (words s.toList).map String.ofList

def trimBlank (s : String) : String :=
  String.ofList ((s.toList.dropWhile isBlank).reverse.dropWhile isBlank).reverse

@[simp] theorem words_nil : words [] = [] := by
  simp [words]

/-- White space ends one word and lets another begin. -/
theorem words_append_blank {c : Char} (hc : isBlank c = true) (cs ds : List Char) :
    words (cs ++ c :: ds) = words cs ++ words ds := by
  rw [words, List.splitOnP_append_cons cs ds hc, List.filter_append, words, words]

theorem words_cons_blank {c : Char} (hc : isBlank c = true) (cs : List Char) :
    words (c :: cs) = words cs := by
  simpa using words_append_blank hc [] cs

theorem words_of_forall_not_isBlank {w : List Char} (hw : w ≠ [])
    (h : ∀ c ∈ w, isBlank c = false) : words w = [w] := by
  rw [words, List.splitOnP_eq_singleton h]
  simp [hw]

theorem not_isBlank_of_mem_splitOnP {cs w : List Char} (hw : w ∈ cs.splitOnP isBlank) :
    ∀ c ∈ w, isBlank c = false := by
  induction cs generalizing w with
  | nil => simp_all
  | cons d ds ih =>
    rw [List.splitOnP_cons_eq_if_modifyHead] at hw
    split at hw
    · rcases List.mem_cons.1 hw with rfl | hw
      · simp
      · exact ih hw
    · rename_i hd
      cases hsplit : ds.splitOnP isBlank with
      | nil => exact absurd hsplit (List.splitOnP_ne_nil _ _)
      | cons v vs =>
        rw [hsplit] at hw ih
        rcases List.mem_cons.1 hw with rfl | hw
        · intro c hc
          rcases List.mem_cons.1 hc with rfl | hc
          · simpa using hd
          · exact ih List.mem_cons_self c hc
        · exact ih (List.mem_cons_of_mem v hw)

theorem mem_words {cs w : List Char} (h : w ∈ words cs) :
    w ≠ [] ∧ ∀ c ∈ w, isBlank c = false := by
  obtain ⟨hw, hne⟩ := List.mem_filter.1 h
  exact ⟨by simpa using hne, not_isBlank_of_mem_splitOnP hw⟩

end Text
end LineMachine
