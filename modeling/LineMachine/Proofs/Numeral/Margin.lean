import LineMachine.Proofs.Numeral.Literal
import LineMachine.Proofs.Text.Words

/-!
# Literals between margins

A literal may stand between margins.  It is looked for after the margin in front, where
the text up to the next white space is its only candidate; what comes after it decides
between a literal and none, but only once the candidate has been converted.  So a text
with an oversized literal in front is refused, whatever comes after.

**Input.**  Any text.

**Results.**
* `readMargined_append`: the reading of a word between a margin and white space.
* `readMargined_eq_error_iff`: the texts that are refused.
* `readMargined_eq_none_iff`: the texts that are neither read nor refused.
-/

namespace LineMachine
namespace Numeral

/-- The text is a literal between margins, whatever its length. -/
def IsMarginedLiteral (s : String) : Prop :=
  ∃ front w back, s.toList = front ++ (w.toList ++ back) ∧
    (∀ c, c ∈ front → isMargin c = true) ∧ (∀ c, c ∈ back → isMargin c = true) ∧ IsLiteral w

/-- After a margin the text goes on with a literal of `n` digits, which are more than are
converted, and this literal ends at white space or with the text. -/
def StartsOversized (s : String) (n : Nat) : Prop :=
  ∃ front w back, s.toList = front ++ (w.toList ++ back) ∧
    (∀ c, c ∈ front → isMargin c = true) ∧ Text.atBreak back = true ∧ Oversized w n

section Margins

variable {s w : String} {front back : List Char}

theorem isWord_of_isLiteral (hw : IsLiteral w) : Text.IsWord w := by
  obtain ⟨sign, ds, hsplit, hsign, hne, hdigits⟩ := hw
  rw [Text.IsWord, hsplit]
  refine ⟨by simp [hne], fun c hc => ?_⟩
  rcases List.mem_append.mp hc with hc | hc
  · rcases hsign with rfl | rfl | rfl
    · cases hc
    · rw [List.mem_singleton.mp hc]
      decide
    · rw [List.mem_singleton.mp hc]
      decide
  · exact not_isBlank_of_isDigit (hdigits c hc)

theorem Oversized.isLiteral {n : Nat} (hw : Oversized w n) : IsLiteral w := by
  obtain ⟨sign, ds, hsplit, hsign, hdigits, hlength, hover⟩ := hw
  refine ⟨sign, ds, hsplit, hsign, ?_, hdigits⟩
  rintro rfl
  rw [← hlength] at hover
  exact Nat.not_lt_zero _ hover

theorem atBreak_of_margins (hback : ∀ c, c ∈ back → isMargin c = true) :
    Text.atBreak back = true := by
  cases back with
  | nil => rfl
  | cons c back => exact Text.isBlank_of_isMargin (hback c List.mem_cons_self)

/-- A word between a margin and white space is converted before the margin after it is
looked at. -/
theorem readMargined_append (hs : s.toList = front ++ (w.toList ++ back))
    (hfront : ∀ c, c ∈ front → isMargin c = true) (hw : Text.IsWord w)
    (hback : Text.atBreak back = true) :
    readMargined s = (readWord w).map fun n => if back.all isMargin then n else none := by
  have hword : ∀ c, c ∈ w.toList → (!Text.isBlank c) = true := fun c hc => by
    rw [hw.2 c hc]
    rfl
  have hmargin : s.toList.dropWhile isMargin = w.toList ++ back := by
    rw [hs, List.dropWhile_append_of_pos hfront, Text.dropWhile_isMargin_append hw]
  have hend : back.takeWhile (fun c => !Text.isBlank c) = [] ∧
      back.dropWhile (fun c => !Text.isBlank c) = back := by
    cases back with
    | nil => exact ⟨rfl, rfl⟩
    | cons c back =>
        have hc : Text.isBlank c = true := hback
        simp [hc]
  rw [readMargined, hmargin, List.takeWhile_append_of_pos hword,
    List.dropWhile_append_of_pos hword, hend.1, hend.2, List.append_nil, readWord]
  cases readChars w.toList <;> rfl

/-- Any text is a margin, the candidate for a literal, and what comes from the next white
space on. -/
theorem exists_candidate (s : String) :
    ∃ front w back, s.toList = front ++ (w.toList ++ back) ∧
      (∀ c, c ∈ front → isMargin c = true) ∧ Text.atBreak back = true ∧
      readMargined s = (readWord w).map fun n => if back.all isMargin then n else none := by
  refine ⟨s.toList.takeWhile isMargin,
    String.ofList ((s.toList.dropWhile isMargin).takeWhile fun c => !Text.isBlank c),
    (s.toList.dropWhile isMargin).dropWhile fun c => !Text.isBlank c, ?_, ?_, ?_, ?_⟩
  · rw [String.toList_ofList, List.takeWhile_append_dropWhile, List.takeWhile_append_dropWhile]
  · exact fun c hc => List.mem_takeWhile_imp hc
  · cases hrest : (s.toList.dropWhile isMargin).dropWhile fun c => !Text.isBlank c with
    | nil => rfl
    | cons c cs =>
        have hstop := List.head?_dropWhile_not (fun c => !Text.isBlank c)
          (s.toList.dropWhile isMargin)
        rw [hrest] at hstop
        show Text.isBlank c = true
        simpa using hstop
  · rw [readMargined, readWord, String.toList_ofList]
    cases readChars _ <;> rfl

/-- **The texts that are refused** go on after the margin with an oversized literal. -/
theorem readMargined_eq_error_iff {e : DigitLimit} :
    readMargined s = .error e ↔ ∃ n, StartsOversized s n ∧ e = .reading n := by
  constructor
  · intro h
    obtain ⟨front, w, back, hs, hfront, hback, hread⟩ := exists_candidate s
    rw [hread] at h
    cases hword : readWord w with
    | error e' =>
        rw [hword] at h
        cases h
        obtain ⟨n, hover, rfl⟩ := readWord_eq_error_iff.mp hword
        exact ⟨n, ⟨front, w, back, hs, hfront, hback, hover⟩, rfl⟩
    | ok number =>
        rw [hword] at h
        cases h
  · rintro ⟨n, ⟨front, w, back, hs, hfront, hback, hover⟩, rfl⟩
    rw [readMargined_append hs hfront (isWord_of_isLiteral hover.isLiteral) hback,
      readWord_eq_error_iff.mpr ⟨n, hover, rfl⟩]
    rfl

theorem not_startsOversized {number : Option Int} (h : readMargined s = .ok number) (n : Nat) :
    ¬ StartsOversized s n := by
  intro hn
  rw [readMargined_eq_error_iff.mpr ⟨n, hn, rfl⟩] at h
  cases h

/-- What is read is a literal between margins. -/
theorem isMarginedLiteral_of_readMargined {n : Int} (h : readMargined s = .ok (some n)) :
    IsMarginedLiteral s := by
  obtain ⟨front, w, back, hs, hfront, hback, hread⟩ := exists_candidate s
  rw [hread] at h
  cases hword : readWord w with
  | error e =>
      rw [hword] at h
      cases h
  | ok number =>
      rw [hword, Except.map] at h
      split at h
      · rename_i hall
        cases h
        refine ⟨front, w, back, hs, hfront, List.all_eq_true.mp hall, ?_⟩
        by_contra hnone
        rw [readWord_eq_none_iff.mpr hnone] at hword
        cases hword
      · cases h

/-- **The texts that are neither read nor refused** are no literals between margins, and
none with an oversized literal in front. -/
theorem readMargined_eq_none_iff :
    readMargined s = .ok none ↔ ¬ IsMarginedLiteral s ∧ ∀ n, ¬ StartsOversized s n := by
  constructor
  · refine fun h => ⟨?_, not_startsOversized h⟩
    rintro ⟨front, w, back, hs, hfront, hback, hw⟩
    rw [readMargined_append hs hfront (isWord_of_isLiteral hw) (atBreak_of_margins hback)] at h
    cases hword : readWord w with
    | error e =>
        rw [hword] at h
        cases h
    | ok number =>
        rw [hword, Except.map, if_pos (List.all_eq_true.mpr hback)] at h
        cases h
        exact readWord_eq_none_iff.mp hword hw
  · rintro ⟨hnone, hsize⟩
    cases hread : readMargined s with
    | error e =>
        obtain ⟨n, hn, _⟩ := readMargined_eq_error_iff.mp hread
        exact absurd hn (hsize n)
    | ok number =>
        cases number with
        | none => rfl
        | some n => exact absurd (isMarginedLiteral_of_readMargined hread) hnone

end Margins

end Numeral
end LineMachine
