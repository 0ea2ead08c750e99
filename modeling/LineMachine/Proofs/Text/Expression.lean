import LineMachine.Proofs.Numeral.Literal
import LineMachine.Proofs.Text.Pattern

/-!
# Expressions

The expressions that the grammar of instructions is made of.  Each of them matches one
whole word, if any: what it leaves is at a break.

**Input.**  A word, and what follows it in a text.

**Results.**
* `exactly_append`: a text begins with one word only.
* `wordChars_append`: any word is matched, up to the break.
* `signedDigits_append`: the words that are signed digits are the literals.
* `toList_intercalate`: words joined by spaces are the first word and the `spaced` others.
* `splitWords_intercalate`: words that are joined by spaces are found again.
-/

namespace LineMachine
namespace Text

section Expressions

/-- These characters, as a whole word. -/
def exactly (w : List Char) : Expression := fun cs =>
  if w.isPrefixOf cs && atBreak (cs.drop w.length) then some (w, cs.drop w.length) else none

/-- As many characters as are not white space, and one at least. -/
def wordChars : Expression := fun cs =>
  match cs.takeWhile fun c => !isBlank c with
  | [] => none
  | w => some (w, cs.dropWhile fun c => !isBlank c)

/-- The sign that a text begins with, and what follows it. -/
def splitSign : List Char → List Char × List Char
  | '-' :: cs => (['-'], cs)
  | '+' :: cs => (['+'], cs)
  | cs => ([], cs)

/-- One sign at most, and one digit at least, as a whole word.  No fewer digits than there
are can be followed by a break. -/
def signedDigits : Expression := fun cs =>
  let (sign, unsigned) := splitSign cs
  let digits := unsigned.takeWhile Char.isDigit
  let rest := unsigned.dropWhile Char.isDigit
  if !digits.isEmpty && atBreak rest then some (sign ++ digits, rest) else none

variable {v w rest : List Char}

theorem takeWhile_word (hw : ∀ c, c ∈ w → isBlank c = false)
    (hrest : atBreak rest = true) :
    (w ++ rest).takeWhile (fun c => !isBlank c) = w := by
  rw [List.takeWhile_append_of_pos fun c hc => by rw [hw c hc]; rfl]
  cases rest with
  | nil => rw [List.takeWhile_nil, List.append_nil]
  | cons c cs =>
      have hc : isBlank c = true := hrest
      rw [List.takeWhile_cons_of_neg (by simp [hc]), List.append_nil]

theorem dropWhile_word (hw : ∀ c, c ∈ w → isBlank c = false)
    (hrest : atBreak rest = true) :
    (w ++ rest).dropWhile (fun c => !isBlank c) = rest := by
  rw [List.dropWhile_append_of_pos fun c hc => by rw [hw c hc]; rfl]
  cases rest with
  | nil => rw [List.dropWhile_nil]
  | cons c cs =>
      have hc : isBlank c = true := hrest
      rw [List.dropWhile_cons_of_neg (by simp [hc])]

/-- A text begins with one word only. -/
theorem exactly_append (hv : ∀ c, c ∈ v → isBlank c = false)
    (hw : ∀ c, c ∈ w → isBlank c = false) (hrest : atBreak rest = true) :
    exactly v (w ++ rest) = if v = w then some (v, rest) else none := by
  rw [exactly]
  by_cases hvw : v = w
  · subst hvw
    rw [List.drop_left, hrest, List.isPrefixOf_iff_prefix.mpr (List.prefix_append v rest)]
    simp
  · rw [if_neg hvw, if_neg]
    intro h
    rw [Bool.and_eq_true, List.isPrefixOf_iff_prefix] at h
    obtain ⟨⟨rest', happend⟩, hbreak⟩ := h
    rw [← happend, List.drop_left] at hbreak
    refine hvw ?_
    rw [← takeWhile_word hv hbreak, happend, takeWhile_word hw hrest]

theorem wordChars_append (hne : w ≠ []) (hw : ∀ c, c ∈ w → isBlank c = false)
    (hrest : atBreak rest = true) : wordChars (w ++ rest) = some (w, rest) := by
  rw [wordChars, takeWhile_word hw hrest, dropWhile_word hw hrest]
  cases w with
  | nil => exact absurd rfl hne
  | cons c cs => rfl

theorem splitSign_append (hne : w ≠ []) :
    splitSign (w ++ rest) = ((splitSign w).1, (splitSign w).2 ++ rest) := by
  cases w with
  | nil => exact absurd rfl hne
  | cons c cs =>
      by_cases hminus : c = '-'
      · subst hminus
        rfl
      · by_cases hplus : c = '+'
        · subst hplus
          rfl
        · simp [splitSign, hminus, hplus]

theorem splitSign_eq (w : List Char) : (splitSign w).1 ++ (splitSign w).2 = w := by
  unfold splitSign
  split <;> rfl

/-- The word is a literal if all after its sign is digits. -/
theorem isSome_ofWord? (w : List Char) :
    (Numeral.Literal.ofWord? w).isSome = Numeral.isDigitRun (splitSign w).2 := by
  unfold Numeral.Literal.ofWord? splitSign
  split
  all_goals
    rw [Numeral.Literal.ofDigits?]
    split <;> simp_all

/-- No digit stands at a break. -/
theorem takeWhile_isDigit_append (hw : ∀ c, c ∈ w → c.isDigit = true)
    (hrest : atBreak rest = true) :
    (w ++ rest).takeWhile Char.isDigit = w ∧ (w ++ rest).dropWhile Char.isDigit = rest := by
  rw [List.takeWhile_append_of_pos hw, List.dropWhile_append_of_pos hw]
  cases rest with
  | nil => simp
  | cons c cs =>
      have hc : ¬ c.isDigit = true := by
        intro hdigit
        have hblank : isBlank c = true := hrest
        rw [Numeral.not_isBlank_of_isDigit hdigit] at hblank
        cases hblank
      rw [List.takeWhile_cons_of_neg hc, List.dropWhile_cons_of_neg hc, List.append_nil]
      exact ⟨rfl, rfl⟩

/-- The digits of a word that are followed by something else are followed by no break. -/
theorem atBreak_dropWhile_isDigit (hw : ∀ c, c ∈ w → isBlank c = false)
    (hdigits : ¬ ∀ c, c ∈ w → c.isDigit = true) :
    atBreak ((w ++ rest).dropWhile Char.isDigit) = false := by
  rw [List.dropWhile_append]
  cases hdrop : w.dropWhile Char.isDigit with
  | nil => exact absurd (List.dropWhile_eq_nil_iff.mp hdrop) hdigits
  | cons c cs =>
      have hmem : c ∈ w := (List.dropWhile_sublist Char.isDigit).subset
        (by rw [hdrop]; exact List.mem_cons_self)
      exact hw c hmem

/-- The words that are signed digits are the literals. -/
theorem signedDigits_append (hne : w ≠ []) (hw : ∀ c, c ∈ w → isBlank c = false)
    (hrest : atBreak rest = true) :
    signedDigits (w ++ rest) =
      if (Numeral.Literal.ofWord? w).isSome then some (w, rest) else none := by
  have hsplit := splitSign_eq w
  rw [signedDigits, splitSign_append hne, isSome_ofWord?]
  generalize (splitSign w).1 = sign at hsplit ⊢
  generalize (splitSign w).2 = unsigned at hsplit ⊢
  dsimp only
  by_cases hdigits : ∀ c, c ∈ unsigned → c.isDigit = true
  · obtain ⟨htake, hdrop⟩ := takeWhile_isDigit_append hdigits hrest
    have hrun : Numeral.isDigitRun unsigned = !unsigned.isEmpty := by
      rw [Numeral.isDigitRun, List.all_eq_true.mpr hdigits, Bool.and_true]
    rw [htake, hdrop, hrest, hrun, Bool.and_true, hsplit]
  · have hunsigned : ∀ c, c ∈ unsigned → isBlank c = false := fun c hc =>
      hw c (by rw [← hsplit]; exact List.mem_append_right sign hc)
    have hrun : ¬ Numeral.isDigitRun unsigned = true := fun h =>
      hdigits (Numeral.isDigitRun_iff.mp h).2
    rw [atBreak_dropWhile_isDigit hunsigned hdigits, Bool.and_false, if_neg hrun]
    rfl

end Expressions

theorem isWord_of_isDigitRun {ds : List Char} (hds : Numeral.isDigitRun ds = true) :
    IsWord (String.ofList ds) := by
  obtain ⟨hne, hall⟩ := Numeral.isDigitRun_iff.mp hds
  rw [IsWord, String.toList_ofList]
  exact ⟨hne, fun c hc => Numeral.not_isBlank_of_isDigit (hall c hc)⟩

section Spaced

/-- The words, each after a space. -/
def spaced (ws : List String) : List Char :=
  ws.flatMap fun w => ' ' :: w.toList

variable {w : String} {ws : List String}

theorem toList_intercalate (w : String) (ws : List String) :
    (" ".intercalate (w :: ws)).toList = w.toList ++ spaced ws := by
  rw [String.toList_intercalate]
  induction ws generalizing w with
  | nil => simp [spaced]
  | cons v ws ih =>
      rw [List.map_cons, List.map_cons, List.intercalate_cons_cons, ← List.map_cons, ih v]
      simp [spaced]

theorem atBreak_spaced (ws : List String) : atBreak (spaced ws) = true := by
  cases ws with
  | nil => rfl
  | cons w ws =>
      have hspace : isBlank ' ' = true := by decide
      exact hspace

/-- Words that are joined by spaces are found again. -/
theorem splitWords_intercalate (hws : ∀ v, v ∈ ws → IsWord v) :
    splitWords (" ".intercalate ws) = ws := by
  have hspaced : ∀ vs : List String, (∀ v, v ∈ vs → IsWord v) →
      words (spaced vs) = vs.map String.toList := by
    intro vs hvs
    induction vs with
    | nil => exact words_nil
    | cons v vs ih =>
        obtain ⟨hv, hvs⟩ := List.forall_mem_cons.mp hvs
        have hcons : spaced (v :: vs) = ' ' :: (v.toList ++ spaced vs) := rfl
        rw [hcons, words_cons_blank (by decide), words_append hv.1 hv.2 (atBreak_spaced vs),
          ih hvs, List.map_cons]
  have hwords : words (" ".intercalate ws).toList = ws.map String.toList := by
    cases ws with
    | nil => exact words_nil
    | cons w ws =>
        obtain ⟨hw, hws⟩ := List.forall_mem_cons.mp hws
        rw [toList_intercalate, words_append hw.1 hw.2 (atBreak_spaced ws), hspaced ws hws,
          List.map_cons]
  exact (splits_toList_iff.mp (splits_iff.mpr hwords)).symm

theorem length_spaced_lt (w : String) (ws : List String) :
    (spaced ws).length < (spaced (w :: ws)).length := by
  rw [spaced, spaced, List.flatMap_cons, List.length_append, List.length_cons]
  omega

theorem dropWhile_isMargin_spaced (hw : IsWord w) (ws : List String) :
    (spaced (w :: ws)).dropWhile Numeral.isMargin = w.toList ++ spaced ws := by
  have hspace : Numeral.isMargin ' ' = true := by decide
  have hspaced : spaced (w :: ws) = ' ' :: (w.toList ++ spaced ws) := rfl
  rw [hspaced, List.dropWhile_cons_of_pos hspace, dropWhile_isMargin_append hw]

/-- Only margins are left if no words are. -/
theorem all_isMargin_spaced (hws : ∀ v, v ∈ ws → IsWord v) :
    (spaced ws).all Numeral.isMargin = ws.isEmpty := by
  cases ws with
  | nil => rfl
  | cons w ws =>
      obtain ⟨hne, hblank⟩ := hws w List.mem_cons_self
      obtain ⟨c, hc⟩ := List.exists_mem_of_ne_nil _ hne
      rw [List.isEmpty_cons, List.all_eq_false]
      refine ⟨c, ?_, fun hmargin => ?_⟩
      · exact List.mem_cons_of_mem _ (List.mem_append_left _ hc)
      · have hc' := hblank c hc
        rw [isBlank_of_isMargin hmargin] at hc'
        cases hc'

end Spaced

end Text
end LineMachine
