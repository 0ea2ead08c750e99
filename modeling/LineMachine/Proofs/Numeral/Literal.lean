import LineMachine.Numeral.Decimal

/-!
# Literals and the digit limit

A word is read as an integer, is no literal, or is refused.  It is refused for one
reason only: it is a literal of more digits than are converted.  And what is read can
be written again, as a number has no more digits than the literal that it was read from.

**Input.**  A word.

**Results.**
* `Literal.ofWord?_eq_some_iff`: the literals are the signs followed by digits.
* `readWord_eq_error_iff`: the words that are refused are the oversized ones.
* `readWord_eq_some_iff`, `readWord_eq_none_iff`: the words that are read, and those that
  are no literals.
* `writable_of_readWord`: what has been read can be written.
-/

namespace LineMachine
namespace Numeral

/-- The word is a literal of `n` digits, and these are more than are converted. -/
def Oversized (w : String) (n : Nat) : Prop :=
  ∃ sign ds, w.toList = sign ++ ds ∧ (sign = [] ∨ sign = ['+'] ∨ sign = ['-']) ∧
    (∀ c, c ∈ ds → c.isDigit = true) ∧ ds.length = n ∧ digitLimit < n

/-- The word is a literal, whatever its length: one sign at most, then digits. -/
def IsLiteral (w : String) : Prop :=
  ∃ sign ds, w.toList = sign ++ ds ∧ (sign = [] ∨ sign = ['+'] ∨ sign = ['-']) ∧
    ds ≠ [] ∧ ∀ c, c ∈ ds → c.isDigit = true

/-- The word is a literal within the digit limit, and `n` is its value. -/
def Denotes (w : String) (n : Int) : Prop :=
  ∃ sign ds, w.toList = sign ++ ds ∧ (sign = [] ∨ sign = ['+'] ∨ sign = ['-']) ∧
    ds ≠ [] ∧ (∀ c, c ∈ ds → c.isDigit = true) ∧ ds.length ≤ digitLimit ∧
    n = if sign = ['-'] then -(Nat.ofDigitChars 10 ds 0 : Int) else Nat.ofDigitChars 10 ds 0

section Recognition

variable {cs ds : List Char} {l : Literal}

theorem not_isBlank_of_isDigit {c : Char} (hc : c.isDigit = true) : Text.isBlank c = false := by
  have hrange : 48 ≤ c.toNat ∧ c.toNat ≤ 57 := Char.isDigit_iff_toNat.mp hc
  simp only [Text.isBlank, Text.blankRanges, List.any_cons, List.any_nil, Bool.or_false,
    Bool.or_eq_false_iff, Bool.and_eq_false_iff, decide_eq_false_iff_not]
  omega

theorem isDigitRun_iff : isDigitRun ds = true ↔ ds ≠ [] ∧ ∀ c, c ∈ ds → c.isDigit = true := by
  simp [isDigitRun]

theorem isDigitRun_replicate {c : Char} (hc : c.isDigit = true) {n : Nat} (hn : 0 < n) :
    isDigitRun (List.replicate n c) = true := by
  refine isDigitRun_iff.mpr ⟨?_, fun d hd => ?_⟩
  · rintro hnil
    rw [List.replicate_eq_nil_iff] at hnil
    exact Nat.ne_of_gt hn hnil
  · rwa [List.eq_of_mem_replicate hd]

theorem Literal.ofDigits?_eq_some_iff {negative : Bool} :
    Literal.ofDigits? negative ds = some l ↔ isDigitRun ds = true ∧ l = ⟨negative, ds⟩ := by
  rw [Literal.ofDigits?]
  split
  · rename_i hds
    simp [hds, eq_comm]
  · rename_i hds
    simp [hds]

theorem Literal.ofWord?_of_isDigitRun (hds : isDigitRun ds = true) :
    Literal.ofWord? ds = some ⟨false, ds⟩ := by
  unfold Literal.ofWord?
  split
  · simp [isDigitRun] at hds
  · simp [isDigitRun] at hds
  · rw [Literal.ofDigits?, if_pos hds]

/-- **The literals are the signs followed by digits**; without a sign they stand for
the same integer as with a plus. -/
theorem Literal.ofWord?_eq_some_iff :
    Literal.ofWord? cs = some l ↔ isDigitRun l.digits = true ∧
      (cs = '-' :: l.digits ∧ l.negative = true ∨
        (cs = '+' :: l.digits ∨ cs = l.digits) ∧ l.negative = false) := by
  constructor
  · intro h
    unfold Literal.ofWord? at h
    split at h
    · obtain ⟨hdigits, rfl⟩ := Literal.ofDigits?_eq_some_iff.mp h
      exact ⟨hdigits, Or.inl ⟨rfl, rfl⟩⟩
    · obtain ⟨hdigits, rfl⟩ := Literal.ofDigits?_eq_some_iff.mp h
      exact ⟨hdigits, Or.inr ⟨Or.inl rfl, rfl⟩⟩
    · obtain ⟨hdigits, rfl⟩ := Literal.ofDigits?_eq_some_iff.mp h
      exact ⟨hdigits, Or.inr ⟨Or.inr rfl, rfl⟩⟩
  · obtain ⟨negative, ds⟩ := l
    rintro ⟨hdigits, ⟨rfl, rfl⟩ | ⟨rfl | rfl, rfl⟩⟩
    · exact Literal.ofDigits?_eq_some_iff.mpr ⟨hdigits, rfl⟩
    · exact Literal.ofDigits?_eq_some_iff.mpr ⟨hdigits, rfl⟩
    · exact Literal.ofWord?_of_isDigitRun hdigits

/-- A literal is told apart by its sign, which is there or not, and its digits. -/
theorem Literal.ofWord?_eq_some_iff_exists_sign :
    Literal.ofWord? cs = some l ↔
      ∃ sign, cs = sign ++ l.digits ∧ (sign = [] ∨ sign = ['+'] ∨ sign = ['-']) ∧
        isDigitRun l.digits = true ∧ l.negative = decide (sign = ['-']) := by
  rw [Literal.ofWord?_eq_some_iff]
  constructor
  · rintro ⟨hdigits, ⟨hcs, hl⟩ | ⟨hcs | hcs, hl⟩⟩
    · exact ⟨['-'], hcs, Or.inr (Or.inr rfl), hdigits, hl⟩
    · exact ⟨['+'], hcs, Or.inr (Or.inl rfl), hdigits, hl⟩
    · exact ⟨[], hcs, Or.inl rfl, hdigits, hl⟩
  · rintro ⟨sign, hcs, rfl | rfl | rfl, hdigits, hl⟩
    · exact ⟨hdigits, Or.inr ⟨Or.inr hcs, hl⟩⟩
    · exact ⟨hdigits, Or.inr ⟨Or.inl hcs, hl⟩⟩
    · exact ⟨hdigits, Or.inl ⟨hcs, hl⟩⟩

end Recognition

section Limit

variable {w : String}

/-- The oversized words are those that are recognised as literals of too many digits. -/
theorem oversized_iff {n : Nat} :
    Oversized w n ↔ ∃ l, Literal.ofWord? w.toList = some l ∧ l.digits.length = n ∧
      digitLimit < n := by
  constructor
  · rintro ⟨sign, ds, hw, hsign, hall, hlength, hover⟩
    have hdigits : isDigitRun ds = true := by
      refine isDigitRun_iff.mpr ⟨?_, hall⟩
      rintro rfl
      rw [← hlength] at hover
      exact Nat.not_lt_zero _ hover
    exact ⟨⟨decide (sign = ['-']), ds⟩,
      Literal.ofWord?_eq_some_iff_exists_sign.mpr ⟨sign, hw, hsign, hdigits, rfl⟩, hlength, hover⟩
  · rintro ⟨l, hword, hlength, hover⟩
    obtain ⟨sign, hw, hsign, hdigits, _⟩ := Literal.ofWord?_eq_some_iff_exists_sign.mp hword
    exact ⟨sign, l.digits, hw, hsign, (isDigitRun_iff.mp hdigits).2, hlength, hover⟩

/-- **The words that are refused are the oversized ones.** -/
theorem readWord_eq_error_iff {e : DigitLimit} :
    readWord w = .error e ↔ ∃ n, Oversized w n ∧ e = .reading n := by
  rw [readWord, readChars]
  constructor
  · intro h
    cases hword : Literal.ofWord? w.toList with
    | none =>
        rw [hword] at h
        cases h
    | some l =>
        rw [hword] at h
        dsimp only at h
        rw [Literal.value] at h
        split at h
        · cases h
        · rename_i hlimit
          cases h
          exact ⟨_, oversized_iff.mpr ⟨l, hword, rfl, Nat.lt_of_not_le hlimit⟩, rfl⟩
  · rintro ⟨n, hn, rfl⟩
    obtain ⟨l, hword, rfl, hover⟩ := oversized_iff.mp hn
    rw [hword]
    dsimp only
    rw [Literal.value, if_neg (Nat.not_le_of_lt hover)]
    rfl

theorem not_oversized_of_length_le {n : Nat} (hw : w.toList.length ≤ digitLimit) :
    ¬ Oversized w n := by
  rintro ⟨sign, ds, hsplit, _, _, rfl, hover⟩
  rw [hsplit, List.length_append] at hw
  omega

theorem exists_readWord (hw : ∀ n, ¬ Oversized w n) : ∃ number, readWord w = .ok number := by
  cases hread : readWord w with
  | ok number => exact ⟨number, rfl⟩
  | error e =>
      obtain ⟨n, hn, _⟩ := readWord_eq_error_iff.mp hread
      exact absurd hn (hw n)

/-- Digits within the limit are read as the number that they stand for. -/
theorem readWord_of_isDigitRun {ds : List Char} (hds : isDigitRun ds = true)
    (hlimit : ds.length ≤ digitLimit) :
    readWord (String.ofList ds) = .ok (some (Nat.ofDigitChars 10 ds 0)) := by
  rw [readWord, String.toList_ofList, readChars, Literal.ofWord?_of_isDigitRun hds]
  dsimp only
  rw [value_eq_ok hlimit]
  rfl

end Limit

section Value

variable {w : String}

theorem isLiteral_iff : IsLiteral w ↔ ∃ l, Literal.ofWord? w.toList = some l := by
  constructor
  · rintro ⟨sign, ds, hw, hsign, hdigits⟩
    exact ⟨⟨decide (sign = ['-']), ds⟩, Literal.ofWord?_eq_some_iff_exists_sign.mpr
      ⟨sign, hw, hsign, isDigitRun_iff.mpr hdigits, rfl⟩⟩
  · rintro ⟨l, hword⟩
    obtain ⟨sign, hw, hsign, hdigits, _⟩ := Literal.ofWord?_eq_some_iff_exists_sign.mp hword
    exact ⟨sign, l.digits, hw, hsign, isDigitRun_iff.mp hdigits⟩

theorem denotes_iff {n : Int} :
    Denotes w n ↔ ∃ l, Literal.ofWord? w.toList = some l ∧ l.digits.length ≤ digitLimit ∧
      n = l.toInt := by
  constructor
  · rintro ⟨sign, ds, hw, hsign, hne, hall, hlimit, hn⟩
    refine ⟨⟨decide (sign = ['-']), ds⟩, Literal.ofWord?_eq_some_iff_exists_sign.mpr
      ⟨sign, hw, hsign, isDigitRun_iff.mpr ⟨hne, hall⟩, rfl⟩, hlimit, ?_⟩
    rw [hn, Literal.toInt]
    simp only [decide_eq_true_eq]
  · rintro ⟨l, hword, hlimit, rfl⟩
    obtain ⟨sign, hw, hsign, hdigits, hl⟩ := Literal.ofWord?_eq_some_iff_exists_sign.mp hword
    obtain ⟨hne, hall⟩ := isDigitRun_iff.mp hdigits
    refine ⟨sign, l.digits, hw, hsign, hne, hall, hlimit, ?_⟩
    rw [Literal.toInt, hl]
    simp only [decide_eq_true_eq]

/-- **The words that are read are the literals within the limit**, with their values. -/
theorem readWord_eq_some_iff {n : Int} : readWord w = .ok (some n) ↔ Denotes w n := by
  rw [denotes_iff, readWord, readChars]
  cases hword : Literal.ofWord? w.toList with
  | none => simp
  | some l =>
      dsimp only
      rw [Literal.value]
      split
      · rename_i hlimit
        simp [Except.map, hlimit, eq_comm]
      · rename_i hlimit
        simp [Except.map, hlimit]

/-- **The words that are neither read nor refused are no literals.** -/
theorem readWord_eq_none_iff : readWord w = .ok none ↔ ¬ IsLiteral w := by
  rw [isLiteral_iff, readWord, readChars]
  cases hword : Literal.ofWord? w.toList with
  | none => simp
  | some l =>
      dsimp only
      rw [Literal.value]
      split <;> simp [Except.map]

end Value

section Writing

/-- Digits after a number add as many places to it. -/
theorem ofDigitChars_lt {ds : List Char} (hds : ∀ c, c ∈ ds → c.isDigit = true) (init : Nat) :
    Nat.ofDigitChars 10 ds init < (init + 1) * Nat.pow 10 ds.length := by
  induction ds generalizing init with
  | nil => simp [Nat.ofDigitChars]
  | cons c ds ih =>
      obtain ⟨hc, hds⟩ := List.forall_mem_cons.mp hds
      have hdigit : c.toNat - '0'.toNat ≤ 9 := by
        have hrange : 48 ≤ c.toNat ∧ c.toNat ≤ 57 := Char.isDigit_iff_toNat.mp hc
        have hzero : '0'.toNat = 48 := rfl
        omega
      calc Nat.ofDigitChars 10 (c :: ds) init
          = Nat.ofDigitChars 10 ds (10 * init + (c.toNat - '0'.toNat)) := Nat.ofDigitChars_cons
        _ < (10 * init + (c.toNat - '0'.toNat) + 1) * Nat.pow 10 ds.length := ih hds _
        _ ≤ (10 * (init + 1)) * Nat.pow 10 ds.length := Nat.mul_le_mul_right _ (by omega)
        _ = (init + 1) * Nat.pow 10 (c :: ds).length := by
          rw [List.length_cons, Nat.pow_eq, Nat.pow_eq, Nat.pow_succ, Nat.mul_comm 10,
            Nat.mul_assoc, Nat.mul_comm 10]

/-- A number below a power of ten has no more digits than the exponent. -/
theorem fitsIn_of_lt_pow {digits k n : Nat} (hk : k ≤ digits) (hn : n < Nat.pow 10 k) :
    fitsIn digits n = true :=
  (fitsIn_iff digits n).mpr (Nat.lt_of_lt_of_le hn (Nat.pow_le_pow_right (by decide) hk))

/-- **What has been read can be written.** -/
theorem writable_of_readWord {w : String} {n : Int} (h : readWord w = .ok (some n)) :
    writable n = true := by
  rw [readWord, readChars] at h
  cases hword : Literal.ofWord? w.toList with
  | none =>
      rw [hword] at h
      cases h
  | some l =>
      have hdigits := (isDigitRun_iff.mp (Literal.ofWord?_eq_some_iff.mp hword).1).2
      rw [hword] at h
      dsimp only at h
      rw [Literal.value] at h
      split at h
      · rename_i hlimit
        cases h
        have hlt := ofDigitChars_lt hdigits 0
        rw [Nat.zero_add, Nat.one_mul] at hlt
        have habs : l.toInt.natAbs = Nat.ofDigitChars 10 l.digits 0 := by
          rw [Literal.toInt]
          split
          · rw [Int.natAbs_neg, Int.natAbs_natCast]
          · rw [Int.natAbs_natCast]
        rw [writable, habs]
        exact fitsIn_of_lt_pow hlimit hlt
      · cases h

end Writing

end Numeral
end LineMachine
