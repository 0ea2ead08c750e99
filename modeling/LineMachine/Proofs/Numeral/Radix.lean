import LineMachine.Numeral.Radix
import LineMachine.Proofs.Numeral.Written

/-!
# Integers with a radix mark and their texts

A text with an optional radix mark is read in the radix of its mark.  The text of an integer
has no mark: it begins with a zero only if it is zero, which is zero in every radix.  So it
is read as the integer that it is the text of.

**Input.**  An integer that has not too many digits to be written.

**Results.**
* `toDigits_eq_zero_cons`: no digits follow a zero in front of a number.
* `readRadix?_decimal`: a sign and decimal digits are read as the number that they stand for.
* `readMarked?_intText`: the text of an integer is read as this integer.
-/

namespace LineMachine
namespace Numeral

section Digits

variable {c : Char} {ds : List Char}

theorem decimal_digit? (hc : c.isDigit = true) :
    Radix.decimal.digit? c = some (c.toNat - '0'.toNat) := by
  have hlt : c.toNat - 0x30 < 10 := by
    have hrange : 48 ≤ c.toNat ∧ c.toNat ≤ 57 := Char.isDigit_iff_toNat.mp hc
    omega
  rw [Radix.digit?, alphanumericValue?, if_pos hc]
  exact Option.filter_some_pos (decide_eq_true hlt)

/-- Digits without underscores are valued one by one. -/
theorem separatedDigits?_of_isDigit {afterDigit : Bool} (hafter : afterDigit = true ∨ ds ≠ [])
    (hds : ∀ c, c ∈ ds → c.isDigit = true) :
    separatedDigits? .decimal afterDigit ds = some (ds.map fun c => c.toNat - '0'.toNat) := by
  induction ds generalizing afterDigit with
  | nil =>
      obtain rfl := hafter.resolve_right fun hne => hne rfl
      rfl
  | cons c ds ih =>
      obtain ⟨hc, hds⟩ := List.forall_mem_cons.mp hds
      have hunderscore : c ≠ '_' := by
        rintro rfl
        exact absurd hc (by decide)
      rw [separatedDigits?, if_neg hunderscore, decimal_digit? hc, ih (Or.inl rfl) hds]
      rfl

theorem positionalValue_map (ds : List Char) :
    positionalValue 10 (ds.map fun c => c.toNat - '0'.toNat) = Nat.ofDigitChars 10 ds 0 := by
  rw [positionalValue, List.foldl_map]
  rfl

/-- No digits follow a zero in front of a number. -/
theorem toDigits_eq_zero_cons {n : Nat} (h : Nat.toDigits 10 n = '0' :: ds) : ds = [] := by
  refine Classical.byContradiction fun hne => ?_
  have hvalue : n = Nat.ofDigitChars 10 ds 0 := by
    calc n = Nat.ofDigitChars 10 (Nat.toDigits 10 n) 0 :=
          (Nat.ofDigitChars_toDigits (by decide) (by decide)).symm
      _ = Nat.ofDigitChars 10 ds 0 := by rw [h, Nat.ofDigitChars_cons]; rfl
  have hds : ∀ c, c ∈ ds → c.isDigit = true := by
    intro c hc
    have hmem : c ∈ Nat.toDigits 10 n := h ▸ List.mem_cons_of_mem '0' hc
    exact Nat.isDigit_of_mem_toDigits (by decide) (by decide) hmem
  have hlt := ofDigitChars_lt hds 0
  rw [Nat.zero_add, Nat.one_mul, ← hvalue, Nat.pow_eq] at hlt
  -- the digits after the zero would be enough for the number
  have hlength := (Nat.length_toDigits_le_iff (by decide) (List.length_pos_iff.mpr hne)).mpr hlt
  rw [h, List.length_cons] at hlength
  exact Nat.not_succ_le_self _ hlength

end Digits

section Reading

variable {cs ds : List Char} {n : Int}

theorem foldToAscii_of_isNumeralChar {c : Char} (hc : isNumeralChar c = true) :
    foldToAscii c = c := by
  have hascii : c.toNat < 0x80 := by
    rcases Bool.or_eq_true_iff.mp hc with hminus | hdigit
    · rw [eq_of_beq hminus]
      decide
    · have hrange : 48 ≤ c.toNat ∧ c.toNat ≤ 57 := Char.isDigit_iff_toNat.mp hdigit
      omega
  rw [foldToAscii, if_pos hascii]

theorem isAsciiSpace_of_isNumeralChar {c : Char} (hc : isNumeralChar c = true) :
    isAsciiSpace c = false := by
  rcases Bool.or_eq_true_iff.mp hc with hminus | hdigit
  · rw [eq_of_beq hminus]
    decide
  · have hrange : 48 ≤ c.toNat ∧ c.toNat ≤ 57 := Char.isDigit_iff_toNat.mp hdigit
    have hblank : c ≠ ' ' := by
      rintro rfl
      exact absurd hdigit (by decide)
    simp only [isAsciiSpace, Bool.or_eq_false_iff, Bool.and_eq_false_iff, beq_eq_false_iff_ne,
      decide_eq_false_iff_not]
    exact ⟨hblank, Or.inr (by omega)⟩

theorem dropWhile_isAsciiSpace (hcs : ∀ c, c ∈ cs → isNumeralChar c = true) :
    cs.dropWhile isAsciiSpace = cs := by
  cases cs with
  | nil => rfl
  | cons c cs =>
      exact List.dropWhile_cons_of_neg
        (Bool.eq_false_iff.mp (isAsciiSpace_of_isNumeralChar (hcs c List.mem_cons_self)))

/-- Digits and a minus are ASCII characters and no spaces. -/
theorem trimmed_eq (hcs : ∀ c, c ∈ cs → isNumeralChar c = true) :
    (((cs.map foldToAscii).dropWhile isAsciiSpace).reverse.dropWhile isAsciiSpace).reverse =
      cs := by
  have hfold : cs.map foldToAscii = cs :=
    (List.map_congr_left fun c hc => foldToAscii_of_isNumeralChar (hcs c hc)).trans (List.map_id cs)
  rw [hfold, dropWhile_isAsciiSpace hcs, dropWhile_isAsciiSpace, List.reverse_reverse]
  exact fun c hc => hcs c (List.mem_reverse.mp hc)

theorem splitSign_append (negative : Bool) (hds : isDigitRun ds = true) :
    splitSign ((if negative then ['-'] else []) ++ ds) = (negative, ds) := by
  cases negative with
  | true => rfl
  | false =>
      show splitSign ds = (false, ds)
      unfold splitSign
      split
      · simp [isDigitRun] at hds
      · simp [isDigitRun] at hds
      · rfl

/-- The decimal radix has no mark of its own. -/
theorem dropOwnMark_decimal (cs : List Char) : dropOwnMark .decimal cs = cs := by
  unfold dropOwnMark
  split
  · rfl
  · rfl

/-- A minus or no sign, and digits within the limit, are read as the number that they stand
for. -/
theorem readRadix?_decimal (negative : Bool) (hds : isDigitRun ds = true)
    (hlimit : ds.length ≤ digitLimit) :
    readRadix? .decimal ((if negative then ['-'] else []) ++ ds) =
      some (if negative then -(Nat.ofDigitChars 10 ds 0 : Int) else Nat.ofDigitChars 10 ds 0) := by
  obtain ⟨hne, hdigits⟩ := isDigitRun_iff.mp hds
  have hchars : ∀ c, c ∈ (if negative then ['-'] else []) ++ ds → isNumeralChar c = true := by
    intro c hc
    rcases List.mem_append.mp hc with hsign | hdigit
    · cases negative with
      | true =>
          obtain rfl := List.mem_singleton.mp hsign
          rfl
      | false => cases hsign
    · rw [isNumeralChar, hdigits c hdigit, Bool.or_true]
  have hread : separatedDigits? .decimal false ds = _ :=
    separatedDigits?_of_isDigit (Or.inr hne) hdigits
  rw [readRadix?, trimmed_eq hchars, splitSign_append negative hds]
  simp only [dropOwnMark_decimal, hread, Option.bind_eq_bind, Option.bind_some, List.length_map,
    Nat.not_lt.mpr hlimit, and_false, if_false, Radix.base, positionalValue_map]
  rfl

theorem toList_intText (n : Int) :
    (intText n).toList = (if decide (n < 0) then ['-'] else []) ++ Nat.toDigits 10 n.natAbs := by
  rw [intText, String.toList_ofList]
  simp only [decide_eq_true_eq]

/-- No text of an integer but that of zero begins with a zero. -/
theorem intText_eq_zero_cons (h : (intText n).toList = '0' :: ds) : ds = [] := by
  rw [toList_intText] at h
  split at h
  · cases (List.cons.inj h).1
  · exact toDigits_eq_zero_cons h

/-- **The text of an integer is read as this integer**, although no radix is marked in it. -/
theorem readMarked?_intText (hn : writable n = true) : readMarked? (intText n) = some n := by
  unfold readMarked?
  split
  · rename_i htext
    cases intText_eq_zero_cons htext
  · -- the zero is read in another radix
    rename_i htext
    have hzero : (intText 0).toList = ['0'] := by decide
    obtain rfl : n = 0 := intText_injective (String.toList_injective (htext.trans hzero.symm))
    decide
  · rw [toList_intText, readRadix?_decimal _ (isDigitRun_toDigits n.natAbs)
      (writable_iff_length.mp hn), Nat.ofDigitChars_toDigits (by decide) (by decide)]
    simp only [decide_eq_true_eq, Option.some.injEq]
    omega

end Reading

end Numeral
end LineMachine
