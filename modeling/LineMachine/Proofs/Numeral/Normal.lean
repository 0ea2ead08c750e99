import LineMachine.Proofs.Numeral.Margin
import LineMachine.Proofs.Numeral.Written

/-!
# The normal form of a literal

Many literals stand for one integer: there may be a plus, zeros in front, and a minus before
a zero.  The text of an integer is the literal without any of these, and so the normal form
of every literal that the integer is read from.

**Input.**  A word that is a literal.

**Results.**
* `toDigits_ofDigitChars`: the digits of the number that some digits stand for.
* `intText_of_denotes`: the text of an integer is the normal form of its literals.
* `readMargined_intText`: the text of an integer is read as this integer.
* `text_of_readMargined`: what is read of a word is written as the normal form of the word.
-/

namespace LineMachine
namespace Numeral

/-- The digits less the zeros in front; one digit is kept. -/
def stripZeros : List Char → List Char
  | '0' :: c :: cs => stripZeros (c :: cs)
  | cs => cs

/-- The literal without a plus, without superfluous zeros in front, and without a sign if
nothing but a zero is left. -/
def normalForm (w : String) : String :=
  match w.toList with
  | '-' :: ds => String.ofList (if stripZeros ds = ['0'] then ['0'] else '-' :: stripZeros ds)
  | '+' :: ds => String.ofList (stripZeros ds)
  | ds => String.ofList (stripZeros ds)

section Digits

variable {c : Char} {ds : List Char}

theorem digit_lt (hc : c.isDigit = true) : c.toNat - '0'.toNat < 10 := by
  have hrange : 48 ≤ c.toNat ∧ c.toNat ≤ 57 := Char.isDigit_iff_toNat.mp hc
  have hzero : '0'.toNat = 48 := rfl
  omega

theorem toDigits_digit (hc : c.isDigit = true) : Nat.toDigits 10 (c.toNat - '0'.toNat) = [c] := by
  have hrange : 48 ≤ c.toNat ∧ c.toNat ≤ 57 := Char.isDigit_iff_toNat.mp hc
  have hchar : ∀ d, d < 10 → Nat.digitChar d = Char.ofNat (d + 48) := by decide
  have hzero : '0'.toNat = 48 := rfl
  rw [Nat.toDigits_of_lt_base (digit_lt hc), hchar _ (digit_lt hc), hzero,
    Nat.sub_add_cancel hrange.1, Char.ofNat_toNat]

/-- Digits after a number that is not zero are its last digits. -/
theorem toDigits_append {n : Nat} (hn : 0 < n) (hds : ∀ c, c ∈ ds → c.isDigit = true) :
    Nat.toDigits 10 n ++ ds = Nat.toDigits 10 (Nat.ofDigitChars 10 ds n) := by
  induction ds generalizing n with
  | nil => rw [List.append_nil, Nat.ofDigitChars_nil]
  | cons c ds ih =>
      obtain ⟨hc, hds⟩ := List.forall_mem_cons.mp hds
      have hnext : Nat.toDigits 10 n ++ [c] = Nat.toDigits 10 (10 * n + (c.toNat - '0'.toNat)) := by
        rw [← Nat.toDigits_append_toDigits (by decide) hn (digit_lt hc), toDigits_digit hc]
      rw [← List.singleton_append, ← List.append_assoc, hnext, ih (by omega) hds,
        List.singleton_append, Nat.ofDigitChars_cons]

/-- **The digits of the number that some digits stand for** are these without the zeros in
front. -/
theorem toDigits_ofDigitChars (hne : ds ≠ []) (hds : ∀ c, c ∈ ds → c.isDigit = true) :
    Nat.toDigits 10 (Nat.ofDigitChars 10 ds 0) = stripZeros ds := by
  fun_induction stripZeros ds with
  | case1 c cs ih => exact ih (List.cons_ne_nil c cs) (List.forall_mem_cons.mp hds).2
  | case2 ds hzero =>
      cases ds with
      | nil => exact absurd rfl hne
      | cons c cs =>
          obtain ⟨hc, hcs⟩ := List.forall_mem_cons.mp hds
          rw [Nat.ofDigitChars_cons, Nat.mul_zero, Nat.zero_add]
          cases cs with
          | nil => rw [Nat.ofDigitChars_nil, toDigits_digit hc]
          | cons d cs =>
              have hpos : 0 < c.toNat - '0'.toNat := by
                refine Nat.pos_of_ne_zero fun hnot => ?_
                have hrange : 48 ≤ c.toNat ∧ c.toNat ≤ 57 := Char.isDigit_iff_toNat.mp hc
                have hval : '0'.toNat = 48 := rfl
                have hcode : c.toNat = '0'.toNat := by omega
                exact hzero d cs (by rw [Char.toNat_inj.mp hcode])
              rw [← toDigits_append hpos hcs, toDigits_digit hc]
              rfl

/-- Just the digits of zero are a zero when those in front are stripped. -/
theorem stripZeros_eq_zero_iff (hne : ds ≠ []) (hds : ∀ c, c ∈ ds → c.isDigit = true) :
    stripZeros ds = ['0'] ↔ Nat.ofDigitChars 10 ds 0 = 0 := by
  rw [← toDigits_ofDigitChars hne hds]
  constructor
  · intro h
    calc Nat.ofDigitChars 10 ds 0
        = Nat.ofDigitChars 10 (Nat.toDigits 10 (Nat.ofDigitChars 10 ds 0)) 0 :=
          (Nat.ofDigitChars_toDigits (by decide) (by decide)).symm
      _ = Nat.ofDigitChars 10 ['0'] 0 := by rw [h]
      _ = 0 := rfl
  · intro h
    rw [h]
    rfl

end Digits

section Literals

variable {w : String} {n : Int}

theorem normalForm_of_digits {ds : List Char} (hw : w.toList = ds)
    (hds : ∀ c, c ∈ ds → c.isDigit = true) : normalForm w = String.ofList (stripZeros ds) := by
  rw [normalForm, hw]
  split
  · exact absurd (hds '-' List.mem_cons_self) (by decide)
  · exact absurd (hds '+' List.mem_cons_self) (by decide)
  · rfl

theorem intText_natCast (n : Nat) : intText n = String.ofList (Nat.toDigits 10 n) := by
  rw [intText, if_neg (by omega), Int.natAbs_natCast, List.nil_append]

/-- **The text of an integer is the normal form of its literals.** -/
theorem intText_of_denotes (h : Denotes w n) : intText n = normalForm w := by
  obtain ⟨sign, ds, hw, hsign, hne, hds, _, rfl⟩ := h
  have hdigits := toDigits_ofDigitChars hne hds
  rcases hsign with rfl | rfl | rfl
  · rw [List.nil_append] at hw
    rw [if_neg (by decide), intText_natCast, hdigits, normalForm_of_digits hw hds]
  · rw [if_neg (by decide), intText_natCast, hdigits, normalForm, hw]
    rfl
  · rw [if_pos rfl, normalForm, hw]
    show _ = String.ofList (if stripZeros ds = ['0'] then ['0'] else '-' :: stripZeros ds)
    by_cases hzero : Nat.ofDigitChars 10 ds 0 = 0
    · rw [if_pos ((stripZeros_eq_zero_iff hne hds).mpr hzero), hzero]
      rfl
    · rw [if_neg fun h => hzero ((stripZeros_eq_zero_iff hne hds).mp h), intText,
        if_pos (by omega), Int.natAbs_neg, Int.natAbs_natCast, hdigits]
      rfl

/-- The text of an integer is a word. -/
theorem isWord_intText (n : Int) : Text.IsWord (intText n) := by
  obtain ⟨l, hl, _⟩ := Literal.ofWord?_intText n
  exact isWord_of_isLiteral (isLiteral_iff.mpr ⟨l, hl⟩)

/-- **The text of an integer is read as this integer**, if it has not too many digits. -/
theorem readMargined_intText (hn : (Nat.toDigits 10 n.natAbs).length ≤ digitLimit) :
    readMargined (intText n) = .ok (some n) := by
  obtain ⟨l, hl, hdigits, hvalue⟩ := Literal.ofWord?_intText n
  rw [← hdigits] at hn
  rw [Text.readMargined_of_isWord (isWord_intText n)]
  exact readWord_eq_some_iff.mpr (denotes_iff.mpr ⟨l, hl, hn, hvalue.symm⟩)

/-- **What is read of a word is written as the normal form of the word.** -/
theorem text_of_readMargined (hw : Text.IsWord w) (h : readMargined w = .ok (some n)) :
    text n = .ok (normalForm w) := by
  rw [Text.readMargined_of_isWord hw] at h
  rw [text_eq_ok (writable_of_readWord h), intText_of_denotes (readWord_eq_some_iff.mp h)]

end Literals

end Numeral
end LineMachine
