import LineMachine.Proofs.Numeral.Literal
import LineMachine.Proofs.Text.Separated

/-!
# The text of an integer

What is written of an integer is a literal that stands for it: a minus sign if it is
negative, and its digits.  No two integers are written alike, therefore, and the text of an
integer ends where another character stands.

**Input.**  An integer, whatever its length.

**Results.**
* `Literal.ofWord?_intText`: the text is a literal of the integer.
* `intText_injective`: no two integers are written alike.
* `intText_append_inj`: an integer is told from the beginning of a text.
* `writable_iff_length`: an integer can be written just if it has not too many digits.
-/

namespace LineMachine
namespace Numeral

/-- A digit or a minus sign. -/
def isNumeralChar (c : Char) : Bool :=
  c == '-' || c.isDigit

section Writing

variable {m n : Int} {cs ds : List Char}

theorem isDigitRun_toDigits (n : Nat) : isDigitRun (Nat.toDigits 10 n) = true := by
  refine isDigitRun_iff.mpr ⟨Nat.toDigits_ne_nil, fun c hc => ?_⟩
  exact Nat.isDigit_of_mem_toDigits (by decide) (by decide) hc

/-- **What is written of an integer is a literal of it.** -/
theorem Literal.ofWord?_intText (n : Int) :
    ∃ l, Literal.ofWord? (intText n).toList = some l ∧ l.digits = Nat.toDigits 10 n.natAbs ∧
      l.toInt = n := by
  refine ⟨⟨decide (n < 0), Nat.toDigits 10 n.natAbs⟩, ?_, rfl, ?_⟩
  · rw [Literal.ofWord?_eq_some_iff_exists_sign]
    refine ⟨if n < 0 then ['-'] else [], String.toList_ofList, ?_, isDigitRun_toDigits _, ?_⟩
    · split
      · exact Or.inr (Or.inr rfl)
      · exact Or.inl rfl
    · split <;> simp [*]
  · have hdigits : Nat.ofDigitChars 10 (Nat.toDigits 10 n.natAbs) 0 = n.natAbs :=
      Nat.ofDigitChars_toDigits (by decide) (by decide)
    rw [Literal.toInt, hdigits]
    simp only [decide_eq_true_eq]
    split <;> omega

/-- **No two integers are written alike.** -/
theorem intText_injective : Function.Injective intText := by
  intro m n hmn
  obtain ⟨l, hl, _, rfl⟩ := Literal.ofWord?_intText m
  obtain ⟨l', hl', _, rfl⟩ := Literal.ofWord?_intText n
  rw [hmn, hl'] at hl
  cases hl
  rfl

theorem isNumeralChar_of_mem_intText {c : Char} (hc : c ∈ (intText n).toList) :
    isNumeralChar c = true := by
  rw [intText, String.toList_ofList] at hc
  rcases List.mem_append.mp hc with hsign | hdigit
  · split at hsign
    · obtain rfl := List.mem_singleton.mp hsign
      rfl
    · cases hsign
  · rw [isNumeralChar, Nat.isDigit_of_mem_toDigits (by decide) (by decide) hdigit, Bool.or_true]

/-- The text of an integer begins with a character of its own. -/
theorem exists_intText_eq_cons (n : Int) :
    ∃ c cs, (intText n).toList = c :: cs ∧ isNumeralChar c = true := by
  cases hn : (intText n).toList with
  | nil =>
      rw [intText, String.toList_ofList, List.append_eq_nil_iff] at hn
      exact absurd hn.2 Nat.toDigits_ne_nil
  | cons c cs =>
      refine ⟨c, cs, rfl, isNumeralChar_of_mem_intText (n := n) ?_⟩
      rw [hn]
      exact List.mem_cons_self

/-- **An integer is told from the beginning of a text**, if no character of an integer
follows it. -/
theorem intText_append_inj (hcs : cs.takeWhile isNumeralChar = [])
    (hds : ds.takeWhile isNumeralChar = [])
    (h : (intText m).toList ++ cs = (intText n).toList ++ ds) : m = n ∧ cs = ds := by
  obtain ⟨htext, hrest⟩ := Text.run_append_inj (fun _ => isNumeralChar_of_mem_intText)
    (fun _ => isNumeralChar_of_mem_intText) hcs hds h
  exact ⟨intText_injective (String.toList_injective htext), hrest⟩

theorem fitsIn_iff_length {digits n : Nat} (hdigits : 0 < digits) :
    fitsIn digits n = true ↔ (Nat.toDigits 10 n).length ≤ digits := by
  rw [fitsIn_iff]
  exact (Nat.length_toDigits_le_iff (by decide) hdigits).symm

/-- **An integer can be written just if it has not too many digits.** -/
theorem writable_iff_length :
    writable n = true ↔ (Nat.toDigits 10 n.natAbs).length ≤ digitLimit :=
  fitsIn_iff_length (by decide)

theorem writable_eq_false_iff :
    writable n = false ↔ digitLimit < (Nat.toDigits 10 n.natAbs).length := by
  rw [← Bool.not_eq_true, writable_iff_length, Nat.not_le]

end Writing

end Numeral
end LineMachine
