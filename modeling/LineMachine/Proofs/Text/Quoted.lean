import LineMachine.Text.Quoted
import Mathlib.Algebra.Group.Nat.Defs

/-!
# Reading quoted text back

A quoted text ends at the first quote that is not escaped, and what stands before it tells
the text.  After a backslash the next character says how much belongs to the escape: so many
hexadecimal digits, or nothing more.  So a character that follows an escape is never taken
for a part of it, and no two texts are quoted alike.

**Input.**  Any text; which quotes, backslashes and other characters are in it makes no
difference, nor does it which characters are printable.

**Invariant.**  Nothing but the closing quote begins with the quote.

**Results.**
* `readChar?_escapeChar`: a character is read back from the way it is written.
* `escapeChar_append_inj`: it is told from the beginning of a text.
* `quotedChars_append_inj`: so is a quoted text.
-/

namespace LineMachine
namespace Text

/-- The value of a hexadecimal digit. -/
def hexDigitValue (c : Char) : Nat :=
  if c.toNat < 0x3A then c.toNat - 0x30 else c.toNat - 0x57

/-- The positional value of hexadecimal digits, most significant first. -/
def hexValue (ds : List Char) : Nat :=
  ds.foldl (fun n d => 16 * n + hexDigitValue d) 0

/-- The character of a code point of `width` digits, and the text after it. -/
def readCode (width : Nat) (cs : List Char) : Char × List Char :=
  (Char.ofNat (hexValue (cs.take width)), cs.drop width)

/-- The character that a text begins with, as it is or escaped, and the text after it. -/
def readChar? : List Char → Option (Char × List Char)
  | [] => none
  | '\\' :: 'n' :: cs => some ('\n', cs)
  | '\\' :: 'r' :: cs => some ('\r', cs)
  | '\\' :: 't' :: cs => some ('\t', cs)
  | '\\' :: 'x' :: cs => some (readCode 2 cs)
  | '\\' :: 'u' :: cs => some (readCode 4 cs)
  | '\\' :: 'U' :: cs => some (readCode 8 cs)
  | '\\' :: c :: cs => some (c, cs)
  | c :: cs => some (c, cs)

/-- The characters that stand around quoted text. -/
def IsQuote (quote : Char) : Prop :=
  quote = apostrophe ∨ quote = doubleQuote

instance decidableIsQuote (quote : Char) : Decidable (IsQuote quote) :=
  inferInstanceAs (Decidable (_ ∨ _))

section Codes

variable {c : Char}

theorem hexDigitValue_hexDigit : ∀ n, n < 16 → hexDigitValue (hexDigit n) = n := by
  decide

theorem hexValue_hexDigits (width n : Nat) : hexValue (hexDigits width n) = n % 16 ^ width := by
  induction width generalizing n with
  | zero => rw [Nat.pow_zero, Nat.mod_one]; rfl
  | succ width ih =>
      have hlast : n % 16 < 16 := Nat.mod_lt n (by decide)
      calc hexValue (hexDigits (width + 1) n)
          = 16 * hexValue (hexDigits width (n / 16)) + hexDigitValue (hexDigit (n % 16)) := by
            rw [hexDigits, hexValue, List.foldl_append]
            rfl
        _ = 16 * (n / 16 % 16 ^ width) + n % 16 := by rw [ih, hexDigitValue_hexDigit _ hlast]
        _ = n % 16 ^ (width + 1) := by
            rw [Nat.pow_succ', Nat.mod_mul]
            omega

/-- A code point is read back from enough digits. -/
theorem readCode_hexDigits (width : Nat) (hc : c.toNat < 16 ^ width) (rest : List Char) :
    readCode width (hexDigits width c.toNat ++ rest) = (c, rest) := by
  have hlength := length_hexDigits width c.toNat
  rw [readCode, List.take_left' hlength, List.drop_left' hlength, hexValue_hexDigits,
    Nat.mod_eq_of_lt hc, Char.ofNat_toNat]

theorem readChar?_escapeByCode (c : Char) (rest : List Char) :
    readChar? (escapeByCode c ++ rest) = some (c, rest) := by
  have hvalid : c.toNat < 16 ^ 8 := by
    have hcode : c.toNat < 0xd800 ∨ 0xdfff < c.toNat ∧ c.toNat < 0x110000 := c.valid
    omega
  unfold escapeByCode
  dsimp only
  split
  · rename_i hshort
    exact congrArg some (readCode_hexDigits 2 hshort rest)
  · split
    · rename_i hmiddle
      exact congrArg some (readCode_hexDigits 4 hmiddle rest)
    · exact congrArg some (readCode_hexDigits 8 hvalid rest)

end Codes

section Characters

variable {quote c d : Char} {cs ds : List Char}

/-- What is no backslash stands for itself. -/
theorem readChar?_plain (hc : c ≠ '\\') (rest : List Char) :
    readChar? (c :: rest) = some (c, rest) := by
  unfold readChar?
  split <;> simp_all

/-- **A character is read back from the way it is written.** -/
theorem readChar?_escapeChar (hquote : IsQuote quote) (c : Char) (rest : List Char) :
    readChar? (escapeChar quote c ++ rest) = some (c, rest) := by
  unfold escapeChar
  split
  · rename_i hescaped
    rcases hquote with rfl | rfl <;> rcases hescaped with rfl | rfl <;> rfl
  · rename_i hplain
    split
    · rename_i hfeed
      rw [hfeed]
      rfl
    · split
      · rename_i hreturn
        rw [hreturn]
        rfl
      · split
        · rename_i htab
          rw [htab]
          rfl
        · split
          · exact readChar?_plain (not_or.mp hplain).2 rest
          · exact readChar?_escapeByCode c rest

/-- **A character is told from the beginning of a text.** -/
theorem escapeChar_append_inj (hquote : IsQuote quote)
    (h : escapeChar quote c ++ cs = escapeChar quote d ++ ds) : c = d ∧ cs = ds := by
  have hread := congrArg readChar? h
  rw [readChar?_escapeChar hquote, readChar?_escapeChar hquote] at hread
  cases hread
  exact ⟨rfl, rfl⟩

theorem IsQuote.ne_backslash (hquote : IsQuote quote) : quote ≠ '\\' := by
  rcases hquote with rfl | rfl <;> decide

/-- What is written of a character does not begin with the quote. -/
theorem escapeChar_append_ne (hquote : IsQuote quote) (c : Char) (cs ds : List Char) :
    escapeChar quote c ++ cs ≠ quote :: ds := by
  intro h
  -- the character would be the quote, which is escaped
  have hread := congrArg readChar? h
  rw [readChar?_escapeChar hquote, readChar?_plain hquote.ne_backslash] at hread
  cases hread
  rw [escapeChar, if_pos (Or.inl rfl)] at h
  exact hquote.ne_backslash (List.cons.inj h).1.symm

end Characters

section Texts

variable {quote : Char} {cs ds rest rest' : List Char}

theorem isQuote_chooseQuote (cs : List Char) : IsQuote (chooseQuote cs) := by
  unfold chooseQuote
  split
  · exact Or.inr rfl
  · exact Or.inl rfl

/-- Escaped characters are told up to the quote after them. -/
theorem escaped_append_inj (hquote : IsQuote quote)
    (h : cs.flatMap (escapeChar quote) ++ quote :: rest =
      ds.flatMap (escapeChar quote) ++ quote :: rest') : cs = ds ∧ rest = rest' := by
  induction cs generalizing ds with
  | nil =>
      cases ds with
      | nil => exact ⟨rfl, (List.cons.inj h).2⟩
      | cons d ds =>
          rw [List.flatMap_cons, List.append_assoc] at h
          exact absurd h.symm (escapeChar_append_ne hquote d _ rest)
  | cons c cs ih =>
      cases ds with
      | nil =>
          rw [List.flatMap_cons, List.append_assoc] at h
          exact absurd h (escapeChar_append_ne hquote c _ rest')
      | cons d ds =>
          rw [List.flatMap_cons, List.flatMap_cons, List.append_assoc, List.append_assoc] at h
          obtain ⟨rfl, htail⟩ := escapeChar_append_inj hquote h
          obtain ⟨rfl, hrest⟩ := ih htail
          exact ⟨rfl, hrest⟩

/-- **A quoted text is told from the beginning of a text**: its first character is the quote
that ends it. -/
theorem quotedChars_append_inj (h : quotedChars cs ++ rest = quotedChars ds ++ rest') :
    cs = ds ∧ rest = rest' := by
  rw [quotedChars, quotedChars, List.cons_append, List.cons_append, List.append_assoc,
    List.append_assoc] at h
  obtain ⟨hquote, htail⟩ := List.cons.inj h
  rw [← hquote] at htail
  exact escaped_append_inj (isQuote_chooseQuote cs) htail

end Texts

end Text
end LineMachine
