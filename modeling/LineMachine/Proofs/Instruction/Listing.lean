import LineMachine.CommandLine.Message
import LineMachine.Proofs.Numeral.Written
import LineMachine.Proofs.Text.Quoted
import LineMachine.Proofs.Text.Separated

/-!
# Listed instructions are told apart

A listed instruction is its title, and its fields with their labels between parentheses.
Each part ends where the next one begins: the title at the parenthesis, a label at the equals
sign, a name at its closing quote, a number before a separator or a parenthesis, a list of
names at its bracket.  So no two instructions are listed alike, and a listing tells what
every line of it is, and which one.

**Input.**  Any instructions, whatever their names and numbers.

**Results.**
* `Field.chars_append_inj`: a field is told from the beginning of a text.
* `fields_append_inj`: so are the labelled fields, up to the closing parenthesis.
* `ofListed?_title`: an instruction is told from its title and fields.
* `listing_injective`: no two instructions are listed alike.
* `listings_are_unambiguous`: lines are listed alike just if they are read alike.
-/

namespace LineMachine
namespace Instruction

open Numeral (isNumeralChar)

/-- The kinds of fields. -/
inductive FieldKind where
  | name
  | number
  | names

def Field.kind : Field → FieldKind
  | .name _ => .name
  | .number _ => .number
  | .names _ => .names

/-- The kind of field that a character begins. -/
def FieldKind.ofFirst (c : Char) : FieldKind :=
  if c = '[' then .names else if isNumeralChar c then .number else .name

/-- The instruction with a title and fields. -/
def ofListed? : String → List (String × Field) → Option Instruction
  | "VarInt", [(_, .name var), (_, .number value)] => some (varInt var value)
  | "VarList", [(_, .name var), (_, .names elements)] => some (varList var elements)
  | "Combine", [(_, .name first), (_, .name second)] => some (combine first second)
  | "Get", [(_, .name dest), (_, .number index), (_, .name seq)] => some (get dest index seq)
  | "Set", [(_, .name source), (_, .number index), (_, .name seq)] => some (set source index seq)
  | "Copy", [(_, .name dest), (_, .name source)] => some (copy dest source)
  | "Chs", [(_, .name var)] => some (changeSign var)
  | "Add", [(_, .name var), (_, .name operand)] => some (add var operand)
  | "If", [(_, .name var), (_, .number target)] => some (branch var target)
  | "Hlt", [] => some halt
  | _, _ => none

section Fields

variable {f g : Field} {rest rest' : List Char}

theorem quotedChars_delimited (s t : String) :
    Text.Delimited (fun s : String => Text.quotedChars s.toList) isNumeralChar s t := by
  intro rest rest' _ _ h
  obtain ⟨hst, hrest⟩ := Text.quotedChars_append_inj h
  exact ⟨String.toList_injective hst, hrest⟩

/-- A quoted text does not begin with a bracket or a character of a number. -/
theorem ofFirst_chooseQuote (cs : List Char) :
    FieldKind.ofFirst (Text.chooseQuote cs) = .name := by
  rcases Text.isQuote_chooseQuote cs with hquote | hquote
  · rw [hquote]
    rfl
  · rw [hquote]
    rfl

theorem ofFirst_of_isNumeralChar {c : Char} (hc : isNumeralChar c = true) :
    FieldKind.ofFirst c = .number := by
  have hbracket : c ≠ '[' := by
    rintro rfl
    exact absurd hc (by decide)
  rw [FieldKind.ofFirst, if_neg hbracket, if_pos hc]

/-- The first character of a field tells its kind. -/
theorem Field.exists_chars_eq_cons (f : Field) (rest : List Char) :
    ∃ c cs, f.chars ++ rest = c :: cs ∧ FieldKind.ofFirst c = f.kind := by
  cases f with
  | name text => exact ⟨_, _, rfl, ofFirst_chooseQuote text.toList⟩
  | number n =>
      obtain ⟨c, cs, hcs, hc⟩ := Numeral.exists_intText_eq_cons n
      exact ⟨c, cs ++ rest, by rw [Field.chars, hcs, List.cons_append], ofFirst_of_isNumeralChar hc⟩
  | names texts => exact ⟨_, _, rfl, rfl⟩

theorem Field.kind_eq (h : f.chars ++ rest = g.chars ++ rest') : f.kind = g.kind := by
  obtain ⟨c, cs, hf, hc⟩ := f.exists_chars_eq_cons rest
  obtain ⟨d, ds, hg, hd⟩ := g.exists_chars_eq_cons rest'
  rw [hf, hg] at h
  rw [← hc, ← hd, (List.cons.inj h).1]

theorem names_chars_append (texts : List String) (rest : List Char) :
    (Field.names texts).chars ++ rest =
      '[' :: (separated (texts.map fun t => Text.quotedChars t.toList) ++ ']' :: rest) := by
  rw [Field.chars, List.cons_append, List.cons_append, List.append_assoc]
  rfl

theorem names_append_inj {texts texts' : List String}
    (h : (Field.names texts).chars ++ rest = (Field.names texts').chars ++ rest') :
    texts = texts' ∧ rest = rest' := by
  rw [names_chars_append, names_chars_append] at h
  refine Text.intercalate_append_inj (rfl : isNumeralChar ',' = false)
    (rfl : isNumeralChar ']' = false) (by decide) (fun s _ t _ => quotedChars_delimited s t)
    (fun s _ rest rest' hbracket => ?_) (List.cons.inj h).2
  have hquote := Text.isQuote_chooseQuote s.toList
  rw [(List.cons.inj hbracket).1] at hquote
  exact absurd hquote (by decide)

/-- **A field is told from the beginning of a text**, if no number could go on after it. -/
theorem Field.chars_append_inj (hrest : rest.takeWhile isNumeralChar = [])
    (hrest' : rest'.takeWhile isNumeralChar = []) (h : f.chars ++ rest = g.chars ++ rest') :
    f = g ∧ rest = rest' := by
  have hkind := Field.kind_eq h
  cases f with
  | name text =>
      cases g with
      | name text' =>
          obtain ⟨rfl, hrest⟩ := quotedChars_delimited text text' rest rest' hrest hrest' h
          exact ⟨rfl, hrest⟩
      | number n => cases hkind
      | names texts => cases hkind
  | number n =>
      cases g with
      | name text => cases hkind
      | number n' =>
          obtain ⟨rfl, hrest⟩ := Numeral.intText_append_inj hrest hrest' h
          exact ⟨rfl, hrest⟩
      | names texts => cases hkind
  | names texts =>
      cases g with
      | name text => cases hkind
      | number n => cases hkind
      | names texts' =>
          obtain ⟨rfl, hrest⟩ := names_append_inj h
          exact ⟨rfl, hrest⟩

end Fields

section Labels

variable {inst inst' : Instruction} {label label' : String} {rest rest' : List Char}

/-- Whether a text is made of letters alone, as titles and labels are. -/
def isLabel (label : String) : Bool :=
  label.toList.all Char.isAlpha

/-- A label is told up to a character that is no letter. -/
theorem label_append_inj {c : Char} (hc : c.isAlpha = false) (hlabel : isLabel label = true)
    (hlabel' : isLabel label' = true)
    (h : label.toList ++ c :: rest = label'.toList ++ c :: rest') :
    label = label' ∧ rest = rest' := by
  have hstop : ∀ cs : List Char, (c :: cs).takeWhile Char.isAlpha = [] :=
    fun cs => List.takeWhile_cons_of_neg (Bool.eq_false_iff.mp hc)
  obtain ⟨htext, hrest⟩ := Text.run_append_inj (List.all_eq_true.mp hlabel)
    (List.all_eq_true.mp hlabel') (hstop rest) (hstop rest') h
  exact ⟨String.toList_injective htext, (List.cons.inj hrest).2⟩

theorem isLabel_title (inst : Instruction) : isLabel inst.title = true := by
  cases inst <;> (rw [title]; decide)

theorem all_isLabel_fields (inst : Instruction) :
    (inst.fields.all fun f => isLabel f.1) = true := by
  cases inst <;> simp only [fields, List.all_cons, List.all_nil] <;> decide

theorem isLabel_of_mem_fields {f : String × Field} (hf : f ∈ inst.fields) : isLabel f.1 = true :=
  List.all_eq_true.mp (all_isLabel_fields inst) f hf

theorem labelled_append (f : String × Field) (rest : List Char) :
    labelled f ++ rest = f.1.toList ++ '=' :: (f.2.chars ++ rest) := by
  rw [labelled, List.append_assoc]
  rfl

theorem labelled_delimited {f g : String × Field} (hf : isLabel f.1 = true)
    (hg : isLabel g.1 = true) : Text.Delimited labelled isNumeralChar f g := by
  intro rest rest' hrest hrest' h
  rw [labelled_append, labelled_append] at h
  obtain ⟨hlabel, hfield⟩ := label_append_inj (by decide) hf hg h
  obtain ⟨hchars, htail⟩ := Field.chars_append_inj hrest hrest' hfield
  exact ⟨Prod.ext hlabel hchars, htail⟩

/-- A field does not begin with the parenthesis that closes the fields. -/
theorem labelled_append_ne {f : String × Field} (hf : isLabel f.1 = true) (rest rest' : List Char) :
    labelled f ++ rest ≠ ')' :: rest' := by
  intro h
  rw [labelled_append] at h
  cases hlabel : f.1.toList with
  | nil =>
      rw [hlabel] at h
      cases (List.cons.inj h).1
  | cons c cs =>
      have hc : c.isAlpha = true := List.all_eq_true.mp hf c (hlabel ▸ List.mem_cons_self)
      rw [hlabel] at h
      rw [(List.cons.inj h).1] at hc
      cases hc

/-- **The labelled fields are told up to the closing parenthesis.** -/
theorem fields_append_inj
    (h : separated (inst.fields.map labelled) ++ ')' :: rest =
      separated (inst'.fields.map labelled) ++ ')' :: rest') :
    inst.fields = inst'.fields ∧ rest = rest' := by
  refine Text.intercalate_append_inj (rfl : isNumeralChar ',' = false)
    (rfl : isNumeralChar ')' = false) (by decide) (fun f hf g hg => ?_) (fun f hf => ?_) h
  · exact labelled_delimited (isLabel_of_mem_fields hf) (isLabel_of_mem_fields hg)
  · rcases List.mem_append.mp hf with hf | hf
    · exact labelled_append_ne (isLabel_of_mem_fields hf)
    · exact labelled_append_ne (isLabel_of_mem_fields hf)

/-- **An instruction is told from its title and fields.** -/
theorem ofListed?_title (inst : Instruction) : ofListed? inst.title inst.fields = some inst := by
  cases inst <;> rfl

theorem listingChars_append (inst : Instruction) (rest : List Char) :
    inst.listingChars ++ rest =
      inst.title.toList ++ '(' :: (separated (inst.fields.map labelled) ++ ')' :: rest) := by
  simp [listingChars]

/-- **A listed instruction is told from the beginning of a text.** -/
theorem listingChars_append_inj (h : inst.listingChars ++ rest = inst'.listingChars ++ rest') :
    inst = inst' ∧ rest = rest' := by
  rw [listingChars_append, listingChars_append] at h
  obtain ⟨htitle, hinner⟩ :=
    label_append_inj (by decide) (isLabel_title inst) (isLabel_title inst') h
  obtain ⟨hfields, hrest⟩ := fields_append_inj hinner
  have hread := ofListed?_title inst
  rw [htitle, hfields, ofListed?_title] at hread
  exact ⟨(Option.some.inj hread).symm, hrest⟩

/-- **No two instructions are listed alike.** -/
theorem listing_injective : Function.Injective listing := by
  intro inst inst' h
  have hchars : inst.listingChars ++ [] = inst'.listingChars ++ [] :=
    congrArg (· ++ []) (String.ofList_injective h)
  exact (listingChars_append_inj hchars).1

end Labels

section Numbers

variable {i i' : Nat} {inst inst' : Instruction} {rest rest' : List Char}

theorem ofDigitChars_zeros (k : Nat) (ds : List Char) :
    Nat.ofDigitChars 10 (List.replicate k '0' ++ ds) 0 = Nat.ofDigitChars 10 ds 0 := by
  induction k with
  | zero => rfl
  | succ k ih =>
      rw [List.replicate_succ, List.cons_append, Nat.ofDigitChars_cons]
      exact ih

/-- The number of a line is told from its digits. -/
theorem ofDigitChars_lineNumber (i : Nat) : Nat.ofDigitChars 10 (lineNumber i).toList 0 = i := by
  rw [lineNumber, String.toList_ofList, ofDigitChars_zeros]
  exact Nat.ofDigitChars_toDigits (by decide) (by decide)

theorem isDigit_of_mem_lineNumber {c : Char} (hc : c ∈ (lineNumber i).toList) :
    c.isDigit = true := by
  rw [lineNumber, String.toList_ofList] at hc
  rcases List.mem_append.mp hc with hzero | hdigit
  · rw [List.eq_of_mem_replicate hzero]
    rfl
  · exact Nat.isDigit_of_mem_toDigits (by decide) (by decide) hdigit

theorem lineNumber_append_inj
    (h : (lineNumber i).toList ++ ' ' :: rest = (lineNumber i').toList ++ ' ' :: rest') :
    i = i' ∧ rest = rest' := by
  have hstop : ∀ cs : List Char, (' ' :: cs).takeWhile Char.isDigit = [] := fun _ => rfl
  obtain ⟨hdigits, hrest⟩ := Text.run_append_inj (fun _ => isDigit_of_mem_lineNumber)
    (fun _ => isDigit_of_mem_lineNumber) (hstop rest) (hstop rest') h
  have hvalue := congrArg (fun ds => Nat.ofDigitChars 10 ds 0) hdigits
  simp only [ofDigitChars_lineNumber] at hvalue
  exact ⟨hvalue, (List.cons.inj hrest).2⟩

theorem toList_listed_text (i : Nat) (inst : Instruction) :
    (Message.listed i inst).text.toList =
      (lineNumber i).toList ++ ' ' :: (inst.listingChars ++ ['\n']) := by
  have htext : (Message.listed i inst).text = lineNumber i ++ " " ++ inst.listing ++ "\n" := rfl
  have hblank : (" " : String).toList = [' '] := by decide
  have hfeed : ("\n" : String).toList = ['\n'] := by decide
  rw [htext, String.toList_append, String.toList_append, String.toList_append, hblank, hfeed,
    listing, String.toList_ofList, List.append_assoc, List.append_assoc, List.singleton_append]

/-- **A printed line of a listing tells which line it is, and which instruction.** -/
theorem listed_text_inj (h : (Message.listed i inst).text = (Message.listed i' inst').text) :
    i = i' ∧ inst = inst' := by
  have hchars := congrArg String.toList h
  rw [toList_listed_text, toList_listed_text] at hchars
  obtain ⟨hnumber, hrest⟩ := lineNumber_append_inj hchars
  exact ⟨hnumber, (listingChars_append_inj hrest).1⟩

end Numbers

/-- **Listings are unambiguous.**  No two instructions are listed alike; so two lines that are
instructions are listed alike just if they are read as the same instruction, and what is
printed of a line in a listing tells its number as well. -/
theorem listings_are_unambiguous :
    (∀ inst inst' : Instruction, inst.listing = inst'.listing ↔ inst = inst') ∧
    (∀ line line' inst inst', decode line = .ok inst → decode line' = .ok inst' →
      (inst.listing = inst'.listing ↔ decode line = decode line')) ∧
    ∀ i i' inst inst', (Message.listed i inst).text = (Message.listed i' inst').text ↔
      i = i' ∧ inst = inst' := by
  refine ⟨fun inst inst' => listing_injective.eq_iff, ?_, fun i i' inst inst' => ⟨?_, ?_⟩⟩
  · intro line line' inst inst' hline hline'
    rw [hline, hline', listing_injective.eq_iff, Except.ok.injEq]
  · exact listed_text_inj
  · rintro ⟨rfl, rfl⟩
    rfl

/-- A name that is not printable, and one that looks like its escape, are told apart. -/
theorem listings_are_unambiguous_control :
    ∃ inst inst', decode "CHS \x01" = .ok inst ∧ decode "CHS \\x01" = .ok inst' ∧
      inst.listing ≠ inst'.listing := by
  have hcontrol : decode "CHS \x01" = .ok (.changeSign "\x01") := rfl
  have hescape : decode "CHS \\x01" = .ok (.changeSign "\\x01") := rfl
  refine ⟨_, _, hcontrol, hescape, fun h => ?_⟩
  have hread := (listings_are_unambiguous.2.1 _ _ _ _ hcontrol hescape).mp h
  rw [hcontrol, hescape, Except.ok.injEq] at hread
  exact absurd hread (by decide)

end Instruction
end LineMachine
