import LineMachine.Proofs.Instruction.Grammar
import Mathlib.Data.List.Basic

/-!
# How instructions are written

The rules by which a sequence of words is an instruction, one for each opcode, and those by
which it is refused.  The rules of refusal are in order: an integer with too many digits is
refused before the operands are counted, and operands are counted before they are looked
at.

**Input.**  A line of program text.

**Results.**
* `spelling_or_refusal`: every sequence of words falls under a rule.
* `ofWords_eq_ok_iff`, `ofWords_eq_error_iff`: the words are read by the rules.
* `decode_follows_grammar`: lines are read by the rules, which are those of the grammar.
-/

namespace LineMachine

/-- The wording of a failure. -/
def Failure.message : Failure → String
  | fault f => f.message
  | limit e => e.message

namespace Instruction

/-- The words are an instruction. -/
inductive Spelling : List String → Instruction → Prop
  | varInt {var word : String} {value : Int} (hword : Numeral.Denotes word value) :
      Spelling ["VARINT", var, word] (.varInt var value)
  | varList {var : String} {elements : List String} :
      Spelling ("VARLIST" :: var :: elements) (.varList var elements)
  | combine {first second : String} :
      Spelling ["COMBINE", first, second] (.combine first second)
  | get {dest word seq : String} {index : Int} (hword : Numeral.Denotes word index) :
      Spelling ["GET", dest, word, seq] (.get dest index seq)
  | set {source word seq : String} {index : Int} (hword : Numeral.Denotes word index) :
      Spelling ["SET", source, word, seq] (.set source index seq)
  | copy {dest source : String} : Spelling ["COPY", dest, source] (.copy dest source)
  | changeSign {var : String} : Spelling ["CHS", var] (.changeSign var)
  | add {var operand : String} : Spelling ["ADD", var, operand] (.add var operand)
  | branch {var word : String} {target : Int} (hword : Numeral.Denotes word target) :
      Spelling ["IF", var, word] (.branch var target)
  | halt : Spelling ["HLT"] .halt

/-- The words are refused with a failure and its wording. -/
inductive Refusal : List String → Failure → String → Prop
  | empty : Refusal [] (.fault (.decode .empty)) "empty instruction"
  | unknownOpcode {word : String} {operands : List String}
      (hword : ∀ op : Opcode, op.mnemonic ≠ word) :
      Refusal (word :: operands) (.fault (.decode (.unknownOpcode word)))
        ("unknown opcode `" ++ word ++ "`")
  | oversized {op : Opcode} {first word : String} {rest : List String} {n : Nat}
      (hop : op.hasIntegerOperand = true) (hword : Numeral.Oversized word n) :
      Refusal (op.mnemonic :: first :: word :: rest) (.limit (.reading n))
        ("Exceeds the limit (4300 digits) for integer string conversion: value has " ++
          toString n ++ " digits; use sys.set_int_max_str_digits() to increase the limit")
  | noOperands :
      Refusal ["VARLIST"] (.fault (.decode (.wrongArity .varList 0)))
        "`VARLIST` expects at least 1 argument, got 0"
  | wrongNumber {op : Opcode} {operands : List String} {k : Nat}
      (harity : op.arity = .exactly k) (hlength : operands.length ≠ k)
      (hlimit : op.hasIntegerOperand = true → ∀ first word rest n,
        operands = first :: word :: rest → ¬ Numeral.Oversized word n) :
      Refusal (op.mnemonic :: operands) (.fault (.decode (.wrongArity op operands.length)))
        ("`" ++ op.mnemonic ++ "` expects " ++
          (toString k ++ (if k = 1 then " argument" else " arguments")) ++
          ", got " ++ toString operands.length)
  | malformed {op : Opcode} {first word : String} {rest : List String}
      (hop : op.hasIntegerOperand = true) (harity : op.arity = .exactly (rest.length + 2))
      (hword : ¬ Numeral.IsLiteral word) :
      Refusal (op.mnemonic :: first :: word :: rest) (.fault (.decode (.malformedInteger op)))
        ("malformed integer operand in `" ++ op.mnemonic ++ "` instruction")

/-- The wording counts the operands that an opcode takes and those that there are. -/
theorem message_wrongArity {op : Opcode} {k : Nat} (harity : op.arity = .exactly k) (n : Nat) :
    (DecodeError.wrongArity op n).message =
      "`" ++ op.mnemonic ++ "` expects " ++
        (toString k ++ (if k = 1 then " argument" else " arguments")) ++
        ", got " ++ toString n := by
  unfold DecodeError.message
  dsimp only
  rw [harity]
  unfold Arity.describe
  dsimp only
  unfold Arity.describe.count
  with_reducible rfl

theorem message_noOperands :
    (DecodeError.wrongArity .varList 0).message =
      "`VARLIST` expects at least 1 argument, got 0" := by
  decide

section Operands

variable {op : Opcode} {operands : List String} {number : Option Int} {inst : Instruction}

/-- Operands that fit an opcode are as many as it takes. -/
theorem admits_of_ofOperands? (h : ofOperands? op operands number = some inst) :
    op.arity.admits operands.length = true := by
  unfold ofOperands? at h
  split at h <;> cases h <;> simp [Opcode.arity, Arity.admits]

/-- Where as many operands as an opcode takes do not fit it, it takes an integer and there
is none. -/
theorem ofOperands?_eq_none (hadmits : op.arity.admits operands.length = true)
    (h : ofOperands? op operands number = none) :
    op.hasIntegerOperand = true ∧ number = none ∧
      ∃ first word rest, operands = first :: word :: rest ∧
        op.arity = .exactly (rest.length + 2) := by
  cases op with
  | varInt | branch =>
      obtain ⟨first, word, rfl⟩ := List.length_eq_two.mp (by simpa [Opcode.arity, Arity.admits]
        using hadmits)
      cases number with
      | none => exact ⟨rfl, rfl, first, word, [], rfl, rfl⟩
      | some value => cases h
  | get | set =>
      obtain ⟨first, word, last, rfl⟩ := List.length_eq_three.mp
        (by simpa [Opcode.arity, Arity.admits] using hadmits)
      cases number with
      | none => exact ⟨rfl, rfl, first, word, [last], rfl, rfl⟩
      | some index => cases h
  | combine | copy | add =>
      obtain ⟨first, second, rfl⟩ := List.length_eq_two.mp
        (by simpa [Opcode.arity, Arity.admits] using hadmits)
      cases h
  | changeSign =>
      obtain ⟨var, rfl⟩ := List.length_eq_one_iff.mp
        (by simpa [Opcode.arity, Arity.admits] using hadmits)
      cases h
  | halt =>
      obtain rfl := List.length_eq_zero_iff.mp
        (by simpa [Opcode.arity, Arity.admits] using hadmits)
      cases h
  | varList =>
      cases operands with
      | nil => cases hadmits
      | cons var elements => cases h

/-- No operands fit an opcode that takes an integer if there is none. -/
theorem ofOperands?_of_none (hop : op.hasIntegerOperand = true) :
    ofOperands? op operands none = none := by
  cases hinst : ofOperands? op operands none with
  | none => rfl
  | some inst =>
      unfold ofOperands? at hinst
      split at hinst <;> simp_all [Opcode.hasIntegerOperand]

end Operands

section Words

variable {op : Opcode} {ws operands : List String} {inst : Instruction} {e : Failure}
  {text : String}

theorem ofMnemonic?_eq_none_iff {word : String} :
    Opcode.ofMnemonic? word = none ↔ ∀ op : Opcode, op.mnemonic ≠ word := by
  constructor
  · rintro h op rfl
    rw [Opcode.ofMnemonic?_mnemonic] at h
    cases h
  · intro h
    cases hop : Opcode.ofMnemonic? word with
    | none => rfl
    | some op => exact absurd (Opcode.mnemonic_of_ofMnemonic? hop) (h op)

theorem ofWords_mnemonic (op : Opcode) (operands : List String) :
    ofWords (op.mnemonic :: operands) = ofOperands op operands := by
  rw [ofWords, Opcode.ofMnemonic?_mnemonic]

theorem ofWords_of_ofOperands? {number : Option Int}
    (hnumber : integerOperand op operands = .ok number)
    (h : ofOperands? op operands number = some inst) :
    ofWords (op.mnemonic :: operands) = .ok inst := by
  rw [ofWords_mnemonic, ofOperands, hnumber]
  dsimp only
  rw [h]

theorem ofWords_of_spelling (h : Spelling ws inst) : ofWords ws = .ok inst := by
  cases h with
  | varInt hword =>
      exact @ofWords_of_ofOperands? .varInt _ _ _ (Numeral.readWord_eq_some_iff.mpr hword) rfl
  | @varList var elements => cases elements <;> exact ofWords_mnemonic .varList _
  | combine => exact ofWords_mnemonic .combine _
  | get hword =>
      exact @ofWords_of_ofOperands? .get _ _ _ (Numeral.readWord_eq_some_iff.mpr hword) rfl
  | set hword =>
      exact @ofWords_of_ofOperands? .set _ _ _ (Numeral.readWord_eq_some_iff.mpr hword) rfl
  | copy => exact ofWords_mnemonic .copy _
  | changeSign => exact ofWords_mnemonic .changeSign _
  | add => exact ofWords_mnemonic .add _
  | branch hword =>
      exact @ofWords_of_ofOperands? .branch _ _ _ (Numeral.readWord_eq_some_iff.mpr hword) rfl
  | halt => exact ofWords_mnemonic .halt _

theorem spelling_of_ofOperands? {number : Option Int}
    (hnumber : integerOperand op operands = .ok number)
    (h : ofOperands? op operands number = some inst) :
    Spelling (op.mnemonic :: operands) inst := by
  unfold ofOperands? at h
  split at h <;> cases h
  · exact .varInt (Numeral.readWord_eq_some_iff.mp hnumber)
  · exact .varList
  · exact .combine
  · exact .get (Numeral.readWord_eq_some_iff.mp hnumber)
  · exact .set (Numeral.readWord_eq_some_iff.mp hnumber)
  · exact .copy
  · exact .changeSign
  · exact .add
  · exact .branch (Numeral.readWord_eq_some_iff.mp hnumber)
  · exact .halt

/-- An operand is refused for its digits only where an integer is expected. -/
theorem integerOperand_eq_error_iff {e : Numeral.DigitLimit} :
    integerOperand op operands = .error e ↔
      op.hasIntegerOperand = true ∧ ∃ first word rest n,
        operands = first :: word :: rest ∧ Numeral.Oversized word n ∧ e = .reading n := by
  constructor
  · intro h
    unfold integerOperand at h
    split at h
    · rename_i first word rest
      split at h
      · rename_i hop
        obtain ⟨n, hover, rfl⟩ := Numeral.readWord_eq_error_iff.mp h
        exact ⟨hop, first, word, rest, n, rfl, hover, rfl⟩
      · cases h
    · cases h
  · rintro ⟨hop, first, word, rest, n, rfl, hover, rfl⟩
    rw [integerOperand_cons hop]
    exact Numeral.readWord_eq_error_iff.mpr ⟨n, hover, rfl⟩

/-- Operands that fit no form are wrong in number, or the integer among them is none. -/
theorem refusal_of_ofOperands? {number : Option Int}
    (hnumber : integerOperand op operands = .ok number)
    (h : ofOperands? op operands number = none) :
    Refusal (op.mnemonic :: operands) (.fault (.decode (diagnose op operands)))
      (diagnose op operands).message := by
  rw [diagnose]
  split
  · rename_i hadmits
    obtain ⟨hop, rfl, first, word, rest, rfl, harity⟩ := ofOperands?_eq_none hadmits h
    rw [integerOperand_cons hop] at hnumber
    exact .malformed hop harity (Numeral.readWord_eq_none_iff.mp hnumber)
  · rename_i hadmits
    cases harity : op.arity with
    | exactly k =>
        rw [harity] at hadmits
        have hlength : operands.length ≠ k := by simpa [Arity.admits] using hadmits
        have hlimit : op.hasIntegerOperand = true → ∀ first word rest n,
            operands = first :: word :: rest → ¬ Numeral.Oversized word n := by
          intro hop first word rest n hoperands hover
          have herror := integerOperand_eq_error_iff.mpr
            ⟨hop, first, word, rest, n, hoperands, hover, rfl⟩
          rw [hnumber] at herror
          cases herror
        rw [message_wrongArity harity]
        exact .wrongNumber harity hlength hlimit
    | atLeast k =>
        cases op <;> cases harity
        cases operands with
        | nil =>
            rw [List.length_nil, message_noOperands]
            exact .noOperands
        | cons var elements => cases h

/-- **Every sequence of words is an instruction or is refused.** -/
theorem spelling_or_refusal (ws : List String) :
    (∃ inst, Spelling ws inst) ∨ ∃ e, Refusal ws e e.message := by
  cases ws with
  | nil => exact Or.inr ⟨_, .empty⟩
  | cons word operands =>
      cases hop : Opcode.ofMnemonic? word with
      | none => exact Or.inr ⟨_, .unknownOpcode (ofMnemonic?_eq_none_iff.mp hop)⟩
      | some op =>
          obtain rfl := Opcode.mnemonic_of_ofMnemonic? hop
          cases hnumber : integerOperand op operands with
          | error e =>
              obtain ⟨hinteger, first, word, rest, n, rfl, hover, rfl⟩ :=
                integerOperand_eq_error_iff.mp hnumber
              exact Or.inr ⟨_, .oversized hinteger hover⟩
          | ok number =>
              cases hinst : ofOperands? op operands number with
              | some inst => exact Or.inl ⟨inst, spelling_of_ofOperands? hnumber hinst⟩
              | none => exact Or.inr ⟨_, refusal_of_ofOperands? hnumber hinst⟩

/-- The rules of refusal give the wording of the failure. -/
theorem Refusal.message_eq (h : Refusal ws e text) : e.message = text := by
  cases h with
  | empty => rfl
  | unknownOpcode => rfl
  | oversized => rfl
  | noOperands => exact message_noOperands
  | wrongNumber harity => exact message_wrongArity harity _
  | malformed => rfl

theorem ofWords_of_refusal (h : Refusal ws e text) : ofWords ws = .error e := by
  cases h with
  | empty => rfl
  | unknownOpcode hword => rw [ofWords, ofMnemonic?_eq_none_iff.mpr hword]
  | @oversized op first word rest n hop hword =>
      have hnumber : integerOperand op (first :: word :: rest) = .error (.reading n) :=
        integerOperand_eq_error_iff.mpr ⟨hop, first, word, rest, n, rfl, hword, rfl⟩
      rw [ofWords_mnemonic, ofOperands, hnumber]
  | noOperands => exact ofWords_mnemonic .varList []
  | @wrongNumber op operands k harity hlength hlimit =>
      have hadmits : ¬ op.arity.admits operands.length = true := by
        rw [harity]
        simpa [Arity.admits] using hlength
      rw [ofWords_mnemonic, ofOperands]
      cases hnumber : integerOperand op operands with
      | error e =>
          obtain ⟨hop, first, word, rest, n, hoperands, hover, _⟩ :=
            integerOperand_eq_error_iff.mp hnumber
          exact absurd hover (hlimit hop first word rest n hoperands)
      | ok number =>
          cases hinst : ofOperands? op operands number with
          | some inst => exact absurd (admits_of_ofOperands? hinst) hadmits
          | none =>
              dsimp only
              rw [hinst, diagnose, if_neg hadmits]
  | @malformed op first word rest hop harity hword =>
      have hadmits : op.arity.admits (first :: word :: rest).length = true := by
        rw [harity]
        simp [Arity.admits]
      rw [ofWords_mnemonic, ofOperands, integerOperand_cons hop,
        Numeral.readWord_eq_none_iff.mpr hword]
      dsimp only
      rw [ofOperands?_of_none hop, diagnose, if_pos hadmits]

/-- **The words that are an instruction.** -/
theorem ofWords_eq_ok_iff : ofWords ws = .ok inst ↔ Spelling ws inst := by
  constructor
  · intro h
    rcases spelling_or_refusal ws with ⟨inst', hspelling⟩ | ⟨e, hrefusal⟩
    · rw [ofWords_of_spelling hspelling] at h
      cases h
      exact hspelling
    · rw [ofWords_of_refusal hrefusal] at h
      cases h
  · exact ofWords_of_spelling

/-- **The words that are refused**, with the failure and its wording. -/
theorem ofWords_eq_error_iff :
    ofWords ws = .error e ∧ e.message = text ↔ Refusal ws e text := by
  constructor
  · rintro ⟨h, rfl⟩
    rcases spelling_or_refusal ws with ⟨inst, hspelling⟩ | ⟨e', hrefusal⟩
    · rw [ofWords_of_spelling hspelling] at h
      cases h
    · rw [ofWords_of_refusal hrefusal] at h
      cases h
      exact hrefusal
  · intro h
    exact ⟨ofWords_of_refusal h, h.message_eq⟩

end Words

/-- **Lines are read by the rules.**  A line has one sequence of words, and what it is read
as depends on these alone: it is the instruction that they spell, or it is refused with the
failure and the wording that the rules of refusal give.  That is what the grammar reads,
with the diagnosis of what it does not match, whatever the library of patterns. -/
theorem decode_follows_grammar (line : String) :
    ∃ ws : List String,
      (∀ ws' : List String, Text.Splits line.toList (ws'.map String.toList) ↔ ws' = ws) ∧
      (∀ inst, decode line = .ok inst ↔ Spelling ws inst) ∧
      (∀ e text, decode line = .error e ∧ e.message = text ↔ Refusal ws e text) ∧
      (∀ line' : String, Text.Splits line'.toList (ws.map String.toList) →
        decode line' = decode line) ∧
      ∀ L : Text.PatternLibrary, L.Lawful → Grammar.read L line = decode line := by
  refine ⟨Text.splitWords line, fun ws' => Text.splits_toList_iff, fun inst => ofWords_eq_ok_iff,
    fun e text => ofWords_eq_error_iff, fun line' h => ?_,
    fun L hL => Grammar.read_eq_decode hL line⟩
  rw [decode, decode, Text.splits_toList_iff.mp h]

section Overlong

/-- A line with some digits in the place of an integer, and one operand too many. -/
def branchLine (ds : List Char) : String :=
  Text.joinWords ["IF", "x", String.ofList ds, "y"]

theorem splits_branchLine {ds : List Char} (hds : Numeral.isDigitRun ds = true) :
    Text.Splits (branchLine ds).toList (["IF", "x", String.ofList ds, "y"].map String.toList) := by
  have hwords : ∀ w, w ∈ ["IF", "x", String.ofList ds, "y"] → Text.IsWord w := by
    simp only [List.forall_mem_cons]
    exact ⟨by decide, by decide, Text.isWord_of_isDigitRun hds, by decide, by simp⟩
  exact Text.splits_toList_iff.mpr (Text.splitWords_joinWords hwords).symm

theorem oversized_of_isDigitRun {ds : List Char} (hds : Numeral.isDigitRun ds = true)
    (hlimit : Numeral.digitLimit < ds.length) :
    Numeral.Oversized (String.ofList ds) ds.length :=
  ⟨[], ds, String.toList_ofList, Or.inl rfl, (Numeral.isDigitRun_iff.mp hds).2, rfl, hlimit⟩

/-- White space of any kind parts the words, and signs and zeros may stand before a number;
too many digits are refused although the operands are wrong in number. -/
theorem decode_follows_grammar_signed_and_overlong :
    decode "\tSET  x\u3000+007 y" = .ok (.set "x" 7 "y") ∧
      decode (branchLine (List.replicate 4301 '0')) = .error (.limit (.reading 4301)) ∧
      Grammar.read .functions (branchLine (List.replicate 4301 '0')) =
        .error (.limit (.reading 4301)) := by
  obtain ⟨ws, hwords, hok, _⟩ := decode_follows_grammar "\tSET  x\u3000+007 y"
  obtain rfl : ["SET", "x", "+007", "y"] = ws := (hwords _).mp (Text.splits_iff.mpr (by decide))
  obtain ⟨hne, hall⟩ := Numeral.isDigitRun_iff.mp (rfl : Numeral.isDigitRun ['0', '0', '7'] = true)
  have hseven : Numeral.Denotes "+007" 7 :=
    ⟨['+'], ['0', '0', '7'], rfl, Or.inr (Or.inl rfl), hne, hall, by decide, rfl⟩
  have hzeros : Numeral.isDigitRun (List.replicate 4301 '0') = true :=
    Numeral.isDigitRun_replicate rfl (by decide)
  have hover := oversized_of_isDigitRun hzeros (by rw [List.length_replicate]; decide)
  rw [List.length_replicate] at hover
  obtain ⟨ws', hwords', _, herror, _, hread⟩ :=
    decode_follows_grammar (branchLine (List.replicate 4301 '0'))
  obtain rfl := (hwords' _).mp (splits_branchLine hzeros)
  have hrefused : decode (branchLine (List.replicate 4301 '0')) = .error (.limit (.reading 4301)) :=
    ((herror _ _).mpr (@Refusal.oversized .branch _ _ _ _ rfl hover)).1
  exact ⟨(hok _).mpr (.set hseven), hrefused,
    (hread .functions Text.PatternLibrary.lawful_functions).trans hrefused⟩

end Overlong

end Instruction
end LineMachine
