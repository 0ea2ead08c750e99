import LineMachine.Instruction.Decode
import LineMachine.Proofs.Text.Expression

/-!
# The grammar of instructions

An instruction is also given by a grammar: each opcode has a pattern, its keyword and the
operands after it, and an instruction is what one of the ten matches.  A line is read with
the grammar after its words have been joined by single spaces.  If it is not matched, the
reason is found afterwards, from the words alone.

The grammar and the diagnosis know nothing of each other.  That the line is read with them
as `Instruction.decode` reads it, says that what the grammar refuses is what the diagnosis
can explain.

**Input.**  A line of program text, and a library of patterns with its laws.

**Method.**  What is left of the joined words is always a space and the next word, as often
as there are words; so each pattern either takes one word and leaves such a text, or it
stops.

**Results.**
* `run_integer_cons`: the pattern of an integer takes the words that are literals.
* `verdict_runAll_production`: the pattern of an opcode takes the operands that fit it.
* `read_eq_decode`: the grammar and the diagnosis read lines as `Instruction.decode` does.
-/

namespace LineMachine

theorem Instruction.integerOperand_cons {op : Opcode} (hop : op.hasIntegerOperand = true)
    (first word : String) (rest : List String) :
    integerOperand op (first :: word :: rest) = Numeral.readWord word := by
  rw [integerOperand, if_pos hop]

namespace Grammar

open Text

section Patterns

variable (L : PatternLibrary)

def keyword (op : Opcode) : L.Pattern String :=
  L.matching (exactly op.mnemonic.toList)

def name : L.Pattern String :=
  L.matching wordChars

/-- The value of an integer literal.  The default is never met, as what is matched is one. -/
def integer : L.Pattern Int :=
  L.act (L.matching signedDigits) fun w => (Numeral.readWord w).map fun number => number.getD 0

/-- An opcode, which is not kept, and the name that comes first. -/
def opening (op : Opcode) : L.Pattern String :=
  L.act (L.andThen (keyword L op) (name L)) fun (_, first) => .ok first

def ofName (op : Opcode) (make : String → Instruction) : L.Pattern Instruction :=
  L.act (opening L op) fun first => .ok (make first)

/-- An opcode with two names. -/
def ofNames (op : Opcode) (make : String → String → Instruction) : L.Pattern Instruction :=
  L.act (L.andThen (opening L op) (name L)) fun (first, second) => .ok (make first second)

/-- An opcode with a name and any number of names more. -/
def ofManyNames (op : Opcode) (make : String → List String → Instruction) :
    L.Pattern Instruction :=
  L.act (L.andThen (opening L op) (L.many (name L))) fun (first, others) =>
    .ok (make first others)

/-- An opcode with a name and an integer. -/
def ofInteger (op : Opcode) (make : String → Int → Instruction) : L.Pattern Instruction :=
  L.act (L.andThen (opening L op) (integer L)) fun (first, number) => .ok (make first number)

/-- An opcode with an integer between two names. -/
def ofIndexed (op : Opcode) (make : String → Int → String → Instruction) :
    L.Pattern Instruction :=
  L.act (L.andThen (L.andThen (opening L op) (integer L)) (name L))
    fun ((first, number), last) => .ok (make first number last)

/-- The pattern of an opcode and its operands. -/
def production : Opcode → L.Pattern Instruction
  | .varInt => ofInteger L .varInt .varInt
  | .varList => ofManyNames L .varList .varList
  | .combine => ofNames L .combine .combine
  | .get => ofIndexed L .get .get
  | .set => ofIndexed L .set .set
  | .copy => ofNames L .copy .copy
  | .changeSign => ofName L .changeSign .changeSign
  | .add => ofNames L .add .add
  | .branch => ofInteger L .branch .branch
  | .halt => L.act (keyword L .halt) fun _ => .ok .halt

/-- The pattern of any of some opcodes, and its operands. -/
def productions (op : Opcode) : List Opcode → L.Pattern Instruction
  | [] => production L op
  | op' :: ops => L.orElse (production L op) (productions op' ops)

def instruction : L.Pattern Instruction :=
  productions L .varInt
    [.varList, .combine, .get, .set, .copy, .changeSign, .add, .branch, .halt]

/-- Why the words of a line are no instruction. -/
def diagnosis : List String → DecodeError
  | [] => .empty
  | word :: operands =>
    match Opcode.ofMnemonic? word with
    | none => .unknownOpcode word
    | some op => Instruction.diagnose op operands

/-- The instruction that a line is by the grammar. -/
def read (line : String) : Except Failure Instruction :=
  let ws := Text.splitWords line
  match L.runAll (instruction L) (" ".intercalate ws).toList with
  | .ok inst => .ok inst
  | .error (.refused e) => .error (.limit e)
  | .error _ => .error (.fault (.decode (diagnosis ws)))

end Patterns

section Words

theorem isWord_mnemonic (op : Opcode) : IsWord op.mnemonic := by
  cases op <;> decide

variable {L : PatternLibrary} (hL : L.Lawful) {w : String} {ws : List String}

include hL

theorem run_matching_nil (e : Expression) (he : e [] = none) :
    L.run (L.matching e) (spaced []) = .error .mismatch := by
  have hspaced : (spaced []).dropWhile Numeral.isMargin = [] := rfl
  rw [hL.run_matching, hspaced, he]

theorem run_name_nil : L.run (name L) (spaced []) = .error .mismatch :=
  run_matching_nil hL _ rfl

theorem run_name_cons (hw : IsWord w) :
    L.run (name L) (spaced (w :: ws)) = .ok (w, spaced ws) := by
  rw [name, hL.run_matching, dropWhile_isMargin_spaced hw,
    wordChars_append hw.1 hw.2 (atBreak_spaced ws)]
  dsimp only
  rw [String.ofList_toList]

theorem run_integer_nil : L.run (integer L) (spaced []) = .error .mismatch := by
  rw [integer, hL.run_act, run_matching_nil hL _ rfl]

/-- **The pattern of an integer takes the words that are literals** and values them. -/
theorem run_integer_cons (hw : IsWord w) :
    L.run (integer L) (spaced (w :: ws)) =
      match Numeral.readWord w with
      | .ok (some n) => .ok (n, spaced ws)
      | .ok none => .error .mismatch
      | .error e => .error (.refused e) := by
  rw [integer, hL.run_act, hL.run_matching, dropWhile_isMargin_spaced hw,
    signedDigits_append hw.1 hw.2 (atBreak_spaced ws)]
  cases hword : Numeral.Literal.ofWord? w.toList with
  | none =>
      rw [Numeral.readWord, Numeral.readChars, hword]
      rfl
  | some l =>
      rw [Option.isSome_some, if_pos rfl]
      dsimp only
      rw [String.ofList_toList, Numeral.readWord, Numeral.readChars, hword]
      dsimp only
      cases l.value <;> rfl

/-- Names are taken up to the last one. -/
theorem run_many_name (hws : ∀ v, v ∈ ws → IsWord v) :
    L.run (L.many (name L)) (spaced ws) = .ok (ws, []) := by
  induction ws with
  | nil => exact hL.run_many_of_mismatch _ _ (run_name_nil hL)
  | cons w ws ih =>
      obtain ⟨hw, hws⟩ := List.forall_mem_cons.mp hws
      exact hL.run_many_of_ok _ _ (run_name_cons hL hw) (length_spaced_lt w ws) (ih hws)

theorem run_keyword (op : Opcode) (hw : IsWord w) :
    L.run (keyword L op) (w.toList ++ spaced ws) =
      if op.mnemonic = w then .ok (w, spaced ws) else .error .mismatch := by
  rw [keyword, hL.run_matching, dropWhile_isMargin_append hw,
    exactly_append (isWord_mnemonic op).2 hw.2 (atBreak_spaced ws)]
  by_cases heq : op.mnemonic = w
  · rw [if_pos heq, if_pos (congrArg String.toList heq), heq]
    dsimp only
    rw [String.ofList_toList]
  · rw [if_neg heq, if_neg fun h => heq (String.toList_inj.mp h)]

end Words

section Productions

variable {L : PatternLibrary} (hL : L.Lawful) {op : Opcode} {ws : List String}

include hL

/-- An opcode gives way to the others only where its keyword is not. -/
theorem run_production_eq_mismatch_iff (cs : List Char) :
    L.run (production L op) cs = .error .mismatch ↔ L.run (keyword L op) cs = .error .mismatch := by
  cases op <;>
    simp only [production, ofName, ofNames, ofManyNames, ofInteger, ofIndexed, opening,
      hL.run_act_eq_mismatch_iff, hL.run_andThen_eq_mismatch_iff]

theorem run_opening :
    (∀ v, v ∈ ws → IsWord v) → L.run (opening L op) (op.mnemonic.toList ++ spaced ws) =
      match ws with
      | first :: rest => .ok (first, spaced rest)
      | [] => .error .stuck := by
  intro hws
  rw [opening, hL.run_act, hL.run_andThen, run_keyword hL op (isWord_mnemonic op), if_pos rfl]
  cases ws with
  | nil =>
      dsimp only
      rw [run_name_nil hL]
  | cons first rest =>
      dsimp only
      rw [run_name_cons hL (hws first List.mem_cons_self)]
      rfl

theorem run_ofName (make : String → Instruction) :
    (∀ v, v ∈ ws → IsWord v) → L.run (ofName L op make) (op.mnemonic.toList ++ spaced ws) =
      match ws with
      | first :: rest => .ok (make first, spaced rest)
      | [] => .error .stuck := by
  intro hws
  rw [ofName, hL.run_act, run_opening hL hws]
  cases ws <;> rfl

theorem run_ofNames (make : String → String → Instruction) :
    (∀ v, v ∈ ws → IsWord v) → L.run (ofNames L op make) (op.mnemonic.toList ++ spaced ws) =
      match ws with
      | first :: second :: rest => .ok (make first second, spaced rest)
      | _ => .error .stuck := by
  intro hws
  rw [ofNames, hL.run_act, hL.run_andThen, run_opening hL hws]
  rcases ws with _ | ⟨first, _ | ⟨second, rest⟩⟩
  · rfl
  · dsimp only
    rw [run_name_nil hL]
  · dsimp only
    rw [run_name_cons hL (hws second (by simp))]
    rfl

theorem run_ofManyNames (make : String → List String → Instruction) :
    (∀ v, v ∈ ws → IsWord v) → L.run (ofManyNames L op make) (op.mnemonic.toList ++ spaced ws) =
      match ws with
      | first :: others => .ok (make first others, [])
      | [] => .error .stuck := by
  intro hws
  rw [ofManyNames, hL.run_act, hL.run_andThen, run_opening hL hws]
  rcases ws with _ | ⟨first, others⟩
  · rfl
  · dsimp only
    rw [run_many_name hL fun v hv => hws v (List.mem_cons_of_mem first hv)]
    rfl

/-- An opcode with a name and an integer, whatever is made of these. -/
theorem run_andThen_integer :
    (∀ v, v ∈ ws → IsWord v) →
      L.run (L.andThen (opening L op) (integer L)) (op.mnemonic.toList ++ spaced ws) =
      match ws with
      | first :: word :: rest =>
        match Numeral.readWord word with
        | .ok (some number) => .ok ((first, number), spaced rest)
        | .ok none => .error .stuck
        | .error e => .error (.refused e)
      | _ => .error .stuck := by
  intro hws
  rw [hL.run_andThen, run_opening hL hws]
  rcases ws with _ | ⟨first, _ | ⟨word, rest⟩⟩
  · rfl
  · dsimp only
    rw [run_integer_nil hL]
  · dsimp only
    rw [run_integer_cons hL (hws word (by simp))]
    rcases Numeral.readWord word with e | _ | number <;> rfl

theorem run_ofInteger (make : String → Int → Instruction) :
    (∀ v, v ∈ ws → IsWord v) → L.run (ofInteger L op make) (op.mnemonic.toList ++ spaced ws) =
      match ws with
      | first :: word :: rest =>
        match Numeral.readWord word with
        | .ok (some number) => .ok (make first number, spaced rest)
        | .ok none => .error .stuck
        | .error e => .error (.refused e)
      | _ => .error .stuck := by
  intro hws
  rw [ofInteger, hL.run_act, run_andThen_integer hL hws]
  rcases ws with _ | ⟨first, _ | ⟨word, rest⟩⟩
  · rfl
  · rfl
  · dsimp only
    rcases Numeral.readWord word with e | _ | number <;> rfl

theorem run_ofIndexed (make : String → Int → String → Instruction) :
    (∀ v, v ∈ ws → IsWord v) → L.run (ofIndexed L op make) (op.mnemonic.toList ++ spaced ws) =
      match ws with
      | first :: word :: rest =>
        match Numeral.readWord word, rest with
        | .ok (some number), last :: rest => .ok (make first number last, spaced rest)
        | .error e, _ => .error (.refused e)
        | _, _ => .error .stuck
      | _ => .error .stuck := by
  intro hws
  rw [ofIndexed, hL.run_act, hL.run_andThen, run_andThen_integer hL hws]
  rcases ws with _ | ⟨first, _ | ⟨word, rest⟩⟩
  · rfl
  · rfl
  · dsimp only
    rcases Numeral.readWord word with e | _ | number
    · rfl
    · cases rest <;> rfl
    · dsimp only
      cases rest with
      | nil => rw [run_name_nil hL]
      | cons last rest =>
          rw [run_name_cons hL (hws last (by simp))]
          rfl

/-- What a match of a whole text says: the instruction, or that there is none. -/
def verdict : Except Stop Instruction → Except Numeral.DigitLimit (Option Instruction)
  | .ok inst => .ok (some inst)
  | .error (.refused e) => .error e
  | .error _ => .ok none

/-- **The pattern of an opcode takes the operands that fit it**, and values the integer
among them before it looks at what follows. -/
theorem verdict_runAll_production (hws : ∀ v, v ∈ ws → IsWord v) :
    verdict (L.runAll (production L op) (op.mnemonic.toList ++ spaced ws)) =
      (Instruction.integerOperand op ws).map (Instruction.ofOperands? op ws) := by
  rw [hL.runAll_eq]
  cases op with
  | varInt | branch =>
      rw [production, run_ofInteger hL _ hws]
      rcases ws with _ | ⟨first, _ | ⟨word, rest⟩⟩
      · rfl
      · rfl
      · have hrest : ∀ v, v ∈ rest → IsWord v := fun v hv => hws v (by simp [hv])
        rw [Instruction.integerOperand_cons rfl]
        dsimp only
        rcases Numeral.readWord word with e | _ | number
        · rfl
        · cases rest <;> rfl
        · dsimp only
          rw [all_isMargin_spaced hrest]
          cases rest <;> rfl
  | get | set =>
      rw [production, run_ofIndexed hL _ hws]
      rcases ws with _ | ⟨first, _ | ⟨word, rest⟩⟩
      · rfl
      · rfl
      · rw [Instruction.integerOperand_cons rfl]
        dsimp only
        rcases Numeral.readWord word with e | _ | number
        · rfl
        · rcases rest with _ | ⟨last, _ | ⟨more, rest⟩⟩ <;> rfl
        · rcases rest with _ | ⟨last, rest⟩
          · rfl
          · have hrest : ∀ v, v ∈ rest → IsWord v := fun v hv => hws v (by simp [hv])
            dsimp only
            rw [all_isMargin_spaced hrest]
            cases rest <;> rfl
  | combine | copy | add =>
      rw [production, run_ofNames hL _ hws]
      rcases ws with _ | ⟨first, _ | ⟨second, rest⟩⟩
      · rfl
      · rfl
      · have hrest : ∀ v, v ∈ rest → IsWord v := fun v hv => hws v (by simp [hv])
        dsimp only
        rw [all_isMargin_spaced hrest]
        cases rest <;> rfl
  | varList =>
      rw [production, run_ofManyNames hL _ hws]
      rcases ws with _ | ⟨first, _ | ⟨second, rest⟩⟩ <;> rfl
  | changeSign =>
      rw [production, run_ofName hL _ hws]
      rcases ws with _ | ⟨first, rest⟩
      · rfl
      · have hrest : ∀ v, v ∈ rest → IsWord v := fun v hv => hws v (by simp [hv])
        dsimp only
        rw [all_isMargin_spaced hrest]
        rcases rest with _ | ⟨second, rest⟩ <;> rfl
  | halt =>
      rw [production, hL.run_act, run_keyword hL _ (isWord_mnemonic _), if_pos rfl]
      dsimp only [Except.mapError, Except.map]
      rw [all_isMargin_spaced hws]
      rcases ws with _ | ⟨first, _ | ⟨second, rest⟩⟩ <;> rfl

end Productions

section Lines

variable {L : PatternLibrary} (hL : L.Lawful) {op : Opcode} {w : String} {ws : List String}

include hL

/-- Of some opcodes the first whose keyword is there is taken, and no other is tried. -/
theorem run_productions (hw : IsWord w) (op : Opcode) (ops : List Opcode) :
    L.run (productions L op ops) (w.toList ++ spaced ws) =
      match (op :: ops).find? fun op => op.mnemonic == w with
      | some op => L.run (production L op) (w.toList ++ spaced ws)
      | none => .error .mismatch := by
  have hmismatch : ∀ op, op.mnemonic ≠ w →
      L.run (production L op) (w.toList ++ spaced ws) = .error .mismatch := by
    intro op hop
    rw [run_production_eq_mismatch_iff hL, run_keyword hL op hw, if_neg hop]
  have hmatch : ∀ op, op.mnemonic = w →
      L.run (production L op) (w.toList ++ spaced ws) ≠ .error .mismatch := by
    intro op hop h
    rw [run_production_eq_mismatch_iff hL, run_keyword hL op hw, if_pos hop] at h
    cases h
  induction ops generalizing op with
  | nil =>
      by_cases hop : op.mnemonic = w
      · rw [List.find?_cons_of_pos (by simpa using hop)]
        rfl
      · rw [List.find?_cons_of_neg (by simpa using hop)]
        exact hmismatch op hop
  | cons op' ops ih =>
      rw [productions]
      by_cases hop : op.mnemonic = w
      · rw [List.find?_cons_of_pos (by simpa using hop), hL.run_orElse_of_ne (hmatch op hop)]
      · rw [List.find?_cons_of_neg (by simpa using hop),
          hL.run_orElse_of_mismatch (hmismatch op hop)]
        exact ih op'

theorem run_productions_nil (op : Opcode) (ops : List Opcode) :
    L.run (productions L op ops) [] = .error .mismatch := by
  have hmismatch : ∀ op, L.run (production L op) [] = .error .mismatch := by
    intro op
    rw [run_production_eq_mismatch_iff hL, keyword]
    refine run_matching_nil hL _ ?_
    cases op <;> rfl
  induction ops generalizing op with
  | nil => exact hmismatch op
  | cons op' ops ih =>
      rw [productions, hL.run_orElse_of_mismatch (hmismatch op)]
      exact ih op'

/-- The verdict on the joined words is what the words say. -/
theorem verdict_runAll_instruction (hw : IsWord w) (hws : ∀ v, v ∈ ws → IsWord v) :
    verdict (L.runAll (instruction L) (w.toList ++ spaced ws)) =
      match Opcode.ofMnemonic? w with
      | some op => (Instruction.integerOperand op ws).map (Instruction.ofOperands? op ws)
      | none => .ok none := by
  have hall : Opcode.ofMnemonic? w =
      (Opcode.varInt :: [.varList, .combine, .get, .set, .copy, .changeSign, .add, .branch,
        .halt]).find? fun op => op.mnemonic == w := rfl
  rw [hL.runAll_eq, instruction, run_productions hL hw, ← hall]
  cases hop : Opcode.ofMnemonic? w with
  | none => rfl
  | some op =>
      obtain rfl := Opcode.mnemonic_of_ofMnemonic? hop
      dsimp only
      rw [← verdict_runAll_production hL hws, hL.runAll_eq]

/-- **The grammar and the diagnosis read lines as `Instruction.decode` does.** -/
theorem read_eq_decode (line : String) : read L line = Instruction.decode line := by
  have hverdict : read L line =
      match verdict (L.runAll (instruction L) (" ".intercalate (Text.splitWords line)).toList) with
      | .ok (some inst) => .ok inst
      | .ok none => .error (.fault (.decode (diagnosis (Text.splitWords line))))
      | .error e => .error (.limit e) := by
    dsimp only [read]
    rcases L.runAll (instruction L) _ with (_ | _ | e) | inst <;> rfl
  have hwords : ∀ v, v ∈ Text.splitWords line → IsWord v := fun v => Text.isWord_of_mem_splitWords
  rw [hverdict, Instruction.decode]
  cases hline : Text.splitWords line with
  | nil =>
      have hempty : (" ".intercalate ([] : List String)).toList = [] := rfl
      rw [hempty, hL.runAll_eq, instruction, run_productions_nil hL]
      rfl
  | cons w ws =>
      rw [hline] at hwords
      obtain ⟨hw, hws⟩ := List.forall_mem_cons.mp hwords
      rw [toList_intercalate, verdict_runAll_instruction hL hw hws, Instruction.ofWords, diagnosis]
      cases Opcode.ofMnemonic? w with
      | none => rfl
      | some op =>
          dsimp only
          rw [Instruction.ofOperands]
          rcases Instruction.integerOperand op ws with e | number
          · rfl
          · dsimp only [Except.map]
            cases Instruction.ofOperands? op ws number <;> rfl

end Lines

end Grammar
end LineMachine
