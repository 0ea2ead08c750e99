import LineMachine.Proofs.Instruction.Confinement
import LineMachine.Proofs.Text.Words

/-!
# Renaming the words of a program

The operands of an instruction are renamed, but for the integer among them.  What a word
means depends on whether it is a literal; so a renaming takes words to words, no two to
the same one, and leaves the literals as they are.

**Input.**  A line that is an instruction; a line with the renamed words, however these
are set apart.

**Results.**
* `Instruction.rename`, `Fault.rename`: instructions and faults with renamed variables.
* `Renaming.readMargined_eq`: a renamed word is read as the literal that it was, if any.
* `Instruction.decodesAlike_of_renamedLine`: a renamed line is the renamed instruction.
-/

namespace LineMachine

/-- The fault, with the variable that it names renamed. -/
def Fault.rename (ρ : String → String) : Fault → Fault
  | decode error => decode error
  | undefinedVariable name => undefinedVariable (ρ name)
  | typeMismatch expected got => typeMismatch expected got
  | indexOutOfRange index length => indexOutOfRange index length

def Failure.rename (ρ : String → String) : Failure → Failure
  | fault f => fault (f.rename ρ)
  | limit e => limit e

/-- The instruction, with its variables and elements renamed. -/
def Instruction.rename (ρ : String → String) : Instruction → Instruction
  | varInt var value => varInt (ρ var) value
  | varList var elements => varList (ρ var) (elements.map ρ)
  | combine first second => combine (ρ first) (ρ second)
  | get dest index seq => get (ρ dest) index (ρ seq)
  | set source index seq => set (ρ source) index (ρ seq)
  | copy dest source => copy (ρ dest) (ρ source)
  | changeSign var => changeSign (ρ var)
  | add var operand => add (ρ var) (ρ operand)
  | branch var target => branch (ρ var) target
  | halt => halt

@[simp] theorem Fault.rename_id (f : Fault) : f.rename id = f := by
  cases f <;> rfl

@[simp] theorem Failure.rename_id (e : Failure) : e.rename id = e := by
  cases e with
  | fault f => exact congrArg fault f.rename_id
  | limit e => rfl

/-- No variable is named by the failure at an index outside a list. -/
theorem Failure.rename_outOfRange (ρ : String → String) (index : Int) (length : Nat) :
    (Heap.outOfRange index length).rename ρ = Heap.outOfRange index length := by
  rw [Heap.outOfRange]
  split
  · rfl
  · rfl

@[simp] theorem Instruction.rename_id (inst : Instruction) : inst.rename id = inst := by
  cases inst with
  | varList var elements => exact congrArg (varList var) (List.map_id elements)
  | _ => rfl

/-- A renaming of words, which leaves the literals among them as they are. -/
structure Renaming (ρ : String → String) : Prop where
  isWord : ∀ w, Text.IsWord w → Text.IsWord (ρ w)
  injective : ∀ v w, Text.IsWord v → Text.IsWord w → ρ v = ρ w → v = w
  literal : ∀ w, Text.IsWord w → (Numeral.Literal.ofWord? w.toList).isSome = true → ρ w = w

/-- The tokens of a set are told apart after renaming, and are read as the same
literals. -/
structure TokenRenaming (T : String → Prop) (ρ : String → String) : Prop where
  injective : ∀ t u, T t → T u → ρ t = ρ u → t = u
  readMargined_eq : ∀ t, T t → Numeral.readMargined (ρ t) = Numeral.readMargined t

theorem tokenRenaming_id : TokenRenaming (fun _ => True) id :=
  ⟨fun _ _ _ _ heq => heq, fun _ _ => rfl⟩

namespace Renaming

variable {ρ : String → String}

/-- A renamed word is no literal, unless it was one and is the same still. -/
theorem ofWord?_eq (hρ : Renaming ρ) {w : String} (hw : Text.IsWord w) :
    Numeral.Literal.ofWord? (ρ w).toList = Numeral.Literal.ofWord? w.toList := by
  by_cases hliteral : (Numeral.Literal.ofWord? w.toList).isSome = true
  · rw [hρ.literal w hw hliteral]
  · have hrenamed : ¬ (Numeral.Literal.ofWord? (ρ w).toList).isSome = true := by
      intro h
      -- a literal is its own image, and has no other preimage
      have hsame := hρ.injective _ _ (hρ.isWord w hw) hw (hρ.literal _ (hρ.isWord w hw) h)
      rw [hsame] at h
      exact hliteral h
    rw [Option.not_isSome_iff_eq_none] at hliteral hrenamed
    rw [hliteral, hrenamed]

theorem readMargined_eq (hρ : Renaming ρ) {w : String} (hw : Text.IsWord w) :
    Numeral.readMargined (ρ w) = Numeral.readMargined w := by
  rw [Text.readMargined_of_isWord hw, Text.readMargined_of_isWord (hρ.isWord w hw),
    Numeral.readWord, Numeral.readWord, Numeral.readChars, Numeral.readChars, hρ.ofWord?_eq hw]

theorem tokenRenaming (hρ : Renaming ρ) : TokenRenaming Text.IsWord ρ :=
  ⟨hρ.injective, fun _ => hρ.readMargined_eq⟩

end Renaming

namespace Instruction

/-- The operands of an opcode renamed, but for the integer among them. -/
def renameOperands (ρ : String → String) (op : Opcode) : List String → List String
  | first :: second :: rest =>
    ρ first :: (if op.hasIntegerOperand then second else ρ second) :: rest.map ρ
  | operands => operands.map ρ

/-- The words of an instruction with the operands renamed. -/
def renameWords (ρ : String → String) : List String → List String
  | [] => []
  | word :: operands =>
    match Opcode.ofMnemonic? word with
    | some op => word :: renameOperands ρ op operands
    | none => word :: operands.map ρ

/-- The second line has the words of the first, renamed. -/
def RenamedLine (ρ : String → String) (line line' : String) : Prop :=
  Text.splitWords line' = renameWords ρ (Text.splitWords line)

instance (ρ : String → String) (line line' : String) : Decidable (RenamedLine ρ line line') :=
  inferInstanceAs (Decidable (_ = _))

/-- Both lines are read, the second as the renamed instruction, whose tokens are of the
set; or both cannot be read, for the same reason. -/
inductive DecodesAlike (T : String → Prop) (ρ : String → String) :
    Except Failure Instruction → Except Failure Instruction → Prop
  | ok {inst : Instruction} (hnames : ∀ name, name ∈ inst.names → T name) :
      DecodesAlike T ρ (.ok inst) (.ok (inst.rename ρ))
  | error (e : Failure) : DecodesAlike T ρ (.error e) (.error (e.rename ρ))

theorem decodesAlike_id (line : String) :
    DecodesAlike (fun _ => True) id (decode line) (decode line) := by
  cases decode line with
  | ok inst =>
      have h : DecodesAlike (fun _ => True) id (.ok inst) (.ok (inst.rename id)) :=
        .ok fun _ _ => trivial
      rwa [rename_id] at h
  | error e =>
      have h : DecodesAlike (fun _ => True) id (.error e) (.error (e.rename id)) := .error e
      rwa [Failure.rename_id] at h

section Lines

variable {ρ : String → String} {op : Opcode} {operands : List String}

theorem isWord_renameOperands (hρ : Renaming ρ) (hoperands : ∀ w, w ∈ operands → Text.IsWord w) :
    ∀ w, w ∈ renameOperands ρ op operands → Text.IsWord w := by
  have hmap : ∀ ws : List String, (∀ w, w ∈ ws → Text.IsWord w) →
      ∀ w, w ∈ ws.map ρ → Text.IsWord w := by
    intro ws hws w hw
    obtain ⟨v, hv, rfl⟩ := List.mem_map.mp hw
    exact hρ.isWord v (hws v hv)
  unfold renameOperands
  split
  · rename_i first second rest
    obtain ⟨hfirst, hothers⟩ := List.forall_mem_cons.mp hoperands
    obtain ⟨hsecond, hrest⟩ := List.forall_mem_cons.mp hothers
    refine List.forall_mem_cons.mpr ⟨hρ.isWord first hfirst, List.forall_mem_cons.mpr ⟨?_, ?_⟩⟩
    · split
      · exact hsecond
      · exact hρ.isWord second hsecond
    · exact hmap rest hrest
  · exact hmap operands hoperands

/-- **Every line has a renamed line.** -/
theorem renamedLine_joinWords (hρ : Renaming ρ) (line : String) :
    RenamedLine ρ line (Text.joinWords (renameWords ρ (Text.splitWords line))) := by
  refine Text.splitWords_joinWords ?_
  have hline : ∀ w, w ∈ Text.splitWords line → Text.IsWord w :=
    fun w => Text.isWord_of_mem_splitWords
  cases hwords : Text.splitWords line with
  | nil =>
      intro w hw
      cases hw
  | cons word operands =>
      rw [hwords] at hline
      obtain ⟨hword, hoperands⟩ := List.forall_mem_cons.mp hline
      rw [renameWords]
      split
      · exact List.forall_mem_cons.mpr ⟨hword, isWord_renameOperands hρ hoperands⟩
      · refine List.forall_mem_cons.mpr ⟨hword, fun w hw => ?_⟩
        obtain ⟨v, hv, rfl⟩ := List.mem_map.mp hw
        exact hρ.isWord v (hoperands v hv)

/-- The integer operand is not renamed. -/
theorem integerOperand_renameOperands (ρ : String → String) (op : Opcode)
    (operands : List String) :
    integerOperand op (renameOperands ρ op operands) = integerOperand op operands := by
  match operands with
  | [] => rfl
  | [_] => rfl
  | _ :: _ :: _ => cases op <;> rfl

theorem ofOperands?_renameOperands {number : Option Int} {inst : Instruction}
    (h : ofOperands? op operands number = some inst) :
    ofOperands? op (renameOperands ρ op operands) number = some (inst.rename ρ) := by
  unfold ofOperands? at h
  split at h <;> cases h
  -- a new list is the only form with any number of operands
  case h_2 var elements => cases elements <;> rfl
  all_goals rfl

theorem mem_operands_of_mem_names {number : Option Int} {inst : Instruction}
    (h : ofOperands? op operands number = some inst) :
    ∀ name, name ∈ inst.names → name ∈ operands := by
  unfold ofOperands? at h
  split at h <;> cases h
  all_goals
    intro name hname
    grind [names]

theorem ofOperands_renameOperands {inst : Instruction} (h : ofOperands op operands = .ok inst) :
    ofOperands op (renameOperands ρ op operands) = .ok (inst.rename ρ) ∧
      ∀ name, name ∈ inst.names → name ∈ operands := by
  rw [ofOperands, integerOperand_renameOperands]
  unfold ofOperands at h
  split at h
  · cases h
  · split at h
    · rename_i hinst
      cases h
      rw [ofOperands?_renameOperands hinst]
      exact ⟨rfl, mem_operands_of_mem_names hinst⟩
    · cases h

/-- **A renamed line is the renamed instruction.** -/
theorem decodesAlike_of_renamedLine {line line' : String} {inst : Instruction}
    (hline : RenamedLine ρ line line') (h : decode line = .ok inst) :
    DecodesAlike Text.IsWord ρ (decode line) (decode line') := by
  have hwords : ∀ w, w ∈ Text.splitWords line → Text.IsWord w :=
    fun w => Text.isWord_of_mem_splitWords
  rw [h]
  rw [decode] at h ⊢
  rw [hline]
  cases hsplit : Text.splitWords line with
  | nil =>
      rw [hsplit] at h
      cases h
  | cons word operands =>
      rw [hsplit] at h hwords
      rw [renameWords]
      rw [ofWords] at h
      split at h
      · cases h
      · rename_i op hop
        obtain ⟨hrenamed, hnames⟩ := ofOperands_renameOperands (ρ := ρ) h
        rw [hop]
        dsimp only
        rw [ofWords, hop]
        dsimp only
        rw [hrenamed]
        exact .ok fun name hname => hwords name (List.mem_cons_of_mem _ (hnames name hname))

end Lines

end Instruction
end LineMachine
