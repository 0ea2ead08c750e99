import LineMachine.Heap.Render
import LineMachine.Proofs.Instruction.Footprint
import LineMachine.Proofs.Instruction.Spelling
import LineMachine.Proofs.Machine.Step
import LineMachine.Proofs.Numeral.Normal

/-!
# Where integers are read

A word is read as an integer at two times.  In four places of the instructions it is an
integer by its position and is read with its line; as an element of a list, or as the source
of a replacement, it is read when the instruction is executed, and then only if no variable
has its name.  Either way the same words are integers, and they stand for the same ones; what
an integer is written as is one of these words.

**Input.**  A word within the digit limit.

**Results.**
* `Instruction.Site.decode_line`: how a line is read with a word in the place of an integer.
* `Machine.step_varInt`, `Machine.step_singleton`, `Machine.step_singleton_of_none`: the steps
  in which a word is read at one time and at the other.
* `Machine.integers_read_as_written`: reading is the inverse of writing, in all places.
-/

namespace LineMachine
namespace Instruction

/-- The places in the instructions where a word is an integer by its position, each with the
words around it. -/
inductive Site where
  | value (var : String)
  | getIndex (dest seq : String)
  | setIndex (source seq : String)
  | target (var : String)

namespace Site

def opcode : Site → Opcode
  | value _ => .varInt
  | getIndex _ _ => .get
  | setIndex _ _ => .set
  | target _ => .branch

/-- The operands with a word in the place. -/
def operands : Site → String → List String
  | value var, t | target var, t => [var, t]
  | getIndex first last, t | setIndex first last, t => [first, t, last]

/-- The line with a word in the place. -/
def line (site : Site) (t : String) : String :=
  " ".intercalate (site.opcode.mnemonic :: site.operands t)

/-- The instruction with an integer in the place. -/
def instruction : Site → Int → Instruction
  | value var, n => .varInt var n
  | getIndex dest seq, n => .get dest n seq
  | setIndex source seq, n => .set source n seq
  | target var, n => .branch var n

/-- What stands around the place are words. -/
def Named : Site → Prop
  | value var | target var => Text.IsWord var
  | getIndex first last | setIndex first last => Text.IsWord first ∧ Text.IsWord last

variable (site : Site) {t : String}

theorem instruction_injective : Function.Injective site.instruction := by
  intro m n h
  cases site with
  | value var | target var =>
      cases h
      rfl
  | getIndex first last | setIndex first last =>
      cases h
      rfl

theorem splitWords_line (hsite : site.Named) (ht : Text.IsWord t) :
    Text.splitWords (site.line t) = site.opcode.mnemonic :: site.operands t := by
  refine Text.splitWords_intercalate (List.forall_mem_cons.mpr
    ⟨Grammar.isWord_mnemonic site.opcode, ?_⟩)
  cases site with
  | value var | target var => simpa [operands] using ⟨hsite, ht⟩
  | getIndex first last | setIndex first last => simpa [operands] using ⟨hsite.1, ht, hsite.2⟩

/-- The integer operand is the word in the place. -/
theorem integerOperand_operands (t : String) :
    integerOperand site.opcode (site.operands t) = Numeral.readWord t := by
  have hop : site.opcode.hasIntegerOperand = true := by cases site <;> rfl
  cases site <;> exact integerOperand_cons hop _ _ _

/-- The operands fit the opcode just if there is an integer. -/
theorem ofOperands?_operands (t : String) (number : Option Int) :
    ofOperands? site.opcode (site.operands t) number = number.map site.instruction := by
  cases site <;> cases number <;> rfl

theorem diagnose_operands (t : String) :
    diagnose site.opcode (site.operands t) = .malformedInteger site.opcode := by
  cases site <;> rfl

/-- **How a line is read with a word in the place of an integer**: as the word is. -/
theorem decode_line (hsite : site.Named) (ht : Text.IsWord t) :
    decode (site.line t) =
      match Numeral.readMargined t with
      | .error e => .error (.limit e)
      | .ok none => .error (.fault (.decode (.malformedInteger site.opcode)))
      | .ok (some n) => .ok (site.instruction n) := by
  rw [decode, splitWords_line site hsite ht, ofWords_mnemonic, ofOperands, integerOperand_operands,
    Text.readMargined_of_isWord ht]
  cases Numeral.readWord t with
  | error e => rfl
  | ok number =>
      dsimp only
      rw [ofOperands?_operands, diagnose_operands]
      cases number <;> rfl

example : decode ((target "x").line "+07") = .ok (.branch "x" 7) := by decide

/-- A line is read as the instruction with an integer just if the word is this integer. -/
theorem decode_line_eq_ok_iff (hsite : site.Named) (ht : Text.IsWord t) (n : Int) :
    decode (site.line t) = .ok (site.instruction n) ↔ Numeral.readMargined t = .ok (some n) := by
  rw [decode_line site hsite ht]
  rcases Numeral.readMargined t with e | _ | k
  · simp
  · simp
  · simp [site.instruction_injective.eq_iff]

/-- A line is refused as malformed just if the word is no literal. -/
theorem decode_line_eq_malformed_iff (hsite : site.Named) (ht : Text.IsWord t) :
    decode (site.line t) = .error (.fault (.decode (.malformedInteger site.opcode))) ↔
      Numeral.readMargined t = .ok none := by
  rw [decode_line site hsite ht]
  rcases Numeral.readMargined t with e | _ | k
  · simp
  · simp
  · simp

end Site

/-- The line that makes a list of one element. -/
def singletonLine (var t : String) : String :=
  " ".intercalate ["VARLIST", var, t]

theorem decode_singletonLine {var t : String} (hvar : Text.IsWord var) (ht : Text.IsWord t) :
    decode (singletonLine var t) = .ok (.varList var [t]) := by
  have hwords : ∀ w, w ∈ ["VARLIST", var, t] → Text.IsWord w := by
    simpa using ⟨Grammar.isWord_mnemonic .varList, hvar, ht⟩
  rw [decode, singletonLine, Text.splitWords_intercalate hwords]
  exact ofWords_of_spelling .varList

end Instruction

namespace Machine

open Instruction

variable {m : Machine} {var t : String} {n : Int}

/-- An integer by its position is stored as the integer that the word is. -/
theorem step_varInt (hstatus : m.status = .running)
    (hline : m.line? = some ((Site.value var).line t)) (hvar : Text.IsWord var)
    (ht : Text.IsWord t) (hn : Numeral.readMargined t = .ok (some n)) :
    step m = .ok .running (m.executed .next (m.store.assign var (.int n))) :=
  step_of_effect hstatus hline ((Site.decode_line_eq_ok_iff (.value var) hvar ht n).mpr hn)
    (.varInt var n)

theorem step_varInt_of_none (hstatus : m.status = .running)
    (hline : m.line? = some ((Site.value var).line t)) (hvar : Text.IsWord var)
    (ht : Text.IsWord t) (hn : Numeral.readMargined t = .ok none) :
    step m = .ok .faulted { m with
      status := .faulted, fault := some (.decode (.malformedInteger .varInt)) } :=
  step_of_decode_error hstatus hline
    ((Site.decode_line_eq_malformed_iff (.value var) hvar ht).mpr hn)

/-- An element that names no variable is stored as the integer that the word is. -/
theorem step_singleton (hstatus : m.status = .running)
    (hline : m.line? = some (singletonLine var t)) (hvar : Text.IsWord var)
    (ht : Text.IsWord t) (hname : m.memory.get? t = none)
    (hn : Numeral.readMargined t = .ok (some n)) :
    step m = .ok .running (m.executed .next
      (Store.assign ⟨m.memory, (m.heap.alloc [.int n]).2⟩ var (.list m.heap.size))) :=
  step_of_effect hstatus hline (decode_singletonLine hvar ht)
    (.varList (.cons (.literal hname hn) .nil))

theorem step_singleton_of_none (hstatus : m.status = .running)
    (hline : m.line? = some (singletonLine var t)) (hvar : Text.IsWord var)
    (ht : Text.IsWord t) (hname : m.memory.get? t = none)
    (hn : Numeral.readMargined t = .ok none) :
    step m = .ok .faulted { m with
      status := .faulted, fault := some (.undefinedVariable t) } := by
  have hresolve : Execution.resolve t m.store =
      .error (.fault (.undefinedVariable t)) m.store := by
    rw [Execution.resolve, Execution.bind_find?]
    have hstore : m.store.memory.get? t = none := hname
    rw [hstore]
    dsimp only
    rw [hn]
    rfl
  have helements : [t].mapM Execution.resolve m.store =
      .error (.fault (.undefinedVariable t)) m.store := by
    rw [List.mapM_cons]
    exact Execution.bind_of_error hresolve
  exact step_of_fault hstatus hline (decode_singletonLine hvar ht)
    (Execution.bind_of_error helements)

/-- The next step of the machine stores a list of one integer. -/
def StoresSingleton (m : Machine) (var : String) (n : Int) : Prop :=
  ∃ m' r, step m = .ok .running m' ∧ m'.memory.get? var = some (.list r) ∧
    m'.heap.items r = [.int n]

/-- The next step of the machine stores an integer. -/
def StoresInteger (m : Machine) (var : String) (n : Int) : Prop :=
  ∃ m', step m = .ok .running m' ∧ m'.memory.get? var = some (.int n)

/-- The next step of the machine meets a fault. -/
def FaultsWith (m : Machine) (f : Fault) : Prop :=
  ∃ m', step m = .ok .faulted m' ∧ m'.fault = some f

section Stores

variable {number : Option Int} (hstatus : m.status = .running) (hvar : Text.IsWord var)
  (ht : Text.IsWord t) (hnumber : Numeral.readMargined t = .ok number)

include hstatus hvar ht hnumber

theorem storesInteger_iff (hline : m.line? = some ((Site.value var).line t)) :
    m.StoresInteger var n ↔ number = some n := by
  cases number with
  | none =>
      have hstep := step_varInt_of_none hstatus hline hvar ht hnumber
      simp [StoresInteger, hstep]
  | some k =>
      have hstep := step_varInt hstatus hline hvar ht hnumber
      have hget : (m.executed .next (m.store.assign var (.int k))).memory.get? var =
          some (.int k) := Memory.get?_set_self _ _ _
      simp [StoresInteger, hstep, hget]

theorem storesSingleton_iff (hline : m.line? = some (singletonLine var t))
    (hname : m.memory.get? t = none) : m.StoresSingleton var n ↔ number = some n := by
  cases number with
  | none =>
      have hstep := step_singleton_of_none hstatus hline hvar ht hname hnumber
      simp [StoresSingleton, hstep]
  | some k =>
      have hstep := step_singleton hstatus hline hvar ht hname hnumber
      have hget : (m.memory.set var (.list m.heap.size)).get? var = some (.list m.heap.size) :=
        Memory.get?_set_self _ _ _
      have hitems : (m.heap.alloc [.int k]).2.items m.heap.size = [.int k] :=
        (Heap.items_alloc _ _ _).trans (if_pos rfl)
      constructor
      · rintro ⟨m', r, hstep', hr, hn⟩
        rw [hstep] at hstep'
        cases hstep'
        obtain rfl : m.heap.size = r := by simpa using hget.symm.trans hr
        simpa using hitems.symm.trans hn
      · rintro hk
        cases hk
        exact ⟨_, _, hstep, hget, hitems⟩

theorem faultsWith_undefined_iff (hline : m.line? = some (singletonLine var t))
    (hname : m.memory.get? t = none) :
    m.FaultsWith (.undefinedVariable t) ↔ number = none := by
  cases number with
  | none =>
      have hstep := step_singleton_of_none hstatus hline hvar ht hname hnumber
      simp [FaultsWith, hstep]
  | some k =>
      have hstep := step_singleton hstatus hline hvar ht hname hnumber
      simp [FaultsWith, hstep]

end Stores

/-- **Reading an integer is the inverse of writing it, in all places.**  What is written of an
integer within the digit limit is read as this integer; stored from its line and rendered, it
is written in the same way.  A word within the limit is the same integer wherever it stands
for one by its position, and is refused as malformed if it is none; the text of the integer is
the word in normal form.  Where the word names no variable, a list of it is a list of just the
integer that is stored from it, and it is undefined just if its line cannot be read. -/
theorem integers_read_as_written :
    (∀ (n : Int) (x : String), (Nat.toDigits 10 n.natAbs).length ≤ Numeral.digitLimit →
      Text.IsWord x → ∃ w, Numeral.text n = .ok w ∧ Numeral.readMargined w = .ok (some n) ∧
        decode ((Site.value x).line w) = .ok (.varInt x n) ∧
        ∀ m : Machine, m.status = .running → m.line? = some ((Site.value x).line w) →
          ∃ m', step m = .ok .running m' ∧ m'.memory.get? x = some (.int n) ∧
            m'.heap.text (.int n) = .ok w) ∧
    ∀ t : String, Text.IsWord t → (∀ k, ¬ Numeral.Oversized t k) →
      (∃ number, Numeral.readMargined t = .ok number) ∧
      (∀ n, Numeral.readMargined t = .ok (some n) →
        Numeral.text n = .ok (Numeral.normalForm t)) ∧
      (∀ site : Site, site.Named →
        (∀ n, Numeral.readMargined t = .ok (some n) ↔
          decode (site.line t) = .ok (site.instruction n)) ∧
        (Numeral.readMargined t = .ok none ↔
          decode (site.line t) = .error (.fault (.decode (.malformedInteger site.opcode))))) ∧
      ∀ (x y : String) (m₁ m₂ : Machine), Text.IsWord x → Text.IsWord y →
        m₁.status = .running → m₁.line? = some (singletonLine y t) →
        m₁.memory.get? t = none →
        m₂.status = .running → m₂.line? = some ((Site.value x).line t) →
        (∀ n, m₁.StoresSingleton y n ↔ m₂.StoresInteger x n) ∧
        (m₁.FaultsWith (.undefinedVariable t) ↔
          ∃ e, decode ((Site.value x).line t) = .error e) := by
  constructor
  · intro n x hn hx
    have ht := Numeral.isWord_intText n
    have hread := Numeral.readMargined_intText hn
    have htext : Numeral.text n = .ok (Numeral.intText n) :=
      Numeral.text_eq_ok (Numeral.writable_iff_length.mpr hn)
    refine ⟨Numeral.intText n, htext, hread,
      (Site.decode_line_eq_ok_iff (.value x) hx ht n).mpr hread, ?_⟩
    intro m hstatus hline
    obtain ⟨m', hstep, hget⟩ := (storesInteger_iff hstatus hx ht hread hline).mpr rfl
    exact ⟨m', hstep, hget, htext⟩
  · intro t ht hsize
    obtain ⟨number, hnumber⟩ : ∃ number, Numeral.readMargined t = .ok number := by
      rw [Text.readMargined_of_isWord ht]
      exact Numeral.exists_readWord hsize
    refine ⟨⟨number, hnumber⟩, fun n hn => Numeral.text_of_readMargined ht hn,
      fun site hsite => ?_, ?_⟩
    · exact ⟨fun n => (Site.decode_line_eq_ok_iff site hsite ht n).symm,
        (Site.decode_line_eq_malformed_iff site hsite ht).symm⟩
    · intro x y m₁ m₂ hx hy hstatus₁ hline₁ hname hstatus₂ hline₂
      constructor
      · intro n
        rw [storesSingleton_iff hstatus₁ hy ht hnumber hline₁ hname,
          storesInteger_iff hstatus₂ hx ht hnumber hline₂]
      · rw [faultsWith_undefined_iff hstatus₁ hy ht hnumber hline₁ hname,
          Site.decode_line (.value x) hx ht, hnumber]
        cases number <;> simp

/-- The zeros in front and the sign of a zero are read and not written. -/
theorem integers_read_as_written_minus_zeros :
    Numeral.text 0 = .ok "0" ∧ (ofProgram #[singletonLine "y" "-00"]).StoresSingleton "y" 0 := by
  have hword : Text.IsWord "-00" := by decide
  have hread : Numeral.readMargined "-00" = .ok (some 0) := by decide
  obtain ⟨_, htext, _, hstores⟩ := integers_read_as_written.2 "-00" hword
    fun k => Numeral.not_oversized_of_length_le (by decide)
  have hnormal : Numeral.normalForm "-00" = "0" := by decide
  refine ⟨hnormal ▸ htext 0 hread, ?_⟩
  have hx : Text.IsWord "x" := by decide
  have hy : Text.IsWord "y" := by decide
  refine ((hstores "x" "y" _ (ofProgram #[(Site.value "x").line "-00"]) hx hy rfl rfl rfl rfl
    rfl).1 0).mpr ?_
  exact ⟨_, step_varInt rfl rfl hx hword hread, rfl⟩

end Machine
end LineMachine
