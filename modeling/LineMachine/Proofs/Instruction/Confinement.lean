import LineMachine.Proofs.Instruction.Footprint

/-!
# What an instruction can get hold of

An instruction works on the values of its operands and on what they reach; what
it builds is new.  So if a set of lists is confined, holds the values of all
operands and admits new lists, then after the instruction it is confined and
holds the values of all operands again, and the lists outside are untouched.

**Results.**
* `around_of_effect`: a set stays confined around the operands of an instruction.
* `items_of_effect`, `get?_of_effect`: lists outside the set and names that are no
  operands stay as they were.
* `closed_of_effect`: no instruction stores a list that does not exist.
-/

namespace LineMachine
namespace Instruction

/-- The operands of an instruction that name variables. -/
def names : Instruction → List String
  | varInt var _ => [var]
  | varList var elements => var :: elements
  | combine first second => [first, second]
  | get dest _ seq => [dest, seq]
  | set source _ seq => [source, seq]
  | copy dest source => [dest, source]
  | changeSign var => [var]
  | add var operand => [var, operand]
  | branch var _ => [var]
  | halt => []

/-- The set is confined in the heap, and holds the values of the operands. -/
structure Around (inst : Instruction) (S : Ref → Prop) (s : Store) : Prop where
  heap : s.heap.Confined S
  operands : ∀ name, name ∈ inst.names → ∀ v, s.memory.get? name = some v → v.LiesIn S

section Values

variable {S : Ref → Prop} {s : Store}

theorem Resolves.liesIn {token : String} {v : Value} (hv : Resolves s token v)
    (htoken : ∀ v, s.memory.get? token = some v → v.LiesIn S) : v.LiesIn S := by
  cases hv with
  | bound hname => exact htoken v hname
  | literal _ _ => trivial

/-- The values of tokens lie in a set if the values of the names among them do. -/
theorem liesIn_of_resolves {tokens : List String} {vs : List Value}
    (hvs : List.Forall₂ (Resolves s) tokens vs)
    (htokens : ∀ token, token ∈ tokens → ∀ v, s.memory.get? token = some v → v.LiesIn S) :
    ∀ v, v ∈ vs → v.LiesIn S := by
  induction hvs with
  | nil =>
      intro v hv
      cases hv
  | @cons token w tokens vs hw _ ih =>
      intro v hv
      rcases List.mem_cons.mp hv with rfl | hv
      · exact Resolves.liesIn hw (htokens token List.mem_cons_self)
      · exact ih (fun t ht => htokens t (List.mem_cons_of_mem _ ht)) v hv

/-- After an assignment the operands have values of the set if they had before
and the new value is one. -/
theorem operands_assign {names : List String} {heap : Heap} {name : String} {v : Value}
    (hnames : ∀ other, other ∈ names → ∀ w, s.memory.get? other = some w → w.LiesIn S)
    (hv : v.LiesIn S) :
    ∀ other, other ∈ names → ∀ w,
      (Store.assign ⟨s.memory, heap⟩ name v).memory.get? other = some w → w.LiesIn S := by
  intro other hother w hw
  have hget : (s.memory.set name v).get? other = some w := hw
  rw [Memory.get?_set] at hget
  split at hget
  · cases hget
    exact hv
  · exact hnames other hother w hget

end Values

section Effects

variable {inst : Instruction} {s s' : Store} {control : Control} {S : Ref → Prop}

/-- **A set stays confined around the operands of an instruction.** -/
theorem around_of_effect (hs : s.Closed) (heff : Effect inst s control s')
    (hS : inst.Around S s) (hnew : ∀ r, s.heap.size ≤ r → r < s'.heap.size → S r) :
    inst.Around S s' := by
  cases heff with
  | varInt var value =>
      exact ⟨hS.heap, operands_assign hS.operands trivial⟩
  | @varList _ var elements items hitems =>
      have hlies := liesIn_of_resolves hitems fun token htoken =>
        hS.operands token (List.mem_cons_of_mem _ htoken)
      obtain ⟨r, hr, hle, hlt⟩ := new_alloc s.heap items
      cases hr
      exact ⟨Heap.confined_alloc hS.heap hlies, operands_assign hS.operands (hnew _ hle hlt)⟩
  | @combine _ first second r₁ r₂ hlists =>
      have h₁ : S r₁ := hS.operands first (by simp [names]) _ hlists.1
      have h₂ : S r₂ := hS.operands second (by simp [names]) _ hlists.2
      have hlies : ∀ v, v ∈ s.heap.items r₁ ++ s.heap.items r₂ → v.LiesIn S := by
        intro v hv
        rcases List.mem_append.mp hv with hv | hv
        · exact hS.heap r₁ h₁ v hv
        · exact hS.heap r₂ h₂ v hv
      obtain ⟨r, hr, hle, hlt⟩ := new_alloc s.heap (s.heap.items r₁ ++ s.heap.items r₂)
      cases hr
      exact ⟨Heap.confined_alloc hS.heap hlies, operands_assign hS.operands (hnew _ hle hlt)⟩
  | combineNothing hlists => exact hS
  | @get _ dest seq index r v hseq hitem =>
      have hr : S r := hS.operands seq (by simp [names]) _ hseq
      have hv : v.LiesIn S := hS.heap r hr v (Heap.mem_of_itemAt? hitem)
      exact ⟨hS.heap, operands_assign hS.operands hv⟩
  | @set _ source seq index r v hsource hseq hindex =>
      have hr : S r := hS.operands seq (by simp [names]) _ hseq
      have hv : v.LiesIn S := Resolves.liesIn hsource (hS.operands source (by simp [names]))
      refine ⟨Heap.confined_replace hS.heap fun w hw => ?_, hS.operands⟩
      rcases List.mem_or_eq_of_mem_set hw with hw | rfl
      · exact hS.heap r hr w hw
      · exact hv
  | @copy _ dest source v hsource =>
      have hcopy := Heap.liesIn_deepCopy (hs.memory hsource)
      refine ⟨Heap.confined_deepCopy hs.heap hS.heap fun r hr => hnew r hr.1 hr.2, ?_⟩
      exact operands_assign hS.operands (hcopy.mono fun r hr => hnew r hr.1 hr.2)
  | changeSign hvar =>
      exact ⟨hS.heap, operands_assign hS.operands trivial⟩
  | add hvar hoperand =>
      exact ⟨hS.heap, operands_assign hS.operands trivial⟩
  | branchTaken hvar hzero => exact hS
  | branchPassed hvar hzero => exact hS
  | halt => exact hS

theorem items_of_effect (hs : s.Closed) (heff : Effect inst s control s')
    (hS : inst.Around S s) {r : Ref} (hr : r < s.heap.size) (hout : ¬ S r) :
    s'.heap.items r = s.heap.items r := by
  have hf := footprint_of_effect hs heff
  by_cases hset : ∃ source index seq, inst = .set source index seq
  · obtain ⟨source, index, seq, rfl⟩ := hset
    obtain ⟨q, v, hseq, _, _, _, _, hothers⟩ := hf.cell source index seq rfl
    have hq : S q := hS.operands seq (by simp [names]) _ hseq
    refine hothers r fun hrq => hout ?_
    rw [hrq]
    exact hq
  · exact hf.items (fun source index seq h => hset ⟨source, index, seq, h⟩) r hr

theorem target?_mem_names {name : String} (hname : inst.target? = some name) :
    name ∈ inst.names := by
  cases inst <;> simp_all [target?, names]

theorem get?_of_effect (hs : s.Closed) (heff : Effect inst s control s') {name : String}
    (hname : name ∉ inst.names) : s'.memory.get? name = s.memory.get? name :=
  (footprint_of_effect hs heff).others name fun htarget => hname (target?_mem_names htarget)

/-- **No instruction stores a list that does not exist.** -/
theorem closed_of_effect (hs : s.Closed) (heff : Effect inst s control s') : s'.Closed := by
  have hsize := (footprint_of_effect hs heff).size_le
  have haround : inst.Around (fun r => r < s'.heap.size) s := by
    refine ⟨fun r _ v hv => ?_, fun name _ v hv => ?_⟩
    · exact (hs.heap.liesIn hv).mono fun q hq => Nat.lt_of_lt_of_le hq hsize
    · exact (hs.memory hv).mono fun q hq => Nat.lt_of_lt_of_le hq hsize
  have haround' := around_of_effect hs heff haround fun r _ hlt => hlt
  refine ⟨haround'.heap, fun {name v} hv => ?_⟩
  by_cases hname : name ∈ inst.names
  · exact haround'.operands name hname v hv
  · rw [get?_of_effect hs heff hname] at hv
    exact (hs.memory hv).mono fun q hq => Nat.lt_of_lt_of_le hq hsize

end Effects

end Instruction
end LineMachine
