import LineMachine.Proofs.Heap.Cycle
import LineMachine.Proofs.Instruction.Confinement

/-!
# Instructions and cycles

The lists that the variables reach may contain each other.  An instruction that
builds lists builds them from lists that exist, or from copies, and brings no new
cycle into memory; only a replacement can, and does so exactly if the value written
leads to the list that it is written to.

**Results.**
* `live_of_effect`: a list that is in memory afterwards was there before, or is new.
* `not_onCycle_of_new`: a list that is new is on no cycle, if there was none.
* `cyclic_of_effect`: an instruction that replaces no item closes no cycle.
* `cyclic_overwritten_iff`: when a replacement closes one.
-/

namespace LineMachine

/-- The lists that the variables reach. -/
def Store.Live (s : Store) (r : Ref) : Prop :=
  ∃ name v, s.memory.get? name = some v ∧ s.heap.Reaches v r

/-- Some list in memory is on a cycle. -/
def Store.Cyclic (s : Store) : Prop :=
  ∃ r, s.Live r ∧ s.heap.OnCycle r

theorem Store.confined_live (s : Store) : s.heap.Confined s.Live := by
  rintro r ⟨name, u, hu, hreach⟩ v hv
  cases v with
  | int n => trivial
  | list q => exact ⟨name, u, hu, .item hreach hv⟩

theorem Store.not_cyclic_of_memory_empty (h : Heap) : ¬ Store.Cyclic ⟨.empty, h⟩ := by
  rintro ⟨r, ⟨name, v, hv, _⟩, _⟩
  cases hv

namespace Instruction

section Effects

variable {inst : Instruction} {s s' : Store} {control : Control}

theorem liesIn_live {name : String} {v : Value} (hv : s.memory.get? name = some v) :
    v.LiesIn s.Live := by
  cases v with
  | int n => trivial
  | list r => exact ⟨name, .list r, hv, .self rfl⟩

theorem confined_live_or_new (s : Store) :
    s.heap.Confined fun r => s.Live r ∨ s.heap.size ≤ r := by
  intro r hr v hv
  rcases hr with hlive | hle
  · exact (s.confined_live r hlive v hv).mono fun q hq => Or.inl hq
  · rw [Heap.items_of_size_le hle] at hv
    cases hv

/-- **A list that is in memory afterwards was there before, or is new.** -/
theorem live_of_effect (hs : s.Closed) (heff : Effect inst s control s') {r : Ref}
    (hr : s'.Live r) :
    s.Live r ∨ s.heap.size ≤ r := by
  have hoperands : ∀ name v, s.memory.get? name = some v →
      v.LiesIn fun q => s.Live q ∨ s.heap.size ≤ q :=
    fun name v hv => (liesIn_live hv).mono fun q hq => Or.inl hq
  have haround : inst.Around (fun q => s.Live q ∨ s.heap.size ≤ q) s :=
    ⟨confined_live_or_new s, fun name _ v hv => hoperands name v hv⟩
  have haround' := around_of_effect hs heff haround fun q hle _ => Or.inr hle
  obtain ⟨name, v, hv, hreach⟩ := hr
  refine hreach.liesIn haround'.heap ?_
  by_cases hname : name ∈ inst.names
  · exact haround'.operands name hname v hv
  · rw [get?_of_effect hs heff hname] at hv
    exact hoperands name v hv

/-- Values of tokens are integers and lists that exist. -/
theorem existing_of_resolves (hs : s.Closed) {tokens : List String} {vs : List Value}
    (hvs : List.Forall₂ (Resolves s) tokens vs) :
    ∀ v, v ∈ vs → v.LiesIn fun r => r < s.heap.size :=
  liesIn_of_resolves hvs fun _ _ _ hv => hs.memory hv

/-- A list that was allocated from lists that exist is on no cycle. -/
theorem not_onCycle_of_alloc (hs : s.Closed) {xs : List Value}
    (hxs : ∀ v, v ∈ xs → v.LiesIn fun r => r < s.heap.size) {r : Ref}
    (hnew : s.heap.size ≤ r) :
    ¬ (s.heap.alloc xs).2.OnCycle r := by
  intro hcycle
  have hlt := hcycle.lt_size
  rw [Heap.size_alloc] at hlt
  obtain rfl := Nat.le_antisymm (Nat.le_of_lt_succ hlt) hnew
  exact Heap.not_onCycle_alloc hs.heap hxs hcycle

/-- A list that is new is on no cycle, if there was none in memory. -/
theorem not_onCycle_of_new (hs : s.Closed) (hacyclic : ¬ s.Cyclic)
    (hset : ∀ source index seq, inst ≠ .set source index seq)
    (heff : Effect inst s control s') {r : Ref} (hnew : s.heap.size ≤ r) :
    ¬ s'.heap.OnCycle r := by
  have hsame : ¬ s.heap.OnCycle r := fun hcycle => Nat.not_le_of_lt hcycle.lt_size hnew
  cases heff with
  | varInt var value => exact hsame
  | varList hitems => exact not_onCycle_of_alloc hs (existing_of_resolves hs hitems) hnew
  | @combine _ first second r₁ r₂ hlists =>
      refine not_onCycle_of_alloc hs (fun v hv => ?_) hnew
      rcases List.mem_append.mp hv with hv | hv
      · exact hs.heap.liesIn hv
      · exact hs.heap.liesIn hv
  | combineNothing hlists => exact hsame
  | get hseq hitem => exact hsame
  | set hsource hseq hindex => exact absurd rfl (hset _ _ _)
  | @copy _ dest source v hsource =>
      intro hcycle
      obtain ⟨q, hreach, hq⟩ := Heap.exists_onCycle_of_isNew hs.heap ⟨hnew, hcycle.lt_size⟩ hcycle
      exact hacyclic ⟨q, ⟨source, v, hsource, hreach⟩, hq⟩
  | changeSign hvar => exact hsame
  | add hvar hoperand => exact hsame
  | branchTaken hvar hzero => exact hsame
  | branchPassed hvar hzero => exact hsame
  | halt => exact hsame

/-- **An instruction that replaces no item closes no cycle.** -/
theorem cyclic_of_effect (hs : s.Closed)
    (hset : ∀ source index seq, inst ≠ .set source index seq)
    (heff : Effect inst s control s') (hcyclic : s'.Cyclic) :
    s.Cyclic := by
  by_contra hacyclic
  obtain ⟨r, hlive, hcycle⟩ := hcyclic
  have hitems := (footprint_of_effect hs heff).items hset
  by_cases hlt : r < s.heap.size
  · -- a list that existed is in memory and on its cycle as before
    rcases live_of_effect hs heff hlive with hlive | hle
    · exact hacyclic ⟨r, hlive, Heap.onCycle_of_agree hs.heap hitems hlt hcycle⟩
    · exact Nat.not_le_of_lt hlt hle
  · exact not_onCycle_of_new hs hacyclic hset heff (Nat.le_of_not_lt hlt) hcycle

/-- **A replacement closes a cycle exactly if the value written leads to the list that
it is written to.** -/
theorem cyclic_overwritten_iff {r : Ref} {index : Int} {w : Value} {seq : String}
    (hs : s.Closed) (hacyclic : ¬ s.Cyclic) (heff : Effect inst s control s')
    (hmemory : s'.memory = s.memory) (ho : s.heap.Overwritten s'.heap r index w)
    (hseq : s.memory.get? seq = some (.list r)) :
    s'.Cyclic ↔ s.heap.Reaches w r := by
  constructor
  · rintro ⟨q, hlive, hcycle⟩
    rcases ho.onCycle_cases hcycle with hold | hr
    · rcases live_of_effect hs heff hlive with hlive | hle
      · exact absurd ⟨q, hlive, hold⟩ hacyclic
      · exact absurd hold.lt_size (Nat.not_lt_of_le hle)
    · exact hr
  · intro hr
    refine ⟨r, ⟨seq, .list r, ?_, .self rfl⟩, ho.onCycle_target hr⟩
    rw [hmemory]
    exact hseq

end Effects

end Instruction
end LineMachine
