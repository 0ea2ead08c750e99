import LineMachine.Proofs.Instruction.Acyclicity
import LineMachine.Proofs.Machine.Aliasing

/-!
# Where cycles come from

As long as no list in memory contains itself, a step makes one do so only by
replacing an item of a list by a list that leads back to it.  So a run that stores
no list by a replacement never has a list in memory that contains itself.

**Results.**
* `Machine.ClosesCycle`: the next step writes a list to a list that it leads to.
* `Machine.cyclic_next_iff`: exactly such a step brings a cycle into memory.
* `Machine.acyclic_iterate`: no cycle comes from steps that store no list.
* `Machine.cycles_are_closed_by_replacements`: both, for all reachable machines.
-/

namespace LineMachine
namespace Machine

/-- The next step replaces an item of a list by a list that leads to it. -/
def ClosesCycle (m : Machine) : Prop :=
  ∃ source index seq r q, m.Executes (.set source index seq) ∧
    m.memory.get? seq = some (.list r) ∧ Resolves m.store source (.list q) ∧
      m.heap.Reaches (.list q) r

/-- The next step replaces an item of a list by a list. -/
def StoresList (m : Machine) : Prop :=
  ∃ source index seq q, m.Executes (.set source index seq) ∧ Resolves m.store source (.list q)

section Steps

variable {m : Machine}

theorem ClosesCycle.storesList (h : m.ClosesCycle) : m.StoresList := by
  obtain ⟨source, index, seq, r, q, hset, _, hsource, _⟩ := h
  exact ⟨source, index, seq, q, hset, hsource⟩

/-- A replacement brings a cycle into memory exactly if it closes one. -/
theorem cyclic_next_set_iff {source seq : String} {index : Int}
    (hm : m.store.Closed) (hacyclic : ¬ m.store.Cyclic)
    (hset : m.Executes (.set source index seq)) :
    m.next.store.Cyclic ↔
      ∃ r q, m.memory.get? seq = some (.list r) ∧ Resolves m.store source (.list q) ∧
        m.heap.Reaches (.list q) r := by
  obtain ⟨r, v, hseq, hsource, hmemory, ho⟩ := overwritten_next hset
  obtain ⟨control, s', heffect, hnext⟩ := hset.exists_effect
  have hstore : m.next.store = s' := by
    rw [hnext]
    rfl
  rw [← hstore] at heffect
  rw [Instruction.cyclic_overwritten_iff hm hacyclic heffect hmemory ho hseq]
  constructor
  · intro hreach
    obtain ⟨q, rfl⟩ := hreach.exists_eq_list
    exact ⟨r, q, hseq, hsource, hreach⟩
  · rintro ⟨r', q, hseq', hsource', hreach⟩
    rw [hseq] at hseq'
    cases hseq'
    rw [hsource.unique hsource']
    exact hreach

/-- A step that replaces no item brings no cycle into memory. -/
theorem cyclic_next (hm : m.store.Closed)
    (hset : ∀ source index seq, ¬ m.Executes (.set source index seq))
    (hcyclic : m.next.store.Cyclic) :
    m.store.Cyclic := by
  revert hcyclic
  refine store_next_cases (Q := fun s' => s'.Cyclic → m.store.Cyclic) id ?_
  intro inst control s' hinst heffect
  refine Instruction.cyclic_of_effect hm (fun source index seq heq => ?_) heffect
  rw [heq] at hinst
  exact hset source index seq hinst

/-- **Exactly a step that closes a cycle brings one into memory.** -/
theorem cyclic_next_iff (hm : m.store.Closed) (hacyclic : ¬ m.store.Cyclic) :
    m.next.store.Cyclic ↔ m.ClosesCycle := by
  constructor
  · intro hcyclic
    by_cases hset : ∃ source index seq, m.Executes (.set source index seq)
    · obtain ⟨source, index, seq, hset⟩ := hset
      obtain ⟨r, q, hseq, hsource, hreach⟩ :=
        (cyclic_next_set_iff hm hacyclic hset).mp hcyclic
      exact ⟨source, index, seq, r, q, hset, hseq, hsource, hreach⟩
    · refine absurd (cyclic_next hm (fun source index seq h => ?_) hcyclic) hacyclic
      exact hset ⟨source, index, seq, h⟩
  · rintro ⟨source, index, seq, r, q, hset, hseq, hsource, hreach⟩
    exact (cyclic_next_set_iff hm hacyclic hset).mpr ⟨r, q, hseq, hsource, hreach⟩

/-- No cycle comes from steps that store no list. -/
theorem acyclic_iterate (hm : Reachable m) (hacyclic : ¬ m.store.Cyclic) {n : Nat}
    (hstores : ∀ k, k < n → ¬ (next^[k] m).StoresList) :
    ¬ (next^[n] m).store.Cyclic := by
  induction n with
  | zero => exact hacyclic
  | succ n ih =>
      have hbefore := ih fun k hk => hstores k (by omega)
      have hclosed := closed_of_reachable (hm.iterate n)
      rw [Function.iterate_succ_apply', cyclic_next_iff hclosed hbefore]
      exact fun hcloses => hstores n (Nat.lt_succ_self n) hcloses.storesList

end Steps

/-- **Cycles are closed by replacements only.**  A step brings a cycle into a memory
without one exactly if it replaces an item of a list by a list that leads to it; a
memory without a cycle stays so for as long as no replacement stores a list; and a
program starts without one. -/
theorem cycles_are_closed_by_replacements {m : Machine} (hm : Reachable m) :
    (¬ m.store.Cyclic → (m.next.store.Cyclic ↔ m.ClosesCycle)) ∧
    (∀ n, ¬ m.store.Cyclic → (∀ k, k < n → ¬ (next^[k] m).StoresList) →
      ¬ (next^[n] m).store.Cyclic) ∧
    (∀ program, ¬ (m.load program).store.Cyclic ∧ ¬ (ofProgram program).store.Cyclic) := by
  refine ⟨cyclic_next_iff (closed_of_reachable hm), fun n hacyclic hstores => ?_,
    fun program => ⟨?_, ?_⟩⟩
  · exact acyclic_iterate hm hacyclic hstores
  · exact Store.not_cyclic_of_memory_empty m.heap
  · exact Store.not_cyclic_of_memory_empty .empty

/-- The first two steps of this program build lists; the third closes a cycle. -/
theorem cycles_are_closed_by_replacements_beforeSharedSet :
    ¬ beforeSharedSet.store.Cyclic ∧ beforeSharedSet.next.store.Cyclic := by
  have hstart := Reachable.start #["VARLIST x 7", "VARLIST y x", "SET y 0 x"]
  have hnew := (cycles_are_closed_by_replacements hstart).2.2
    #["VARLIST x 7", "VARLIST y x", "SET y 0 x"]
  have hnext : next^[2] (ofProgram #["VARLIST x 7", "VARLIST y x", "SET y 0 x"]) =
    beforeSharedSet := by decide +kernel
  have hacyclic : ¬ beforeSharedSet.store.Cyclic := by
    rw [← hnext]
    refine (cycles_are_closed_by_replacements hstart).2.1 2 hnew.2 ?_
    rintro k hk ⟨source, index, seq, q, hset, _⟩
    obtain rfl | rfl : k = 0 ∨ k = 1 := by omega
    · have hdecode : Instruction.decode "VARLIST x 7" = .ok (.varList "x" ["7"]) := rfl
      cases hset.eq_of_line rfl hdecode
    · have hdecode : Instruction.decode "VARLIST y x" = .ok (.varList "y" ["x"]) := rfl
      cases hset.eq_of_line rfl hdecode
  refine ⟨hacyclic, ?_⟩
  have hset : beforeSharedSet.Executes (.set "y" 0 "x") :=
    ⟨rfl, ⟨"SET y 0 x", rfl, rfl⟩, _, _, rfl⟩
  refine ((cycles_are_closed_by_replacements reachable_beforeSharedSet).1 hacyclic).mpr ?_
  exact ⟨"y", 0, "x", 0, 1, hset, rfl, .bound rfl, .item (.self rfl) (List.mem_cons_self)⟩

end Machine
end LineMachine
