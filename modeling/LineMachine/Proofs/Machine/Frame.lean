import LineMachine.Proofs.Machine.Reachable

/-!
# The frame of a step

A step changes at most what the footprint of its instruction holds.  So, step
after step, the names only grow in number, and the lists that exist keep their
lengths, whichever of them a variable or another list holds.

**Results.**
* `Heap.Kept`, `Store.Grown`: what runs keep.
* `Machine.grown_next`: a step keeps it.
* `Machine.frame`: the frame of a step and of all calls after it.
-/

namespace LineMachine

/-- The lists of a heap are still there, each with its length. -/
structure Heap.Kept (h h' : Heap) : Prop where
  size_le : h.size ≤ h'.size
  length : ∀ r, r < h.size → (h'.items r).length = (h.items r).length

theorem Heap.Kept.refl (h : Heap) : h.Kept h :=
  ⟨Nat.le_refl _, fun _ _ => rfl⟩

theorem Heap.Kept.trans {h₁ h₂ h₃ : Heap} (h₁₂ : h₁.Kept h₂) (h₂₃ : h₂.Kept h₃) :
    h₁.Kept h₃ := by
  have hle := h₁₂.size_le
  refine ⟨Nat.le_trans hle h₂₃.size_le, fun r hr => ?_⟩
  rw [h₂₃.length r (Nat.lt_of_lt_of_le hr hle), h₁₂.length r hr]

/-- The names are still there, in their order, and the lists with their lengths. -/
structure Store.Grown (s s' : Store) : Prop where
  names : s.memory.names <+: s'.memory.names
  heap : s.heap.Kept s'.heap

theorem Store.Grown.refl (s : Store) : s.Grown s :=
  ⟨List.prefix_rfl, Heap.Kept.refl _⟩

theorem Store.Grown.trans {s₁ s₂ s₃ : Store} (h₁₂ : s₁.Grown s₂) (h₂₃ : s₂.Grown s₃) :
    s₁.Grown s₃ :=
  ⟨h₁₂.names.trans h₂₃.names, h₁₂.heap.trans h₂₃.heap⟩

namespace Machine

section Steps

variable {m : Machine}

theorem footprint_next {inst : Instruction}
    (hm : m.store.Closed)
    (hexec : m.Executes inst) :
    inst.Footprint m.store m.next.store := by
  obtain ⟨control, s', heffect, hnext⟩ := hexec.exists_effect
  rw [hnext]
  exact Instruction.footprint_of_effect hm heffect

theorem grown_next (hm : m.store.Closed) : m.store.Grown m.next.store := by
  refine store_next_cases (Store.Grown.refl _) fun inst control s' _ heffect => ?_
  have hf := Instruction.footprint_of_effect hm heffect
  exact ⟨hf.names_prefix, hf.size_le, fun r hr => hf.length_items hr⟩

/-- A combination of values that are not both lists changes nothing. -/
theorem store_next_combine {first second : String}
    (hexec : m.Executes (.combine first second))
    (hlists : ¬ (Instruction.combine first second).BuildsList m.store) :
    m.next.store = m.store := by
  obtain ⟨control, s', heffect, hnext⟩ := hexec.exists_effect
  rw [hnext]
  cases heffect with
  | combine hboth => exact absurd ⟨_, _, hboth⟩ hlists
  | combineNothing _ => rfl

theorem grown_iterate (hm : Reachable m) (n : Nat) : m.store.Grown (next^[n] m).store := by
  induction n with
  | zero => exact Store.Grown.refl _
  | succ n ih =>
      rw [Function.iterate_succ_apply']
      exact ih.trans (grown_next (closed_of_reachable (hm.iterate n)))

theorem kept_after (hm : Reachable m) (calls : List Call) :
    m.heap.Kept (m.after calls).heap := by
  have hkept : (m.after calls).store.Closed ∧ m.heap.Kept (m.after calls).heap := by
    refine after_invariant (P := fun m' => m'.store.Closed ∧ m.heap.Kept m'.heap)
      (fun m' program h => ?_) (fun m' h => ?_) ?_ calls
    · exact ⟨closed_of_memory_empty h.1.heap, h.2⟩
    · exact ⟨closed_next h.1, h.2.trans (grown_next h.1).heap⟩
    · exact ⟨closed_of_reachable hm, Heap.Kept.refl _⟩
  exact hkept.2

end Steps

/-- **The frame of a step and of a run.**  A step that executes an instruction
changes at most the footprint of the instruction, and any other step nothing.  No
call but loading removes a name or changes the order of the names, and no call at
all changes the length of a list. -/
theorem frame {m : Machine} (hm : Reachable m) :
    (∀ inst, m.Executes inst → inst.Footprint m.store m.next.store) ∧
    (∀ first second, m.Executes (.combine first second) →
      ¬ (Instruction.combine first second).BuildsList m.store →
        m.next.store = m.store) ∧
    ((∀ inst, ¬ m.Executes inst) → m.next.store = m.store) ∧
    (∀ calls, (∀ program, Call.load program ∉ calls) →
      m.store.Grown (m.after calls).store) ∧
    (∀ calls, m.heap.Kept (m.after calls).heap) := by
  have hclosed := closed_of_reachable hm
  refine ⟨fun inst hexec => footprint_next hclosed hexec,
    fun first second hexec hlists => store_next_combine hexec hlists,
    store_next, fun calls hcalls => ?_, kept_after hm⟩
  obtain ⟨k, hk⟩ := after_eq_iterate hcalls m
  rw [hk]
  exact grown_iterate hm k

/-- A machine about to change a list that a name and another list hold. -/
def beforeSharedSet : Machine :=
  { ofProgram #["VARLIST x 7", "VARLIST y x", "SET y 0 x"] with
    store := ⟨⟨[("x", .list 0), ("y", .list 1)]⟩, ⟨#[[.int 7], [.list 0]]⟩⟩, pc := 2,
    steps := 2 }

theorem reachable_beforeSharedSet : Reachable beforeSharedSet := by
  have hstart := Reachable.start #["VARLIST x 7", "VARLIST y x", "SET y 0 x"]
  have hnext : (ofProgram #["VARLIST x 7", "VARLIST y x", "SET y 0 x"]).next.next =
    beforeSharedSet := by decide +kernel
  rw [← hnext]
  exact hstart.next.next

theorem frame_beforeSharedSet :
    (∃ r v, beforeSharedSet.memory.get? "x" = some (.list r) ∧
      beforeSharedSet.next.heap.items r = (beforeSharedSet.heap.items r).set 0 v ∧
      ∀ q, q ≠ r → beforeSharedSet.next.heap.items q = beforeSharedSet.heap.items q) ∧
    beforeSharedSet.memory.names <+: (beforeSharedSet.after [.step, .step]).memory.names ∧
    beforeSharedSet.heap.Kept (beforeSharedSet.after [.step, .load #[], .run 9 none]).heap := by
  have hexec : beforeSharedSet.Executes (.set "y" 0 "x") :=
    ⟨rfl, ⟨"SET y 0 x", rfl, rfl⟩, _, _, rfl⟩
  have hframe := frame reachable_beforeSharedSet
  obtain ⟨r, v, hseq, _, _, _, hitems, hothers⟩ :=
    (hframe.1 _ hexec).cell "y" 0 "x" rfl
  refine ⟨⟨r, v, hseq, hitems, hothers⟩, ?_, hframe.2.2.2.2 _⟩
  refine (hframe.2.2.2.1 [.step, .step] fun program hmem => ?_).names
  simp at hmem

end Machine
end LineMachine
