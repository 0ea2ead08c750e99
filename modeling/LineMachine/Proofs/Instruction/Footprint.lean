import LineMachine.Proofs.Heap.Copy
import LineMachine.Proofs.Instruction.Effect

/-!
# The footprint of an instruction

An instruction binds at most one name, and changes at most one item of one
existing list.  Lists are built only in new places, so that every other name and
every other item stays as it was, whatever names and lists share.

**Results.**
* `Instruction.Footprint`: what an instruction may change.
* `footprint_of_effect`: no instruction changes more.
* `Footprint.length_items`: existing lists keep their lengths.
-/

namespace LineMachine

namespace Memory

theorem find?_eq_some_of_mem {name : String} {bs : List (String × Value)}
    (hname : name ∈ bs.map Prod.fst) : ∃ v, find? name bs = some v := by
  induction bs with
  | nil => cases hname
  | cons b bs ih =>
      obtain ⟨n, w⟩ := b
      by_cases hn : n = name
      · exact ⟨w, by rw [find?, if_pos hn]⟩
      · rcases List.mem_cons.mp hname with hhead | htail
        · exact absurd hhead.symm hn
        · obtain ⟨v, hv⟩ := ih htail
          exact ⟨v, by rw [find?, if_neg hn, hv]⟩

theorem mem_of_find?_eq_some {name : String} {v : Value} {bs : List (String × Value)}
    (hv : find? name bs = some v) : name ∈ bs.map Prod.fst := by
  induction bs with
  | nil => cases hv
  | cons b bs ih =>
      obtain ⟨n, w⟩ := b
      by_cases hn : n = name
      · exact List.mem_cons.mpr (Or.inl hn.symm)
      · rw [find?, if_neg hn] at hv
        exact List.mem_cons_of_mem _ (ih hv)

theorem mem_names_iff {m : Memory} {name : String} :
    name ∈ m.names ↔ ∃ v, m.get? name = some v :=
  ⟨find?_eq_some_of_mem, fun ⟨_, hv⟩ => mem_of_find?_eq_some hv⟩

theorem get?_eq_none {m : Memory} {name : String} (hname : name ∉ m.names) :
    m.get? name = none := by
  rw [Option.eq_none_iff_forall_ne_some]
  exact fun v hv => hname (mem_names_iff.mpr ⟨v, hv⟩)

theorem names_set_of_mem {m : Memory} {name : String} {v w : Value}
    (hv : m.get? name = some v) : (m.set name w).names = m.names := by
  rw [names_set, if_pos (mem_names_iff.mpr ⟨v, hv⟩), List.append_nil]

theorem get?_set_self (m : Memory) (name : String) (v : Value) :
    (m.set name v).get? name = some v := by
  rw [get?_set, if_pos rfl]

theorem get?_set_of_ne {m : Memory} {name other : String} {v : Value} (hne : name ≠ other) :
    (m.set name v).get? other = m.get? other := by
  rw [get?_set, if_neg hne]

end Memory

/-- Every list that a variable or a list holds exists. -/
structure Store.Closed (s : Store) : Prop where
  heap : s.heap.Closed
  memory : ∀ {name : String} {v : Value}, s.memory.get? name = some v →
    v.LiesIn fun r => r < s.heap.size

namespace Instruction

/-- The name that an instruction binds. -/
def target? : Instruction → Option String
  | varInt var _ | varList var _ | changeSign var | add var _ => some var
  | combine _ second => some second
  | get dest _ _ | copy dest _ => some dest
  | set _ _ _ | branch _ _ | halt => none

/-- The name that an instruction binds, if this may be a name without a value. -/
def introduced? : Instruction → Option String
  | varInt var _ | varList var _ => some var
  | get dest _ _ | copy dest _ => some dest
  | combine _ _ | set _ _ _ | changeSign _ | add _ _ | branch _ _ | halt => none

/-- Whether an instruction binds its name to a list that it builds. -/
def BuildsList (s : Store) : Instruction → Prop
  | varList _ _ => True
  | combine first second => ∃ r₁ r₂, s.HoldLists first second r₁ r₂
  | copy _ source => ∃ r, s.memory.get? source = some (.list r)
  | varInt _ _ | get _ _ _ | set _ _ _ | changeSign _ | add _ _ | branch _ _ | halt => False

/-- What an instruction may change, and nothing else. -/
structure Footprint (inst : Instruction) (s s' : Store) : Prop where
  -- at most one name is new, and it joins the end
  names : s'.memory.names = s.memory.names ∨
    ∃ name, inst.introduced? = some name ∧ name ∉ s.memory.names ∧
      s'.memory.names = s.memory.names ++ [name]
  others : ∀ name, inst.target? ≠ some name → s'.memory.get? name = s.memory.get? name
  size_le : s.heap.size ≤ s'.heap.size
  items : (∀ source index seq, inst ≠ .set source index seq) →
    ∀ r, r < s.heap.size → s'.heap.items r = s.heap.items r
  -- a replacement changes one item of the list that its operand holds
  cell : ∀ source index seq, inst = .set source index seq →
    ∃ r v, s.memory.get? seq = some (.list r) ∧ Resolves s source v ∧
      0 ≤ index ∧ index < (s.heap.items r).length ∧
      s'.heap.items r = (s.heap.items r).set index.toNat v ∧
      ∀ q, q ≠ r → s'.heap.items q = s.heap.items q
  -- a list that is built did not exist
  built : inst.BuildsList s →
    ∃ name r, inst.target? = some name ∧ s.heap.size ≤ r ∧ r < s'.heap.size ∧
      s'.memory.get? name = some (.list r)

section Assignments

variable {inst : Instruction} {s : Store} {name : String} {v : Value} {heap : Heap}

theorem names_assign (hname : inst.introduced? = some name) :
    (s.memory.set name v).names = s.memory.names ∨
      ∃ other, inst.introduced? = some other ∧ other ∉ s.memory.names ∧
        (s.memory.set name v).names = s.memory.names ++ [other] := by
  rw [Memory.names_set]
  by_cases hmem : name ∈ s.memory.names
  · rw [if_pos hmem, List.append_nil]
    exact Or.inl rfl
  · rw [if_neg hmem]
    exact Or.inr ⟨name, hname, hmem, rfl⟩

theorem others_assign (hname : inst.target? = some name) :
    ∀ other, inst.target? ≠ some other →
      (s.memory.set name v).get? other = s.memory.get? other := by
  intro other hother
  refine Memory.get?_set_of_ne fun heq => hother ?_
  rw [hname, heq]

theorem footprint_nothing
    (hset : ∀ source index seq, inst ≠ .set source index seq)
    (hbuilds : ¬ inst.BuildsList s) : Footprint inst s s where
  names := Or.inl rfl
  others := fun _ _ => rfl
  size_le := Nat.le_refl _
  items := fun _ _ _ => rfl
  cell := fun source index seq heq => absurd heq (hset source index seq)
  built := fun h => absurd h hbuilds

/-- The footprint of an instruction that extends the heap and binds a name to
something new. -/
theorem footprint_build
    (hset : ∀ source index seq, inst ≠ .set source index seq)
    (htarget : inst.target? = some name)
    (hnames : inst.introduced? = some name ∨ ∃ w, s.memory.get? name = some w)
    (hsize : s.heap.size ≤ heap.size)
    (hitems : ∀ r, r < s.heap.size → heap.items r = s.heap.items r)
    (hnew : inst.BuildsList s → ∃ r, v = .list r ∧ s.heap.size ≤ r ∧ r < heap.size) :
    Footprint inst s (Store.assign ⟨s.memory, heap⟩ name v) where
  names := by
    rcases hnames with hintro | ⟨w, hw⟩
    · exact names_assign hintro
    · exact Or.inl (Memory.names_set_of_mem hw)
  others := others_assign htarget
  size_le := hsize
  items := fun _ => hitems
  cell := fun source index seq heq => absurd heq (hset source index seq)
  built := by
    intro hbuilds
    obtain ⟨r, rfl, hle, hlt⟩ := hnew hbuilds
    exact ⟨name, r, htarget, hle, hlt, Memory.get?_set_self _ _ _⟩

theorem footprint_assign
    (hset : ∀ source index seq, inst ≠ .set source index seq)
    (hbuilds : ¬ inst.BuildsList s)
    (htarget : inst.target? = some name)
    (hnames : inst.introduced? = some name ∨ ∃ w, s.memory.get? name = some w) :
    Footprint inst s (s.assign name v) :=
  footprint_build hset htarget hnames (Nat.le_refl _) (fun _ _ => rfl)
    fun h => absurd h hbuilds

end Assignments

section Effects

variable {inst : Instruction} {s s' : Store} {control : Control}

theorem items_alloc_of_lt {h : Heap} {xs : List Value} {r : Ref} (hr : r < h.size) :
    (h.alloc xs).2.items r = h.items r := by
  rw [Heap.items_alloc, if_neg (Nat.ne_of_lt hr)]

theorem new_alloc (h : Heap) (xs : List Value) :
    ∃ r, Value.list h.size = .list r ∧ h.size ≤ r ∧ r < (h.alloc xs).2.size :=
  ⟨h.size, rfl, Nat.le_refl _, by rw [Heap.size_alloc]; exact Nat.lt_succ_self _⟩

theorem new_deepCopy {h : Heap} {r : Ref} (hr : r < h.size) :
    ∃ q, (h.deepCopy (.list r)).1 = .list q ∧ h.size ≤ q ∧
      q < (h.deepCopy (.list r)).2.size := by
  have hnew := Heap.liesIn_deepCopy (h := h) (v := .list r) hr
  have hrelated := Heap.related_deepCopy (h := h) (v := .list r) hr
  cases hcopy : (h.deepCopy (.list r)).1 with
  | int n =>
      rw [hcopy] at hrelated
      cases hrelated
  | list q =>
      rw [hcopy] at hnew
      exact ⟨q, rfl, hnew.1, hnew.2⟩

theorem footprint_set {source seq : String} {index : Int} {r : Ref} {v : Value}
    (hsource : Resolves s source v) (hseq : s.memory.get? seq = some (.list r))
    (hindex : 0 ≤ index ∧ index < (s.heap.items r).length) :
    Footprint (.set source index seq) s
      ⟨s.memory, s.heap.replace r ((s.heap.items r).set index.toNat v)⟩ where
  names := Or.inl rfl
  others := fun _ _ => rfl
  size_le := Nat.le_of_eq (Heap.size_replace _ _ _).symm
  items := fun h => absurd rfl (h source index seq)
  cell := by
    intro source' index' seq' heq
    cases heq
    have hlt : r < s.heap.size := by
      refine Heap.lt_size_of_items_ne_nil fun hnil => ?_
      rw [hnil, List.length_nil] at hindex
      omega
    refine ⟨r, v, hseq, hsource, hindex.1, hindex.2, ?_, fun q hq => ?_⟩
    · rw [Heap.items_replace, if_pos ⟨rfl, hlt⟩]
    · rw [Heap.items_replace, if_neg fun h => hq h.1]
  built := fun h => absurd h id

/-- **No instruction changes more than its footprint.** -/
theorem footprint_of_effect (hs : s.Closed) (heff : Effect inst s control s') :
    Footprint inst s s' := by
  cases heff with
  | varInt var value =>
      exact footprint_assign (by simp) id rfl (Or.inl rfl)
  | varList hitems =>
      exact footprint_build (by simp) rfl (Or.inl rfl) (by simp)
        (fun r hr => items_alloc_of_lt hr) fun _ => new_alloc _ _
  | combine hlists =>
      exact footprint_build (by simp) rfl (Or.inr ⟨_, hlists.2⟩) (by simp [Heap.concat])
        (fun r hr => items_alloc_of_lt hr) fun _ => new_alloc _ _
  | combineNothing hlists =>
      exact footprint_nothing (by simp) fun ⟨r₁, r₂, hr⟩ => hlists r₁ r₂ hr
  | get hseq hitem =>
      exact footprint_assign (by simp) id rfl (Or.inl rfl)
  | set hsource hseq hindex =>
      exact footprint_set hsource hseq hindex
  | copy hsource =>
      refine footprint_build (by simp) rfl (Or.inl rfl) (Heap.size_le_size_deepCopy _ _)
        (fun r hr => Heap.items_deepCopy_of_lt hr) ?_
      rintro ⟨r, hr⟩
      rw [hsource] at hr
      cases hr
      exact new_deepCopy (hs.memory hsource)
  | changeSign hvar =>
      exact footprint_assign (by simp) id rfl (Or.inr ⟨_, hvar⟩)
  | add hvar hoperand =>
      exact footprint_assign (by simp) id rfl (Or.inr ⟨_, hvar⟩)
  | branchTaken hvar hzero =>
      exact footprint_nothing (by simp) id
  | branchPassed hvar hzero =>
      exact footprint_nothing (by simp) id
  | halt =>
      exact footprint_nothing (by simp) id

end Effects

section Lengths

variable {inst : Instruction} {s s' : Store}

theorem Footprint.length_items (hf : Footprint inst s s') {r : Ref} (hr : r < s.heap.size) :
    (s'.heap.items r).length = (s.heap.items r).length := by
  by_cases hset : ∃ source index seq, inst = .set source index seq
  · obtain ⟨source, index, seq, hset⟩ := hset
    obtain ⟨q, v, _, _, _, _, hitems, hothers⟩ := hf.cell source index seq hset
    by_cases hrq : r = q
    · rw [hrq, hitems, List.length_set]
    · rw [hothers r hrq]
  · rw [hf.items (fun source index seq h => hset ⟨source, index, seq, h⟩) r hr]

theorem Footprint.names_prefix (hf : Footprint inst s s') :
    s.memory.names <+: s'.memory.names := by
  rcases hf.names with hsame | ⟨name, _, _, hnames⟩
  · exact ⟨[], by rw [hsame, List.append_nil]⟩
  · rw [hnames]
    exact List.prefix_append _ _

end Lengths

end Instruction
end LineMachine
