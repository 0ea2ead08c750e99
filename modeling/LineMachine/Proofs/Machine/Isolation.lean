import LineMachine.Proofs.Heap.Equality
import LineMachine.Proofs.Heap.Render
import LineMachine.Proofs.Machine.Reachable

/-!
# Copies are isolated

A copy shares no list with anything else.  This lasts as long as no instruction
names the variable that holds the copy, whatever the others do to lists that
share and contain each other.

**Invariant.**  The lists that the copy created form a region.  No list outside
the region holds a list inside, and no other variable does; so an instruction on
other variables works outside the region, leaves its lists untouched, and what it
builds is outside again.

**Results.**
* `Store.Apart`: the invariant.
* `Machine.apart_of_effect`: an instruction on other variables keeps it.
* `Machine.apart_copy`: a copy establishes it.
* `Machine.copy_isolates`: what it says about a run after a copy.
-/

namespace LineMachine

/-- The variable holds the value, whose lists lie in a region of the heap that
nothing else leads to, and have the items that they have in another heap. -/
structure Store.Apart (name : String) (w : Value) (region : Ref → Prop) (h : Heap)
    (s : Store) : Prop where
  closed : s.Closed
  value : s.memory.get? name = some w
  outside : s.heap.Confined fun r => ¬ region r
  others : ∀ other v, other ≠ name → s.memory.get? other = some v →
    v.LiesIn fun r => ¬ region r
  existing : ∀ r, region r → r < s.heap.size
  items : ∀ r, region r → s.heap.items r = h.items r

/-- A copy of a value of the same shape, made in some heap, whose lists still have
the items that they were made with. -/
def Heap.UntouchedCopy (h : Heap) (v : Value) (h' : Heap) (u : Value) : Prop :=
  ∃ (before : Heap) (original : Value),
    before.Closed ∧ original.LiesIn (fun r => r < before.size) ∧
      Heap.Alike h v before original ∧ u = (before.deepCopy original).1 ∧
      ∀ r, (before.deepCopy original).2.Reaches u r →
        h'.items r = (before.deepCopy original).2.items r

namespace Machine

section Region

variable {inst : Instruction} {s s' : Store} {control : Control} {name : String} {w : Value}
  {region : Ref → Prop} {h : Heap}

theorem around_of_apart (hs : s.Apart name w region h) (hfree : name ∉ inst.names) :
    inst.Around (fun r => ¬ region r) s := by
  refine ⟨hs.outside, fun other hother v hv => hs.others other v ?_ hv⟩
  intro heq
  rw [heq] at hother
  exact hfree hother

/-- **An instruction on other variables keeps the region apart.** -/
theorem apart_of_effect
    (hs : s.Apart name w region h)
    (heffect : Effect inst s control s')
    (hfree : name ∉ inst.names) :
    s'.Apart name w region h := by
  have hsize := (Instruction.footprint_of_effect hs.closed heffect).size_le
  have haround := around_of_apart hs hfree
  have haround' := Instruction.around_of_effect hs.closed heffect haround
    fun r hnew _ hregion => Nat.not_le_of_lt (hs.existing r hregion) hnew
  refine ⟨Instruction.closed_of_effect hs.closed heffect, ?_, haround'.heap, ?_, ?_, ?_⟩
  · rw [Instruction.get?_of_effect hs.closed heffect hfree]
    exact hs.value
  · intro other v hne hv
    by_cases hother : other ∈ inst.names
    · exact haround'.operands other hother v hv
    · rw [Instruction.get?_of_effect hs.closed heffect hother] at hv
      exact hs.others other v hne hv
  · intro r hr
    exact Nat.lt_of_lt_of_le (hs.existing r hr) hsize
  · intro r hr
    have hout : ¬ ¬ region r := fun hnot => hnot hr
    rw [Instruction.items_of_effect hs.closed heffect haround (hs.existing r hr) hout]
    exact hs.items r hr

theorem apart_next {m : Machine}
    (hm : m.store.Apart name w region h)
    (hfree : ∀ inst, m.Executes inst → name ∉ inst.names) :
    m.next.store.Apart name w region h := by
  refine store_next_cases hm fun inst control s' hinst heffect => ?_
  exact apart_of_effect hm heffect (hfree inst hinst)

theorem apart_iterate {m : Machine} {n : Nat}
    (hm : m.store.Apart name w region h)
    (hfree : ∀ k, k < n → ∀ inst, (next^[k] m).Executes inst → name ∉ inst.names) :
    (next^[n] m).store.Apart name w region h := by
  induction n with
  | zero => exact hm
  | succ n ih =>
      rw [Function.iterate_succ_apply']
      refine apart_next (ih fun k hk => hfree k (by omega)) ?_
      exact hfree n (by omega)

/-- **A copy is apart from everything else.** -/
theorem apart_copy {source : String} {v : Value}
    (name : String)
    (hs : s.Closed)
    (hsource : s.memory.get? source = some v) :
    (Store.assign ⟨s.memory, (s.heap.deepCopy v).2⟩ name (s.heap.deepCopy v).1).Apart name
      (s.heap.deepCopy v).1 (s.heap.IsNew v) (s.heap.deepCopy v).2 := by
  have hclosed : (Store.assign ⟨s.memory, (s.heap.deepCopy v).2⟩ name
      (s.heap.deepCopy v).1).Closed :=
    Instruction.closed_of_effect hs (Effect.copy hsource)
  refine ⟨hclosed, Memory.get?_set_self _ _ _, Heap.confined_not_new hs.heap v, ?_, ?_, ?_⟩
  · intro other u hne hu
    have hget : (s.memory.set name (s.heap.deepCopy v).1).get? other = some u := hu
    rw [Memory.get?_set_of_ne fun heq => hne heq.symm] at hget
    exact (hs.memory hget).mono fun r hr hnew => Nat.not_le_of_lt hr hnew.1
  · exact fun r hr => hr.2
  · exact fun r _ => rfl

end Region

section Consequences

variable {s : Store} {name : String} {v w : Value} {h : Heap}

theorem confined_of_apart (hh : h.Closed)
    (hs : s.Apart name w (h.IsNew v) (h.deepCopy v).2) :
    s.heap.Confined (h.IsNew v) := by
  intro r hr u hu
  rw [hs.items r hr] at hu
  exact Heap.confined_new hh v r hr u hu

theorem alike_of_apart (hh : h.Closed)
    (hv : v.LiesIn fun r => r < h.size)
    (hs : s.Apart name (h.deepCopy v).1 (h.IsNew v) (h.deepCopy v).2) :
    Heap.Alike h v s.heap (h.deepCopy v).1 := by
  refine (Heap.alike_deepCopy hh hv).trans (Heap.Alike.of_agree fun r hr => hs.items r ?_)
  exact hr.liesIn (Heap.confined_new hh v) (Heap.liesIn_deepCopy hv)

theorem alike_of_untouchedCopy {h' : Heap} {u : Value} (hu : h.UntouchedCopy v h' u) :
    Heap.Alike h v h' u := by
  obtain ⟨before, original, hclosed, hlies, halike, rfl, hagree⟩ := hu
  have hcopy := Heap.alike_deepCopy hclosed hlies
  exact (halike.trans hcopy).trans (Heap.Alike.of_agree hagree)

end Consequences

/-- **A copy is isolated for as long as no instruction names its variable.**  No
other variable reaches a list that it reaches; its lists keep the items that the
copy gave them; so it keeps the text that its source had, and it equals every
copy of that value that is untouched as well. -/
theorem copy_isolates {m : Machine} (hm : Reachable m) {dest source : String}
    (hcopy : m.Executes (.copy dest source)) (n : Nat)
    (hfree : ∀ k, k < n → ∀ inst, (next^[k] m.next).Executes inst → dest ∉ inst.names) :
    ∃ v w, m.memory.get? source = some v ∧ m.next.memory.get? dest = some w ∧
      (next^[n] m.next).memory.get? dest = some w ∧
      (∀ other u r, other ≠ dest → (next^[n] m.next).memory.get? other = some u →
        (next^[n] m.next).heap.Reaches w r → ¬ (next^[n] m.next).heap.Reaches u r) ∧
      (∀ r, (next^[n] m.next).heap.Reaches w r →
        m.next.heap.Reaches w r ∧
          (next^[n] m.next).heap.items r = m.next.heap.items r) ∧
      (next^[n] m.next).heap.text w = m.heap.text v ∧
      (∀ u, m.heap.UntouchedCopy v (next^[n] m.next).heap u →
        (next^[n] m.next).heap.sameValue w u = true ∧
          (next^[n] m.next).heap.sameValue u w = true) := by
  have hclosed := closed_of_reachable hm
  obtain ⟨control, s', heffect, hnext⟩ := hcopy.exists_effect
  cases heffect with
  | @copy _ _ _ v hsource =>
      have hv : v.LiesIn fun r => r < m.heap.size := hclosed.memory hsource
      have hstore : m.next.store = Store.assign ⟨m.memory, (m.heap.deepCopy v).2⟩ dest
          (m.heap.deepCopy v).1 := by
        rw [hnext]
        rfl
      have hheap : m.next.heap = (m.heap.deepCopy v).2 := congrArg Store.heap hstore
      have hapart := apart_copy dest hclosed hsource
      have hnow := apart_iterate (hstore.symm ▸ hapart) hfree
      have hregion : ∀ r, (next^[n] m.next).heap.Reaches (m.heap.deepCopy v).1 r →
          m.heap.IsNew v r := fun r hr =>
        hr.liesIn (confined_of_apart hclosed.heap hnow) (Heap.liesIn_deepCopy hv)
      have hagree : ∀ r, (m.heap.deepCopy v).2.Reaches (m.heap.deepCopy v).1 r →
          (next^[n] m.next).heap.items r = (m.heap.deepCopy v).2.items r := fun r hr =>
        hnow.items r (hr.liesIn (Heap.confined_new hclosed.heap v) (Heap.liesIn_deepCopy hv))
      have halike := alike_of_apart hclosed.heap hv hnow
      refine ⟨v, (m.heap.deepCopy v).1, hsource, ?_, hnow.value, ?_, ?_, ?_, ?_⟩
      · rw [memory, hstore]
        exact hapart.value
      · intro other u r hne hu hw hother
        exact hother.liesIn hnow.outside (hnow.others other u hne hu) (hregion r hw)
      · intro r hr
        rw [hheap]
        exact ⟨(Heap.reaches_congr hagree r).mp hr, hnow.items r (hregion r hr)⟩
      · rw [Heap.text_of_agree hagree]
        exact Heap.text_deepCopy hclosed.heap hv
      · intro u hu
        have hequal := halike.symm.trans (alike_of_untouchedCopy hu)
        exact ⟨Heap.sameValue_of_alike hequal, Heap.sameValue_of_alike hequal.symm⟩

/-- A machine about to copy a list that contains itself. -/
def beforeCopy : Machine :=
  { ofProgram #["VARLIST x 0 7", "SET x 0 x", "COPY c x", "SET 5 1 x"] with
    store := ⟨⟨[("x", .list 0)]⟩, ⟨#[[.list 0, .int 7]]⟩⟩, pc := 2, steps := 2 }

theorem reachable_beforeCopy : Reachable beforeCopy := by
  have hstart := Reachable.start #["VARLIST x 0 7", "SET x 0 x", "COPY c x", "SET 5 1 x"]
  have hnext : (ofProgram #["VARLIST x 0 7", "SET x 0 x", "COPY c x", "SET 5 1 x"]).next.next =
    beforeCopy := by decide +kernel
  rw [← hnext]
  exact hstart.next.next

theorem copy_isolates_beforeCopy :
    ∃ w, (next^[1] beforeCopy.next).memory.get? "c" = some w ∧
      (∀ r, (next^[1] beforeCopy.next).heap.Reaches w r →
        ¬ (next^[1] beforeCopy.next).heap.Reaches (.list 0) r) ∧
      (next^[1] beforeCopy.next).heap.text w = beforeCopy.heap.text (.list 0) := by
  have hcopy : beforeCopy.Executes (.copy "c" "x") :=
    ⟨rfl, ⟨"COPY c x", rfl, rfl⟩, _, _, rfl⟩
  have hfree : ∀ k, k < 1 → ∀ inst,
      (next^[k] beforeCopy.next).Executes inst → "c" ∉ inst.names := by
    intro k hk inst hinst
    obtain rfl : k = 0 := by omega
    have hline : (next^[0] beforeCopy.next).line? = some "SET 5 1 x" := by decide +kernel
    obtain rfl := hinst.eq_of_line hline rfl
    decide
  obtain ⟨v, w, hv, _, hw, hapart, _, htext, _⟩ :=
    copy_isolates reachable_beforeCopy hcopy 1 hfree
  cases hv
  refine ⟨w, hw, fun r hr => ?_, htext⟩
  exact hapart "x" (.list 0) r (by decide) (by decide +kernel) hr

end Machine
end LineMachine
