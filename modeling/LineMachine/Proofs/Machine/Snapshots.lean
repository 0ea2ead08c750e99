import LineMachine.Proofs.Heap.Render
import LineMachine.Proofs.Machine.Aliasing
import LineMachine.Proofs.Machine.Operations

/-!
# Snapshots

A snapshot is a copy of the names, and not of the lists that they hold.  So no name of it is
ever bound anew, whatever is done with the machine; but a replacement in a list that it
reaches is seen in it.

**Model.**  The names of a machine stand in a table that assignments change in place.  Loading
a program begins a new table, and a snapshot copies the one that there is.  An archive keeps
all these tables; its machine is the machine that has no tables.

**Results.**
* `Archive.machine_operate`: the tables make no difference to the machine.
* `Archive.shown_operate`: no table of a snapshot is ever changed.
* `Machine.text_operate`: what the values of a snapshot keep their texts under.
* `Archive.snapshots_show_replacements_only`: how a snapshot changes, and how it does not.
-/

namespace LineMachine

/-- The lists that a snapshot reaches in a heap. -/
def Snapshot.Reaches (snap : Snapshot) (h : Heap) (r : Ref) : Prop :=
  ∃ name v, snap.memory.get? name = some v ∧ h.Reaches v r

/-- The item at an index of the list that a snapshot holds under a name. -/
def Snapshot.itemAt? (snap : Snapshot) (h : Heap) (name : String) (index : Int) : Option Value :=
  match snap.memory.get? name with
  | some (.list r) => Heap.itemAt? (h.items r) index
  | _ => none

/-- The lists of the set exist, and have the items that they have in the heap. -/
structure Store.Upholds (S : Ref → Prop) (h : Heap) (s : Store) : Prop where
  closed : s.Closed
  existing : ∀ r, S r → r < s.heap.size
  items : ∀ r, S r → s.heap.items r = h.items r

/-- What a snapshot reaches is the same in a heap with the same items in what it reached. -/
theorem Snapshot.reaches_congr {snap : Snapshot} {h h' : Heap}
    (hagree : ∀ r, snap.Reaches h r → h'.items r = h.items r) (r : Ref) :
    snap.Reaches h' r ↔ snap.Reaches h r := by
  constructor
  · rintro ⟨name, v, hv, hr⟩
    exact ⟨name, v, hv, (Heap.reaches_congr (fun q hq => hagree q ⟨name, v, hv, hq⟩) r).mp hr⟩
  · rintro ⟨name, v, hv, hr⟩
    exact ⟨name, v, hv, (Heap.reaches_congr (fun q hq => hagree q ⟨name, v, hv, hq⟩) r).mpr hr⟩

namespace Machine

section Upholding

variable {S : Ref → Prop} {h : Heap} {s s' : Store} {inst : Instruction} {control : Control}

/-- An instruction upholds the lists of a set if it replaces no item of them. -/
theorem upholds_of_effect (hs : s.Upholds S h) (heffect : Effect inst s control s')
    (hset : ∀ source index seq r, inst = .set source index seq →
      s.memory.get? seq = some (.list r) → ¬ S r) : s'.Upholds S h := by
  have hf := Instruction.footprint_of_effect hs.closed heffect
  refine ⟨Instruction.closed_of_effect hs.closed heffect,
    fun r hr => Nat.lt_of_lt_of_le (hs.existing r hr) hf.size_le, fun r hr => ?_⟩
  rw [← hs.items r hr]
  by_cases hinst : ∃ source index seq, inst = .set source index seq
  · obtain ⟨source, index, seq, hinst⟩ := hinst
    obtain ⟨q, v, hseq, _, _, _, _, hothers⟩ := hf.cell source index seq hinst
    refine hothers r ?_
    rintro rfl
    exact hset source index seq r hinst hseq hr
  · exact hf.items (fun source index seq heq => hinst ⟨source, index, seq, heq⟩) r
      (hs.existing r hr)

end Upholding

section Texts

variable {m : Machine} {ops : List Operation}

/-- **What the values of a snapshot keep their texts under**: any operations that replace no
item of a list that the snapshot reaches at the time. -/
theorem text_operate (hm : m.store.Closed)
    (hset : ∀ t, ExecutesDuring ops m t → ∀ source index seq r, t.inst = .set source index seq →
      t.before.memory.get? seq = some (.list r) → ¬ m.snapshot.Reaches t.before.heap r)
    {name : String} {v : Value} (hv : m.memory.get? name = some v) :
    (m.operate ops).heap.text v = m.heap.text v := by
  have hstart : m.store.Upholds (m.snapshot.Reaches m.heap) m.heap := by
    refine ⟨hm, ?_, fun r _ => rfl⟩
    rintro r ⟨other, w, hw, hr⟩
    exact hr.liesIn hm.heap (hm.memory hw)
  have hend : (m.operate ops).store.Upholds (m.snapshot.Reaches m.heap) m.heap := by
    refine operate_invariant hstart (fun s hs => ?_) fun t ht hbefore => ?_
    · exact ⟨closed_of_memory_empty hs.closed.heap, hs.existing, hs.items⟩
    · obtain ⟨control, heffect⟩ := ht.exists_effect
      refine upholds_of_effect hbefore heffect fun source index seq r hinst hseq hr => ?_
      exact hset t ht source index seq r hinst hseq
        ((Snapshot.reaches_congr hbefore.items r).mpr hr)
  exact Heap.text_of_agree fun r hr => hend.items r ⟨name, v, hv, hr⟩

/-- A replacement that is executed is seen in the list. -/
theorem ExecutesDuring.itemAt?_set {t : Transition} (ht : ExecutesDuring ops m t)
    {source seq : String} {index : Int} {r : Ref} (hinst : t.inst = .set source index seq)
    (hseq : t.before.memory.get? seq = some (.list r)) :
    ∃ v, Resolves t.before.store source v ∧
      Heap.itemAt? (t.after.heap.items r) index = some v := by
  obtain ⟨control, heffect⟩ := ht.exists_effect
  rw [hinst] at heffect
  obtain ⟨q, v, hq, hsource, _, ho⟩ := overwritten_of_effect heffect
  have hqr : some (Value.list q) = some (.list r) := hq.symm.trans hseq
  cases hqr
  exact ⟨v, hsource, ho.itemAt?_self⟩

end Texts

end Machine

open Machine

/-- A snapshot that is held: a place in a program, and the number of a table. -/
structure HeldSnapshot where
  pc : Int
  table : Nat

/-- A machine with all the tables of names that there have been, among them its own. -/
structure Archive where
  machine : Machine
  tables : Array Memory
  current : Nat
  holds : tables[current]? = some machine.memory

namespace Archive

/-- A new machine that starts on a program. -/
def start (program : Array String) : Archive where
  machine := ofProgram program
  tables := #[.empty]
  current := 0
  holds := rfl

/-- Another machine, whose names are bound in the same table. -/
def rebound (a : Archive) (m : Machine) : Archive where
  machine := m
  tables := a.tables.setIfInBounds a.current m.memory
  current := a.current
  holds := by
    obtain ⟨hlt, _⟩ := Array.getElem?_eq_some_iff.mp a.holds
    rw [Array.getElem?_setIfInBounds_self_of_lt hlt]

/-- Another machine, whose names stand in a new table. -/
def renewed (a : Archive) (m : Machine) : Archive where
  machine := m
  tables := a.tables.push m.memory
  current := a.tables.size
  holds := Array.getElem?_push_size

/-- The same machine, with a copy of its table beside it. -/
def copied (a : Archive) : Archive where
  machine := a.machine
  tables := a.tables.push a.machine.memory
  current := a.current
  holds := by
    obtain ⟨hlt, _⟩ := Array.getElem?_eq_some_iff.mp a.holds
    rw [Array.getElem?_push_lt hlt, ← Array.getElem?_eq_getElem hlt, a.holds]

/-- The archive after an operation. -/
def perform (a : Archive) : Operation → Archive
  | .call (.load program) => a.renewed (a.machine.load program)
  | .snapshot => a.copied
  | op => a.rebound (op.perform a.machine)

/-- The archive after a sequence of operations. -/
def operate (a : Archive) : List Operation → Archive
  | [] => a
  | op :: ops => (a.perform op).operate ops

/-- The archives that operations lead to from new machines. -/
inductive Reachable : Archive → Prop
  | start (program : Array String) : Reachable (start program)
  | operation {a : Archive} (op : Operation) : Reachable a → Reachable (a.perform op)

/-- The snapshot that is taken of the machine; its table is the one that is copied next. -/
def taken (a : Archive) : HeldSnapshot := ⟨a.machine.pc, a.tables.size⟩

/-- What a snapshot shows. -/
def shown (a : Archive) (held : HeldSnapshot) : Option Snapshot :=
  a.tables[held.table]?.map fun memory => ⟨held.pc, memory⟩

/-- The table is not that of the machine, and has these names. -/
def Keeps (a : Archive) (table : Nat) (memory : Memory) : Prop :=
  table ≠ a.current ∧ a.tables[table]? = some memory

section Tables

variable {a : Archive} {table : Nat} {memory : Memory}

/-- The tables make no difference to the machine. -/
theorem machine_perform (a : Archive) (op : Operation) :
    (a.perform op).machine = op.perform a.machine := by
  cases op with
  | call c => cases c <;> rfl
  | execute inst => rfl
  | snapshot => rfl

theorem machine_operate (a : Archive) (ops : List Operation) :
    (a.operate ops).machine = a.machine.operate ops := by
  induction ops generalizing a with
  | nil => rfl
  | cons op ops ih => rw [operate, ih, machine_perform, Machine.operate]

/-- Every machine that calls lead to has an archive. -/
theorem exists_archive {m : Machine} (hm : m.Reachable) :
    ∃ a : Archive, a.Reachable ∧ a.machine = m := by
  induction hm with
  | start program => exact ⟨start program, .start program, rfl⟩
  | call c _ ih =>
      obtain ⟨a, ha, rfl⟩ := ih
      exact ⟨a.perform (.call c), .operation _ ha, machine_perform a _⟩

theorem closed_of_reachable (ha : a.Reachable) : a.machine.store.Closed := by
  induction ha with
  | start program => exact closed_of_memory_empty Heap.closed_empty
  | operation op _ ih =>
      rw [machine_perform]
      exact closed_operate ih [op]

theorem keeps_copied (a : Archive) : a.copied.Keeps a.tables.size a.machine.memory := by
  obtain ⟨hlt, _⟩ := Array.getElem?_eq_some_iff.mp a.holds
  exact ⟨Nat.ne_of_gt hlt, Array.getElem?_push_size⟩

/-- **No operation changes a table that is not the machine's own**, or makes it that. -/
theorem Keeps.perform (hk : a.Keeps table memory) (op : Operation) :
    (a.perform op).Keeps table memory := by
  obtain ⟨hne, hget⟩ := hk
  obtain ⟨hlt, _⟩ := Array.getElem?_eq_some_iff.mp hget
  have hrebound : ∀ m, (a.rebound m).Keeps table memory := fun m =>
    ⟨hne, (Array.getElem?_setIfInBounds_ne (Ne.symm hne)).trans hget⟩
  have hpushed : ∀ other, (a.tables.push other)[table]? = some memory := fun other => by
    rw [Array.getElem?_push_lt hlt, ← Array.getElem?_eq_getElem hlt, hget]
  cases op with
  | call c =>
      cases c with
      | load program => exact ⟨Nat.ne_of_lt hlt, hpushed _⟩
      | step => exact hrebound _
      | run patience budget => exact hrebound _
  | execute inst => exact hrebound _
  | snapshot => exact ⟨hne, hpushed _⟩

theorem Keeps.operate (hk : a.Keeps table memory) (ops : List Operation) :
    (a.operate ops).Keeps table memory := by
  induction ops generalizing a with
  | nil => exact hk
  | cons op ops ih => exact ih (hk.perform op)

/-- **A snapshot always shows what it was taken of.** -/
theorem shown_operate (a : Archive) (ops : List Operation) :
    ((a.perform .snapshot).operate ops).shown a.taken = some a.machine.snapshot := by
  obtain ⟨_, hget⟩ := (keeps_copied a).operate ops
  have htable : ((a.perform .snapshot).operate ops).tables[a.taken.table]? =
      some a.machine.memory := hget
  rw [shown, htable]
  rfl

end Tables

/-- **Snapshots show replacements and nothing else.**  Whatever is done with a machine after a
snapshot was taken, it shows the place and the names with their values, integers and lists, of
the moment when it was taken.  The values have the texts that they had then, unless an item is
replaced of a list that the snapshot reaches at the time; and an item that is replaced in a
list that it holds under a name is seen there. -/
theorem snapshots_show_replacements_only {a : Archive} (ha : a.Reachable)
    (ops : List Operation) :
    ((a.perform .snapshot).operate ops).machine = a.machine.operate ops ∧
    ((a.perform .snapshot).operate ops).shown a.taken = some a.machine.snapshot ∧
    ((∀ t, ExecutesDuring ops a.machine t → ∀ source index seq r,
        t.inst = .set source index seq → t.before.memory.get? seq = some (.list r) →
          ¬ a.machine.snapshot.Reaches t.before.heap r) →
      ∀ name v, a.machine.snapshot.memory.get? name = some v →
        (a.machine.operate ops).heap.text v = a.machine.heap.text v) ∧
    ∀ t, ExecutesDuring ops a.machine t → ∀ source index seq name r,
      t.inst = .set source index seq → t.before.memory.get? seq = some (.list r) →
        a.machine.snapshot.memory.get? name = some (.list r) →
          ∃ v, Resolves t.before.store source v ∧
            a.machine.snapshot.itemAt? t.after.heap name index = some v := by
  refine ⟨machine_operate _ ops, shown_operate a ops, fun hset name v hv => ?_, ?_⟩
  · exact text_operate (closed_of_reachable ha) hset hv
  · intro t ht source index seq name r hinst hseq hname
    obtain ⟨v, hsource, hitem⟩ := ht.itemAt?_set hinst hseq
    refine ⟨v, hsource, ?_⟩
    rw [Snapshot.itemAt?, hname]
    exact hitem

/-- Lists that are combined and names that are taken away leave the text of a snapshot alone;
a replacement is seen in it. -/
theorem snapshots_show_replacements_only_beforeSharedSet :
    ∃ a : Archive, a.Reachable ∧ a.machine = beforeSharedSet ∧
      ((a.perform .snapshot).operate [.call (.load #[])]).shown a.taken =
        some beforeSharedSet.snapshot ∧
      (beforeSharedSet.operate [.execute (.combine "y" "x"), .call (.load #[])]).heap.text
        (.list 0) = beforeSharedSet.heap.text (.list 0) ∧
      beforeSharedSet.snapshot.itemAt? beforeSharedSet.next.heap "x" 0 = some (.list 1) := by
  obtain ⟨a, ha, hmachine⟩ := exists_archive reachable_beforeSharedSet
  obtain ⟨_, hshown, _, _⟩ := snapshots_show_replacements_only ha [.call (.load #[])]
  obtain ⟨_, _, htext, _⟩ := snapshots_show_replacements_only ha
    [.execute (.combine "y" "x"), .call (.load #[])]
  obtain ⟨_, _, _, hitem⟩ := snapshots_show_replacements_only ha [.call (.run 1 none)]
  rw [hmachine] at hshown htext hitem
  refine ⟨a, ha, hmachine, hshown, htext ?_ "x" (.list 0) rfl, ?_⟩
  · intro t ht source index seq r hinst
    cases ht with
    | now ht =>
        cases ht with
        | step hk => exact absurd hk (Nat.not_lt_zero _)
        | outside => cases hinst
    | later ht =>
        cases ht with
        | now ht =>
            cases ht with
            | step hk => exact absurd hk (Nat.not_lt_zero _)
        | later ht => cases ht
  · have hset : beforeSharedSet.Executes (.set "y" 0 "x") :=
      ⟨rfl, ⟨"SET y 0 x", rfl, rfl⟩, _, _, rfl⟩
    have ht : ExecutesDuring [.call (.run 1 none)] beforeSharedSet
        ⟨beforeSharedSet, .set "y" 0 "x", beforeSharedSet.next⟩ :=
      .now (@Operation.Executes.step _ beforeSharedSet 0 _ Nat.one_pos hset)
    obtain ⟨v, hsource, hv⟩ := hitem _ ht "y" 0 "x" "x" 0 rfl rfl rfl
    cases hsource with
    | bound hname =>
        cases hname
        exact hv
    | literal hname => cases hname

end Archive
end LineMachine
