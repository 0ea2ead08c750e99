import LineMachine.Proofs.Machine.Mirroring
import Mathlib.Logic.Equiv.Basic

/-!
# What a run does not depend on

A run does not depend on which lists its lists are: the numbers that they have, the order
in which they were made, and lists that no variable reaches make no difference.  Nor does
it depend on the names of its variables: the renamed program runs as the program does,
with the variables renamed.

**Input.**  Two machines with isomorphic memories; or a program whose lines can all be
read, a renaming of words that leaves the literals as they are, and a program of renamed
lines.

**Results.**
* `Machine.runs_respect_isomorphism`: runs from isomorphic memories are isomorphic.
* `Machine.renaming_renames_runs`: runs of a program and of the renamed program.
-/

namespace LineMachine
namespace Machine

section Programs

variable {P : String → String → Prop} {program program' : Array String}

theorem rel_lineAt? (h : List.Forall₂ P program.toList program'.toList) (pc : Int) :
    Option.Rel P (lineAt? program pc) (lineAt? program' pc) := by
  unfold lineAt?
  split
  · rw [← Array.getElem?_toList, ← Array.getElem?_toList]
    exact rel_getElem? h pc.toNat
  · exact .none

theorem decodesAlike_of_renamedLines {ρ : String → String} {lines lines' : List String}
    (hlines : List.Forall₂ (Instruction.RenamedLine ρ) lines lines')
    (hdecode : ∀ line, line ∈ lines → ∃ inst, Instruction.decode line = .ok inst) :
    List.Forall₂ (fun line line' => Instruction.DecodesAlike Text.IsWord ρ
      (Instruction.decode line) (Instruction.decode line')) lines lines' := by
  induction hlines with
  | nil => exact .nil
  | cons hline _ ih =>
      obtain ⟨⟨inst, hinst⟩, hrest⟩ := List.forall_mem_cons.mp hdecode
      exact .cons (Instruction.decodesAlike_of_renamedLine hline hinst) (ih hrest)

end Programs

section Isomorphisms

variable {m m' : Machine} {R : Ref → Ref → Prop}

/-- **Runs from isomorphic memories are isomorphic.**  They end with the same result, at
the same place, with the same fault, and with isomorphic memories again, in which every
variable has the same text. -/
theorem runs_respect_isomorphism
    (hclosed : m.store.Closed) (hclosed' : m'.store.Closed)
    (hprogram : m'.program = m.program) (hpc : m'.pc = m.pc) (hstatus : m'.status = m.status)
    (hsteps : m'.steps = m.steps) (hfault : m'.fault = m.fault)
    (hstore : m.store.Isomorphic id R m'.store) (n : Nat) :
    let a := next^[n] m
    let b := next^[n] m'
    SameResult (runFor n m) (runFor n m') ∧
      b.pc = a.pc ∧ b.status = a.status ∧ b.steps = a.steps ∧ b.fault = a.fault ∧
      (∃ Q, a.store.Isomorphic id Q b.store) ∧
      ∀ name, (b.memory.get? name).map b.heap.text = (a.memory.get? name).map a.heap.text := by
  intro a b
  have hrename : Fault.rename id = id := funext Fault.rename_id
  have hlines : ∀ pc, Option.Rel
      (fun line line' => Instruction.DecodesAlike (fun _ => True) id (Instruction.decode line)
        (Instruction.decode line'))
      (lineAt? m.program pc) (lineAt? m'.program pc) := by
    rw [hprogram]
    exact rel_lineAt? (List.forall₂_same.mpr fun line _ => Instruction.decodesAlike_id line)
  have hstart : m.Mirrors (fun _ => True) id m' := by
    refine ⟨hlines, hpc, hstatus, hsteps, ?_, hclosed, hclosed', R, ?_⟩
    · rw [hfault, hrename, Option.map_id_fun, id]
    · exact hstore.mirrors tokenRenaming_id (fun _ _ => trivial) hclosed hclosed'
  have hend : a.Mirrors (fun _ => True) id b := hstart.iterate tokenRenaming_id n
  refine ⟨hstart.runFor tokenRenaming_id n, hend.pc, hend.status, hend.steps, ?_,
    hend.isomorphic, fun name => ?_⟩
  · rw [hend.fault, hrename, Option.map_id_fun, id]
  · obtain ⟨Q, hQ⟩ := hend.store
    exact @Store.Mirrors.text_eq _ _ _ _ _ hQ name trivial

end Isomorphisms

/-- A machine whose variable holds a list that contains itself. -/
def selfHolding : Machine :=
  { ofProgram #["COPY b a", "SET 5 0 b", "HLT"] with
    store := ⟨⟨[("a", .list 0)]⟩, ⟨#[[.list 0, .int 7]]⟩⟩ }

/-- The same, after lists that were made and forgotten. -/
def selfHoldingLater : Machine :=
  { selfHolding with
    store := ⟨⟨[("a", .list 2)]⟩, ⟨#[[.list 2], [], [.list 2, .int 7]]⟩⟩ }

/-- A list that holds itself, and no other, is all that its variable reaches. -/
theorem live_iff_of_self {h : Heap} {r : Ref} (hr : h.items r = [.list r, .int 7]) (q : Ref) :
    Store.Live ⟨⟨[("a", .list r)]⟩, h⟩ q ↔ q = r := by
  constructor
  · rintro ⟨name, v, hv, hreach⟩
    have hconfined : h.Confined fun p => p = r := by
      rintro p rfl w hw
      rw [hr, List.mem_cons, List.mem_singleton] at hw
      rcases hw with rfl | rfl
      · rfl
      · trivial
    refine hreach.liesIn hconfined ?_
    have hv' : (if "a" = name then some (.list r) else none) = some v := hv
    split at hv'
    · cases hv'
      rfl
    · cases hv'
  · rintro rfl
    exact ⟨"a", .list q, rfl, .self rfl⟩

theorem isomorphic_selfHolding :
    selfHolding.store.Isomorphic id (Heap.OnlyPair 0 2) selfHoldingLater.store := by
  refine ⟨rfl, ?_, ⟨?_, ?_, ?_⟩, fun r => ?_, fun q => ?_⟩
  · intro name hname
    obtain rfl := List.mem_singleton.mp hname
    exact .some (.list ⟨rfl, rfl⟩)
  · rintro r q ⟨rfl, rfl⟩
    exact .cons (.list ⟨rfl, rfl⟩) (.cons (.int 7) .nil)
  · rintro r s q ⟨rfl, _⟩ ⟨rfl, _⟩
    rfl
  · rintro r q t ⟨_, rfl⟩ ⟨_, rfl⟩
    rfl
  · refine (live_iff_of_self rfl r).trans ⟨?_, ?_⟩
    · rintro rfl
      exact ⟨2, rfl, rfl⟩
    · rintro ⟨q, rfl, _⟩
      rfl
  · refine (live_iff_of_self rfl q).trans ⟨?_, ?_⟩
    · rintro rfl
      exact ⟨0, rfl, rfl⟩
    · rintro ⟨r, _, rfl⟩
      rfl

theorem closed_of_variable {lists : Array (List Value)} {r : Ref} (hr : r < lists.size)
    (hlists : ∀ items, items ∈ lists.toList → ∀ v, v ∈ items →
      v.LiesIn fun q => q < lists.size) :
    Store.Closed ⟨⟨[("a", .list r)]⟩, ⟨lists⟩⟩ := by
  refine ⟨Heap.closed_of_lists hlists, fun {name v} hv => ?_⟩
  have hv' : (if "a" = name then some (.list r) else none) = some v := hv
  split at hv'
  · cases hv'
    exact hr
  · cases hv'

theorem runs_respect_isomorphism_selfHolding :
    (next^[3] selfHoldingLater).status = .halted ∧
      (next^[3] selfHoldingLater).steps = 3 ∧
      (∃ Q, (next^[3] selfHolding).store.Isomorphic id Q (next^[3] selfHoldingLater).store) ∧
      ((next^[3] selfHoldingLater).memory.get? "b").map (next^[3] selfHoldingLater).heap.text =
        ((next^[3] selfHolding).memory.get? "b").map (next^[3] selfHolding).heap.text := by
  have hend : (final (runFor 3 selfHolding)).status = .halted ∧
      (final (runFor 3 selfHolding)).steps = 3 := by
    decide +kernel
  rw [final_runFor] at hend
  have hclosed : selfHolding.store.Closed :=
    closed_of_variable (by decide) (by simp [Value.LiesIn])
  have hclosed' : selfHoldingLater.store.Closed :=
    closed_of_variable (by decide) (by simp [Value.LiesIn])
  obtain ⟨_, _, hstatus, hsteps, _, hmemory, htext⟩ := runs_respect_isomorphism hclosed hclosed'
    rfl rfl rfl rfl rfl isomorphic_selfHolding 3
  exact ⟨hstatus.trans hend.1, hsteps.trans hend.2, hmemory, htext "b"⟩

section Renamings

variable {ρ : String → String} {m m' : Machine} {program program' : Array String}

/-- Machines that start on a program and on the renamed program mirror each other. -/
theorem mirrors_load (hclosed : m.store.Closed) (hclosed' : m'.store.Closed)
    (hdecode : ∀ line, line ∈ program.toList → ∃ inst, Instruction.decode line = .ok inst)
    (hprogram : List.Forall₂ (Instruction.RenamedLine ρ) program.toList program'.toList) :
    (m.load program).Mirrors Text.IsWord ρ (m'.load program') := by
  refine ⟨rel_lineAt? (decodesAlike_of_renamedLines hprogram hdecode), rfl, rfl, rfl, rfl,
    closed_of_memory_empty hclosed.heap, closed_of_memory_empty hclosed'.heap,
    fun _ _ => False, rfl, ?_, fun _ _ => .none, ⟨⟨?_, ?_, ?_⟩, ?_⟩⟩
  · intro name hname
    cases hname
  · intro r q hrq
    exact hrq.elim
  · intro r s q hrq
    exact hrq.elim
  · intro r q t hrq
    exact hrq.elim
  · intro r q hrq
    exact hrq.elim

/-- **The renamed program runs as the program does, with the variables renamed.** -/
theorem renaming_renames_runs (hρ : Renaming ρ)
    (hdecode : ∀ line, line ∈ program.toList → ∃ inst, Instruction.decode line = .ok inst)
    (hprogram : List.Forall₂ (Instruction.RenamedLine ρ) program.toList program'.toList)
    (hm : Reachable m) (hm' : Reachable m') (n : Nat) :
    let a := next^[n] (m.load program)
    let b := next^[n] (m'.load program')
    SameResult (runFor n (m.load program)) (runFor n (m'.load program')) ∧
      b.pc = a.pc ∧ b.status = a.status ∧ b.steps = a.steps ∧
      b.fault = a.fault.map (Fault.rename ρ) ∧
      b.memory.names = a.memory.names.map ρ ∧
      (∃ R, a.store.Isomorphic ρ R b.store) ∧
      ∀ name, name ∈ a.memory.names →
        (b.memory.get? (ρ name)).map b.heap.text = (a.memory.get? name).map a.heap.text := by
  intro a b
  have hstart := mirrors_load (closed_of_reachable hm) (closed_of_reachable hm') hdecode hprogram
  have hend : a.Mirrors Text.IsWord ρ b := hstart.iterate hρ.tokenRenaming n
  exact ⟨hstart.runFor hρ.tokenRenaming n, hend.pc, hend.status, hend.steps, hend.fault,
    hend.names, hend.isomorphic, fun name hname => hend.text_eq hname⟩

end Renamings

/-- A program that makes a list contain itself and then misses a variable. -/
def missing : Array String :=
  #["VARLIST y 3", "SET y 0 y", "COPY z x"]

/-- The same, with two names exchanged. -/
def missingSwapped : Array String :=
  #["VARLIST x 3", "SET x 0 x", "COPY z y"]

theorem renaming_swap : Renaming (Equiv.swap "x" "y") where
  isWord := by
    intro w hw
    rw [Equiv.swap_apply_def]
    split
    · decide
    · split
      · decide
      · exact hw
  injective _ _ _ _ heq := (Equiv.swap "x" "y").injective heq
  literal := by
    intro w _ hliteral
    refine Equiv.swap_apply_of_ne_of_ne ?_ ?_
    · rintro rfl
      cases hliteral
    · rintro rfl
      cases hliteral

theorem renaming_renames_runs_missing :
    (next^[3] ((ofProgram #[]).load missingSwapped)).pc = 2 ∧
      (next^[3] ((ofProgram #[]).load missingSwapped)).fault = some (.undefinedVariable "y") ∧
      (next^[3] ((ofProgram #[]).load missingSwapped)).memory.names = ["x"] := by
  have hdecode : ∀ line, line ∈ missing.toList → ∃ inst, Instruction.decode line = .ok inst := by
    intro line hline
    simp only [missing, List.mem_cons, List.not_mem_nil, or_false] at hline
    rcases hline with rfl | rfl | rfl
    · exact ⟨.varList "y" ["3"], rfl⟩
    · exact ⟨.set "y" 0 "y", rfl⟩
    · exact ⟨.copy "z" "x", rfl⟩
  have hprogram : List.Forall₂ (Instruction.RenamedLine (Equiv.swap "x" "y")) missing.toList
      missingSwapped.toList :=
    .cons (by decide) (.cons (by decide) (.cons (by decide) .nil))
  have hend : (final (runFor 3 ((ofProgram #[]).load missing))).pc = 2 ∧
      (final (runFor 3 ((ofProgram #[]).load missing))).fault = some (.undefinedVariable "x") ∧
      (final (runFor 3 ((ofProgram #[]).load missing))).memory.names = ["y"] := by
    decide +kernel
  rw [final_runFor] at hend
  obtain ⟨_, hpc, _, _, hfault, hnames, _⟩ := renaming_renames_runs renaming_swap hdecode hprogram
    (.start #[]) (.start #[]) 3
  refine ⟨hpc.trans hend.1, ?_, ?_⟩
  · rw [hfault, hend.2.1]
    rfl
  · rw [hnames, hend.2.2]
    rfl

end Machine
end LineMachine
