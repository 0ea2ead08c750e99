import LineMachine.Proofs.Instruction.Acyclicity
import LineMachine.Proofs.Instruction.Mirroring
import LineMachine.Proofs.Machine.Reachable

/-!
# Machines that mirror each other

Machines mirror each other if their programs have the same lines, renamed, they are at
the same place, and their stores mirror each other.  They then go through their programs
side by side.  What the variables reach is isomorphic all the way; what they do not reach
was made by the programs, or by others before them, and never matters.

**Invariant.**  A pairing of existing lists, which only grows.  The lists that are reached
from variables are among them, and leaving out the others gives an isomorphism of exactly
what is in memory.

**Results.**
* `Store.Isomorphic`: memories that are alike up to names and the numbers of lists.
* `Store.Isomorphic.mirrors`, `Store.Mirrors.isomorphic`: the pairings are
  exactly the isomorphisms of memories, extended.
* `Machine.Mirrors.step`, `Machine.Mirrors.iterate`: steps keep machines mirrored.
* `Machine.Mirrors.runFor`: runs of such machines have the same result.
-/

namespace LineMachine

/-- The stores have the same names, those of the second renamed.  The relation pairs the
lists that the variables of the first reach with those that the variables of the second
reach, each with one only; and variables and items of paired lists have the same integers
or paired lists. -/
structure Store.Isomorphic (ρ : String → String) (R : Ref → Ref → Prop) (s s' : Store) :
    Prop where
  names : s'.memory.names = s.memory.names.map ρ
  values : ∀ name, name ∈ s.memory.names →
    Option.Rel (Value.Related R) (s.memory.get? name) (s'.memory.get? (ρ name))
  isomorphism : s.heap.Isomorphism s'.heap R
  left : ∀ r, s.Live r ↔ ∃ q, R r q
  right : ∀ q, s'.Live q ↔ ∃ r, R r q

theorem Value.Related.restrict {R : Ref → Ref → Prop} {S : Ref → Prop} {v w : Value}
    (hvw : v.Related R w) (hv : v.LiesIn S) : v.Related (fun r q => R r q ∧ S r) w := by
  cases hvw with
  | int n => exact .int n
  | list hrq => exact .list ⟨hrq, hv⟩

theorem Value.related_restrict {R : Ref → Ref → Prop} {S : Ref → Prop} {xs ys : List Value}
    (hxy : List.Forall₂ (Value.Related R) xs ys) (hxs : ∀ v, v ∈ xs → v.LiesIn S) :
    List.Forall₂ (Value.Related fun r q => R r q ∧ S r) xs ys := by
  induction hxy with
  | nil => exact .nil
  | cons hhead _ ih =>
      obtain ⟨hv, hrest⟩ := List.forall_mem_cons.mp hxs
      exact .cons (hhead.restrict hv) (ih hrest)

section Memories

variable {T : String → Prop} {ρ : String → String} {R : Ref → Ref → Prop} {s s' : Store}

theorem Store.lt_size_of_live (hs : s.Closed) {r : Ref} (hr : s.Live r) : r < s.heap.size := by
  obtain ⟨name, v, hv, hreach⟩ := hr
  exact hreach.liesIn hs.heap (hs.memory hv)

/-- Isomorphic memories mirror each other. -/
theorem Store.Isomorphic.mirrors (h : s.Isomorphic ρ R s') (hρ : TokenRenaming T ρ)
    (htokens : ∀ name, name ∈ s.memory.names → T name) (hs : s.Closed) (hs' : s'.Closed) :
    s.Mirrors T ρ R s' where
  names := h.names
  tokens := htokens
  values := by
    intro name hname
    by_cases hmem : name ∈ s.memory.names
    · exact h.values name hmem
    · have hmem' : ρ name ∉ s'.memory.names := by
        rw [h.names]
        intro hmap
        obtain ⟨other, hother, heq⟩ := List.mem_map.mp hmap
        rw [hρ.injective other name (htokens other hother) hname heq] at hother
        exact hmem hother
      rw [Memory.get?_eq_none hmem, Memory.get?_eq_none hmem']
      exact .none
  heap := by
    refine ⟨h.isomorphism, fun r q hrq => ⟨?_, ?_⟩⟩
    · exact lt_size_of_live hs ((h.left r).mpr ⟨q, hrq⟩)
    · exact lt_size_of_live hs' ((h.right q).mpr ⟨r, hrq⟩)

theorem Store.Mirrors.live_left (h : s.Mirrors T ρ R s') {q : Ref} (hq : s'.Live q) :
    ∃ r, R r q ∧ s.Live r := by
  obtain ⟨name', w, hw, hreach⟩ := hq
  have hmem : name' ∈ s.memory.names.map ρ := h.names ▸ Memory.mem_names_iff.mpr ⟨w, hw⟩
  obtain ⟨name, hname, rfl⟩ := List.mem_map.mp hmem
  rcases h.get?_cases (h.tokens name hname) with ⟨_, hnone⟩ | ⟨v, w', hv, hw', hvw⟩
  · rw [hnone] at hw
    cases hw
  · rw [hw'] at hw
    cases hw
    obtain ⟨r, hrq, hr⟩ := h.heap.isomorphism.bisimulation.exists_reaches hvw hreach
    exact ⟨r, hrq, name, v, hv, hr⟩

theorem Store.Mirrors.live_right (h : s.Mirrors T ρ R s') {r : Ref} (hr : s.Live r) :
    ∃ q, R r q ∧ s'.Live q := by
  obtain ⟨name, v, hv, hreach⟩ := hr
  have hname := h.tokens name (Memory.mem_names_iff.mpr ⟨v, hv⟩)
  rcases h.get?_cases hname with ⟨hnone, _⟩ | ⟨v', w, hv', hw, hvw⟩
  · rw [hnone] at hv
    cases hv
  · rw [hv'] at hv
    cases hv
    obtain ⟨q, hrq, hq⟩ := h.heap.isomorphism.symm.bisimulation.exists_reaches hvw.symm hreach
    exact ⟨q, hrq, ρ name, w, hw, hq⟩

/-- **Memories of stores that mirror each other are isomorphic**, by what the pairing says
about the lists that the variables reach. -/
theorem Store.Mirrors.isomorphic (h : s.Mirrors T ρ R s') :
    s.Isomorphic ρ (fun r q => R r q ∧ s.Live r) s' where
  names := h.names
  values := by
    intro name hname
    rcases h.get?_cases (h.tokens name hname) with ⟨ho, ho'⟩ | ⟨v, w, ho, ho', hvw⟩
    · rw [ho, ho']
      exact .none
    · rw [ho, ho']
      exact .some (hvw.restrict (Instruction.liesIn_live ho))
  isomorphism := by
    refine ⟨?_, ?_, ?_⟩
    · rintro r q ⟨hrq, hr⟩
      exact Value.related_restrict (h.heap.isomorphism.bisimulation r q hrq) (s.confined_live r hr)
    · rintro r t q ⟨hrq, _⟩ ⟨htq, _⟩
      exact h.heap.isomorphism.unique.1 hrq htq
    · rintro r q t ⟨hrq, _⟩ ⟨hrt, _⟩
      exact h.heap.isomorphism.unique.2 hrq hrt
  left := by
    intro r
    constructor
    · intro hr
      obtain ⟨q, hrq, _⟩ := h.live_right hr
      exact ⟨q, hrq, hr⟩
    · rintro ⟨_, _, hr⟩
      exact hr
  right := by
    intro q
    constructor
    · exact h.live_left
    · rintro ⟨r, hrq, hr⟩
      obtain ⟨t, hrt, ht⟩ := h.live_right hr
      rw [h.heap.isomorphism.unique.2 hrq hrt]
      exact ht

/-- Isomorphic memories have the same texts. -/
theorem Store.Mirrors.text_eq (h : s.Mirrors T ρ R s') {name : String} (hname : T name) :
    (s'.memory.get? (ρ name)).map s'.heap.text = (s.memory.get? name).map s.heap.text := by
  rcases h.get?_cases hname with ⟨ho, ho'⟩ | ⟨v, w, ho, ho', hvw⟩
  · rw [ho, ho']
    rfl
  · rw [ho, ho', Option.map_some, Option.map_some, Heap.text_congr h.heap.isomorphism hvw]

end Memories

namespace Machine

/-- Both computations return the same status, or the same error escapes from both. -/
inductive SameResult : EStateM.Result Numeral.DigitLimit Machine Status →
    EStateM.Result Numeral.DigitLimit Machine Status → Prop
  | ok (status : Status) (m m' : Machine) : SameResult (.ok status m) (.ok status m')
  | error (e : Numeral.DigitLimit) (m m' : Machine) : SameResult (.error e m) (.error e m')

/-- The machines are at the same place of programs whose lines are read alike, and their
stores mirror each other. -/
structure Mirrors (T : String → Prop) (ρ : String → String) (m m' : Machine) : Prop where
  lines : ∀ pc, Option.Rel
    (fun line line' => Instruction.DecodesAlike T ρ (Instruction.decode line)
      (Instruction.decode line'))
    (lineAt? m.program pc) (lineAt? m'.program pc)
  pc : m'.pc = m.pc
  status : m'.status = m.status
  steps : m'.steps = m.steps
  fault : m'.fault = m.fault.map (Fault.rename ρ)
  closed : m.store.Closed
  closed' : m'.store.Closed
  store : ∃ R, m.store.Mirrors T ρ R m'.store

section Steps

variable {T : String → Prop} {ρ : String → String} {m m' : Machine}

theorem Mirrors.line?_cases (h : m.Mirrors T ρ m') :
    (m.line? = none ∧ m'.line? = none) ∨
      ∃ line line', m.line? = some line ∧ m'.line? = some line' ∧
        Instruction.DecodesAlike T ρ (Instruction.decode line) (Instruction.decode line') := by
  have hlines := h.lines m.pc
  rw [line?, line?, h.pc]
  generalize lineAt? m.program m.pc = o at hlines
  generalize lineAt? m'.program m.pc = o' at hlines
  cases hlines with
  | none => exact Or.inl ⟨rfl, rfl⟩
  | some hline => exact Or.inr ⟨_, _, rfl, rfl, hline⟩

/-- **Steps keep machines mirrored**, and have the same result. -/
theorem Mirrors.step (h : m.Mirrors T ρ m') (hρ : TokenRenaming T ρ) :
    SameResult m.step m'.step ∧ m.next.Mirrors T ρ m'.next := by
  have hclosed := closed_next h.closed
  have hclosed' := closed_next h.closed'
  by_cases hrunning : m.status = .running
  · have hrunning' : m'.status = .running := h.status.trans hrunning
    rcases h.line?_cases with ⟨hline, hline'⟩ | ⟨line, line', hline, hline', hdecode⟩
    · have hstep := step_of_line_none hrunning hline
      have hstep' := step_of_line_none hrunning' hline'
      rw [next, hstep, final, next, hstep', final]
      exact ⟨.ok _ _ _, h.lines, h.pc, rfl, h.steps, h.fault,
        h.closed, h.closed', h.store⟩
    · obtain ⟨R, hstore⟩ := h.store
      have hexec := Instruction.corresponds_executeLine hstore hρ h.closed h.closed' hdecode
      generalize hx : Instruction.executeLine line m.store = x at hexec
      generalize hx' : Instruction.executeLine line' m'.store = x' at hexec
      cases hexec with
      | ok heffect =>
          obtain ⟨rfl, hstore'⟩ := heffect
          have hstep := step_of_executeLine_ok hrunning hline hx
          have hstep' := step_of_executeLine_ok hrunning' hline' hx'
          rw [next, hstep, final] at hclosed ⊢
          rw [next, hstep', final] at hclosed' ⊢
          refine ⟨.ok _ _ _, h.lines, ?_, rfl, ?_, h.fault, hclosed,
            hclosed', hstore'⟩
          · rw [executed, executed, h.pc]
          · rw [executed, executed, h.steps]
      | error e =>
          cases e with
          | fault f =>
              have hstep := step_of_executeLine_fault hrunning hline hx
              have hstep' := step_of_executeLine_fault hrunning' hline' hx'
              rw [next, hstep, final, next, hstep', final]
              exact ⟨.ok _ _ _, h.lines, h.pc, rfl, h.steps, rfl,
                h.closed, h.closed', R, hstore⟩
          | limit e =>
              have hstep := step_of_executeLine_limit hrunning hline hx
              have hstep' := step_of_executeLine_limit hrunning' hline' hx'
              rw [next, hstep, final, next, hstep', final]
              exact ⟨.error _ _ _, h⟩
  · have hstopped : m'.status ≠ .running := by
      rw [h.status]
      exact hrunning
    rw [step_of_stopped hrunning, step_of_stopped hstopped, next_of_stopped hrunning,
      next_of_stopped hstopped, h.status]
    exact ⟨.ok _ _ _, h⟩

end Steps

section Runs

variable {T : String → Prop} {ρ : String → String} {m m' : Machine}

theorem Mirrors.iterate (h : m.Mirrors T ρ m') (hρ : TokenRenaming T ρ) (n : Nat) :
    (Machine.next^[n] m).Mirrors T ρ (Machine.next^[n] m') := by
  induction n with
  | zero => exact h
  | succ n ih =>
      rw [Function.iterate_succ_apply', Function.iterate_succ_apply']
      exact (ih.step hρ).2

/-- **Runs of mirrored machines have the same result.** -/
theorem Mirrors.runFor (h : m.Mirrors T ρ m') (hρ : TokenRenaming T ρ) (n : Nat) :
    SameResult (Machine.runFor n m) (Machine.runFor n m') := by
  induction n generalizing m m' with
  | zero =>
      have hsame := SameResult.ok m.status m m'
      rw [Machine.runFor, Machine.runFor, h.status]
      exact hsame
  | succ n ih =>
      obtain ⟨hresult, hnext⟩ := h.step hρ
      generalize hstep : m.step = x at hresult
      generalize hstep' : m'.step = x' at hresult
      cases hresult with
      | error e m₁ m₂ =>
          rw [runFor_succ_of_error n hstep, runFor_succ_of_error n hstep']
          exact .error e m₁ m₂
      | ok status m₁ m₂ =>
          rw [Machine.next, hstep, final, Machine.next, hstep', final] at hnext
          by_cases hrunning : status = .running
          · subst hrunning
            rw [runFor_succ_of_running n hstep, runFor_succ_of_running n hstep']
            exact ih hnext
          · rw [runFor_succ_of_stopped n hstep hrunning, runFor_succ_of_stopped n hstep' hrunning]
            exact .ok status m₁ m₂

/-- **What mirrored machines have in memory is isomorphic.** -/
theorem Mirrors.isomorphic (h : m.Mirrors T ρ m') :
    ∃ R, m.store.Isomorphic ρ R m'.store := by
  obtain ⟨R, hR⟩ := h.store
  exact ⟨_, hR.isomorphic⟩

theorem Mirrors.text_eq (h : m.Mirrors T ρ m') {name : String} (hname : name ∈ m.memory.names) :
    (m'.memory.get? (ρ name)).map m'.heap.text = (m.memory.get? name).map m.heap.text := by
  obtain ⟨R, hR⟩ := h.store
  exact hR.text_eq (hR.tokens name hname)

theorem Mirrors.names (h : m.Mirrors T ρ m') : m'.memory.names = m.memory.names.map ρ := by
  obtain ⟨R, hR⟩ := h.store
  exact hR.names

end Runs

end Machine
end LineMachine
