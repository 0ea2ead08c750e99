import LineMachine.CommandLine.Batch
import LineMachine.Proofs.CommandLine.Printed
import LineMachine.Proofs.Heap.Writing

/-!
# Tracing does not change execution

A run with messages steps as one without.  It tells that a step has executed an
instruction by the count of the machine, and then shows the line and the variables: a
block of messages for each instruction that is executed, the halting one included, and
none for a step that meets a fault or leaves the program.

**Input.**  A run that no error ends, on a machine whose variables never hold an integer
beyond the digit limit; otherwise the messages themselves may fail.

**Results.**
* `Shell.showMemory_eq_ok_iff`: when the variables can be shown, and how.
* `Machine.blocksText_of_blocks`: the text of the blocks.
* `Shell.traceFor_eq_ok_iff`: when a run with messages returns, and what it shows.
* `Batch.tracing_keeps_execution`: runs with and without messages end alike.
-/

namespace LineMachine

/-- The integer is held by one of the variables. -/
def Store.HoldsInteger (s : Store) (n : Int) : Prop :=
  ∃ name v, (name, v) ∈ s.memory.bindings ∧ s.heap.Holds v n

/-- The integers that the variables hold are within the digit limit. -/
def Store.Writable (s : Store) : Prop :=
  ∀ n, s.HoldsInteger n → Numeral.writable n = true

/-- The integers that are values of variables or items of lists have fewer digits than
the power of ten, whether a variable reaches the list or not. -/
def Store.allWithin (digits : Nat) (s : Store) : Bool :=
  (s.memory.bindings.map Prod.snd ++ s.heap.lists.toList.flatten).all fun
    | .int n => n.natAbs < Nat.pow 10 digits
    | .list _ => true

theorem Store.writable_of_allWithin {digits : Nat} {s : Store}
    (hdigits : digits ≤ Numeral.digitLimit) (h : s.allWithin digits = true) : s.Writable := by
  rw [allWithin, List.all_eq_true] at h
  intro n hn
  have hmem : .int n ∈ s.memory.bindings.map Prod.snd ++ s.heap.lists.toList.flatten := by
    obtain ⟨name, v, hv, rfl | ⟨r, _, hitem⟩⟩ := hn
    · exact List.mem_append_left _ (List.mem_map_of_mem (f := Prod.snd) hv)
    · have hr := Heap.lt_size_of_items_ne_nil (List.ne_nil_of_mem hitem)
      rw [Heap.items, Array.getElem?_eq_getElem hr, Option.getD_some] at hitem
      exact List.mem_append_right _
        (List.mem_flatten.mpr ⟨s.heap.lists[r], Array.getElem_mem_toList hr, hitem⟩)
  have hlt : n.natAbs < Nat.pow 10 digits := of_decide_eq_true (h _ hmem)
  have hpow : ∀ limit, digits ≤ limit → Nat.pow 10 digits ≤ Nat.pow 10 limit :=
    fun limit hle => Nat.pow_le_pow_right (by decide) hle
  exact (Numeral.writable_iff n).mpr (Nat.lt_of_lt_of_le hlt (hpow _ hdigits))

namespace Machine

/-- The message shows the variable with the text of its value. -/
def ShowsBinding (h : Heap) (binding : String × Value) (message : Message) : Prop :=
  ∃ text, h.text binding.2 = .ok text ∧ message = .binding binding.1 text

/-- The messages show the variables of the machine, in their order. -/
def Shows (m : Machine) (ms : List Message) : Prop :=
  ∃ bindings, List.Forall₂ (ShowsBinding m.heap) m.memory.bindings bindings ∧
    ms = .memoryHeading :: bindings ++ [.separator]

/-- What holds of the heading, of every variable and of the line below them holds of all
messages that show the variables. -/
theorem Shows.forall_mem {m : Machine} {ms : List Message} {P : Message → Prop}
    (h : m.Shows ms) (hheading : P .memoryHeading) (hbinding : ∀ name text, P (.binding name text))
    (hseparator : P .separator) : ∀ x, x ∈ ms → P x := by
  obtain ⟨bindings, hbindings, rfl⟩ := h
  have hall : ∀ x, x ∈ bindings → P x := by
    generalize m.memory.bindings = held at hbindings
    induction hbindings with
    | nil =>
        intro x hx
        cases hx
    | cons hb _ ih =>
        obtain ⟨text, _, rfl⟩ := hb
        exact List.forall_mem_cons.mpr ⟨hbinding _ _, ih⟩
  refine List.forall_mem_append.mpr ⟨List.forall_mem_cons.mpr ⟨hheading, hall⟩, fun x hx => ?_⟩
  obtain rfl := List.mem_singleton.mp hx
  exact hseparator

/-- The messages tell the line that the machine executes next, and show the variables
after it. -/
def Block (m : Machine) (ms : List Message) : Prop :=
  ∃ shown, m.next.Shows shown ∧ ms = .executed m.pc :: shown

/-- The blocks are those of the steps with the given numbers. -/
def Blocks (m : Machine) (ks : List Nat) (blocks : List (List Message)) : Prop :=
  List.Forall₂ (fun k block => (next^[k] m).Block block) ks blocks

/-- The blocks of a first step and those of the steps after it. -/
theorem blocks_succ_iff {m : Machine} {n : Nat} {blocks : List (List Message)} :
    m.Blocks (m.executing (n + 1)) blocks ↔
      ∃ head tail, m.Blocks (if m.executes then [0] else []) head ∧
        m.next.Blocks (m.next.executing n) tail ∧ blocks = head ++ tail := by
  rw [executing_succ]
  constructor
  · intro h
    cases hexec : m.executes with
    | false =>
        rw [hexec, if_neg Bool.false_ne_true, List.nil_append, Blocks,
          List.forall₂_map_left_iff] at h
        exact ⟨[], blocks, .nil, h, rfl⟩
    | true =>
        rw [hexec, if_pos rfl, List.singleton_append] at h
        rcases h with _ | @⟨_, block, _, tail, hblock, htail⟩
        rw [List.forall₂_map_left_iff] at htail
        exact ⟨[block], tail, .cons hblock .nil, htail, rfl⟩
  · rintro ⟨head, tail, hhead, htail, rfl⟩
    refine List.rel_append hhead ?_
    rw [List.forall₂_map_left_iff]
    exact htail

/-- The variables can be shown if they hold no integer beyond the limit. -/
theorem exists_shows {m : Machine} (hwritable : m.store.Writable) : ∃ ms, m.Shows ms := by
  have hall : ∀ bindings : List (String × Value), (∀ b, b ∈ bindings → b ∈ m.memory.bindings) →
      ∃ ms, List.Forall₂ (ShowsBinding m.heap) bindings ms := by
    intro bindings
    induction bindings with
    | nil => exact fun _ => ⟨[], .nil⟩
    | cons b bindings ih =>
        intro hmem
        obtain ⟨hb, hbindings⟩ := List.forall_mem_cons.mp hmem
        obtain ⟨text, htext⟩ := Heap.exists_text fun n hn => hwritable n ⟨b.1, b.2, hb, hn⟩
        obtain ⟨ms, hms⟩ := ih hbindings
        exact ⟨.binding b.1 text :: ms, .cons ⟨text, htext, rfl⟩ hms⟩
  obtain ⟨ms, hms⟩ := hall _ fun _ hb => hb
  exact ⟨_, ms, hms, rfl⟩

theorem exists_blocks {m : Machine} {ks : List Nat}
    (hwritable : ∀ k, k ∈ ks → (next^[k + 1] m).store.Writable) : ∃ blocks, m.Blocks ks blocks := by
  induction ks with
  | nil => exact ⟨[], .nil⟩
  | cons k ks ih =>
      obtain ⟨hk, hks⟩ := List.forall_mem_cons.mp hwritable
      rw [Function.iterate_succ_apply'] at hk
      obtain ⟨shown, hshown⟩ := exists_shows hk
      obtain ⟨blocks, hblocks⟩ := ih hks
      exact ⟨_ :: blocks, .cons ⟨shown, hshown, rfl⟩ hblocks⟩

section Texts

variable {m : Machine} {ms : List Message} {ks : List Nat} {blocks : List (List Message)}

theorem stream_of_shows (h : m.Shows ms) : ∀ x, x ∈ ms → x.stream = .output :=
  h.forall_mem rfl (fun _ _ => rfl) rfl

theorem stream_of_block (h : m.Block ms) : ∀ x, x ∈ ms → x.stream = .output := by
  obtain ⟨shown, hshown, rfl⟩ := h
  exact List.forall_mem_cons.mpr ⟨rfl, stream_of_shows hshown⟩

theorem stream_of_blocks (h : m.Blocks ks blocks) :
    ∀ x, x ∈ blocks.flatten → x.stream = .output := by
  induction h with
  | nil =>
      intro x hx
      cases hx
  | cons hblock _ ih =>
      rw [List.flatten_cons, List.forall_mem_append]
      exact ⟨stream_of_block hblock, ih⟩

/-- The messages for some variables have the texts of these variables. -/
theorem mapM_bindingText {h : Heap} {bindings : List (String × Value)}
    (hshown : List.Forall₂ (ShowsBinding h) bindings ms) :
    bindings.mapM (bindingText h) = .ok (ms.map Message.text) := by
  refine mapM_eq_ok_iff.mpr (List.forall₂_map_right_iff.mpr (hshown.imp ?_))
  rintro binding _ ⟨text, htext, rfl⟩
  rw [bindingText, htext]
  rfl

/-- The messages that show the variables have the text of the variables. -/
theorem memoryText_of_shows (h : m.Shows ms) :
    m.memoryText = .ok (Message.textOn .output ms) := by
  rw [Message.textOn_eq_join (stream_of_shows h)]
  obtain ⟨bindings, hbindings, rfl⟩ := h
  rw [memoryText, mapM_bindingText hbindings, List.map_append, List.map_cons, String.join_append,
    String.join_cons]
  rfl

/-- The messages of a block have the text of the block. -/
theorem blockText_of_block (h : m.Block ms) : m.blockText = .ok (Message.textOn .output ms) := by
  obtain ⟨shown, hshown, rfl⟩ := h
  have hline : (Message.executed m.pc).stream = .output := rfl
  rw [blockText, memoryText_of_shows hshown, Message.textOn_cons_of_stream hline]
  rfl

/-- **The messages of blocks have the text of the blocks.** -/
theorem blocksText_of_blocks (h : m.Blocks ks blocks) :
    m.blocksText ks = .ok (Message.textOn .output blocks.flatten) := by
  have hblocks : (ks.mapM fun k => (next^[k] m).blockText) =
      .ok (blocks.map (Message.textOn .output)) :=
    mapM_eq_ok_iff.mpr (List.forall₂_map_right_iff.mpr (h.imp fun _ _ => blockText_of_block))
  rw [blocksText, hblocks, Message.textOn_flatten]
  rfl

/-- Blocks put nothing on standard error. -/
theorem textOn_error_of_blocks (h : m.Blocks ks blocks) :
    Message.textOn .error blocks.flatten = "" :=
  Message.textOn_eq_empty fun x hx => by simp [stream_of_blocks h x hx]

end Texts

end Machine

namespace Shell

section Showing

variable {s s' : Session}

theorem say_eq_ok_iff {message : Message} :
    say message s = .ok () s' ↔ s' = s.print [message] := by
  rw [say_eq]
  constructor
  · intro h
    cases h
    rfl
  · rintro rfl
    rfl

theorem ofLimited_eq_ok_iff {α : Type} {x : Except Numeral.DigitLimit α} {a : α} :
    ofLimited x s = .ok a s' ↔ x = .ok a ∧ s' = s := by
  cases x with
  | ok b =>
      constructor
      · intro h
        cases h
        exact ⟨rfl, rfl⟩
      · rintro ⟨h, rfl⟩
        cases h
        rfl
  | error e =>
      constructor
      · intro h
        cases h
      · rintro ⟨h, _⟩
        cases h

/-- What is printed while the variables are shown one by one. -/
theorem forM_bindings_eq_ok_iff {h : Heap} {bindings : List (String × Value)} :
    (bindings.forM fun (name, v) => do say (.binding name (← ofLimited (h.text v)))) s =
        .ok () s' ↔
      ∃ ms, List.Forall₂ (Machine.ShowsBinding h) bindings ms ∧ s' = s.print ms := by
  induction bindings generalizing s with
  | nil =>
      constructor
      · intro hshown
        cases hshown
        exact ⟨[], .nil, (Session.print_nil _).symm⟩
      · rintro ⟨ms, hms, rfl⟩
        cases hms
        rw [Session.print_nil]
        rfl
  | cons b bindings ih =>
      rw [List.forM, bind_eq_ok_iff]
      constructor
      · rintro ⟨_, s₁, hfirst, hrest⟩
        obtain ⟨text, s₂, hvalue, hsay⟩ := bind_eq_ok_iff.mp hfirst
        obtain ⟨htext, rfl⟩ := ofLimited_eq_ok_iff.mp hvalue
        obtain rfl := say_eq_ok_iff.mp hsay
        obtain ⟨ms, hms, rfl⟩ := ih.mp hrest
        refine ⟨.binding b.1 text :: ms, .cons ⟨text, htext, rfl⟩ hms, ?_⟩
        rw [Session.print_print]
        rfl
      · rintro ⟨_, hms, rfl⟩
        rcases hms with _ | @⟨_, _, _, ms, ⟨text, htext, rfl⟩, hms⟩
        refine ⟨(), s.print [.binding b.1 text], ?_, ih.mpr ⟨ms, hms, ?_⟩⟩
        · exact bind_eq_ok_iff.mpr
            ⟨text, s, ofLimited_eq_ok_iff.mpr ⟨htext, rfl⟩, say_eq_ok_iff.mpr rfl⟩
        · rw [Session.print_print]
          rfl

theorem showMemory_eq_ok_iff {m : Machine} :
    showMemory m s = .ok () s' ↔ ∃ ms, m.Shows ms ∧ s' = s.print ms := by
  rw [showMemory, bind_eq_ok_iff]
  constructor
  · rintro ⟨_, s₁, hheading, hrest⟩
    obtain rfl := say_eq_ok_iff.mp hheading
    obtain ⟨_, s₂, hbindings, hseparator⟩ := bind_eq_ok_iff.mp hrest
    obtain ⟨ms, hms, rfl⟩ := forM_bindings_eq_ok_iff.mp hbindings
    obtain rfl := say_eq_ok_iff.mp hseparator
    refine ⟨_, ⟨ms, hms, rfl⟩, ?_⟩
    rw [Session.print_print, Session.print_print]
    rfl
  · rintro ⟨_, ⟨ms, hms, rfl⟩, rfl⟩
    refine ⟨(), s.print [.memoryHeading], say_eq_ok_iff.mpr rfl, bind_eq_ok_iff.mpr
      ⟨(), _, forM_bindings_eq_ok_iff.mpr ⟨ms, hms, rfl⟩, say_eq_ok_iff.mpr ?_⟩⟩
    rw [Session.print_print, Session.print_print]
    rfl

/-- The variables of a machine are shown if they hold no integer beyond the limit. -/
theorem exists_showMemory {m : Machine} (hwritable : m.store.Writable) :
    ∃ ms, m.Shows ms ∧ ∀ s, showMemory m s = .ok () (s.print ms) := by
  obtain ⟨ms, hms⟩ := Machine.exists_shows hwritable
  exact ⟨ms, hms, fun s => showMemory_eq_ok_iff.mpr ⟨ms, hms, rfl⟩⟩

end Showing

section Steps

variable {m m' : Machine} {s s' : Session}

/-- A step with messages shows a block if it executes an instruction, and nothing
otherwise. -/
theorem stepTraced_eq_ok_iff :
    stepTraced m s = .ok m' s' ↔
      (∃ status, m.step = .ok status m') ∧
        ∃ blocks, m.Blocks (if m.executes then [0] else []) blocks ∧
          s' = s.print blocks.flatten := by
  cases hstep : m.step with
  | error e m₁ =>
      rw [stepTraced, hstep]
      constructor
      · intro h
        cases h
      · rintro ⟨⟨_, h⟩, _⟩
        cases h
  | ok status m₁ =>
      have hnext : m.next = m₁ := by rw [Machine.next, hstep, Machine.final]
      have hsteps : m₁.steps = m.steps + m.executes.toNat := by rw [← hnext, Machine.steps_next]
      rw [stepTraced, hstep]
      dsimp only
      cases hexec : m.executes with
      | false =>
          rw [hexec] at hsteps
          rw [if_neg fun hne => hne hsteps]
          constructor
          · intro h
            cases h
            exact ⟨⟨status, rfl⟩, [], .nil, by rw [List.flatten_nil, Session.print_nil]⟩
          · rintro ⟨⟨_, h⟩, _, hblocks, rfl⟩
            cases h
            cases hblocks
            rw [List.flatten_nil, Session.print_nil]
            rfl
      | true =>
          have hne : m₁.steps ≠ m.steps := by
            rw [hsteps, hexec, Bool.toNat_true]
            omega
          rw [if_pos hne, if_pos rfl, bind_eq_ok_iff]
          constructor
          · rintro ⟨_, s₁, hline, hrest⟩
            obtain ⟨_, s₂, hmemory, h⟩ := bind_eq_ok_iff.mp hrest
            obtain rfl := say_eq_ok_iff.mp hline
            obtain ⟨shown, hshows, rfl⟩ := showMemory_eq_ok_iff.mp hmemory
            cases h
            refine ⟨⟨status, rfl⟩, [.executed m.pc :: shown],
              .cons ⟨shown, hnext.symm ▸ hshows, rfl⟩ .nil, ?_⟩
            rw [Session.print_print]
            simp only [List.flatten_cons, List.flatten_nil, List.append_nil]
            rfl
          · rintro ⟨⟨_, h⟩, _, hblocks, rfl⟩
            cases h
            rcases hblocks with _ | @⟨_, _, _, _, ⟨shown, hshows, rfl⟩, hnil⟩
            cases hnil
            refine ⟨(), _, say_eq_ok_iff.mpr rfl, bind_eq_ok_iff.mpr
              ⟨(), _, showMemory_eq_ok_iff.mpr ⟨shown, hnext ▸ hshows, rfl⟩, ?_⟩⟩
            rw [Session.print_print]
            simp only [List.flatten_cons, List.flatten_nil, List.append_nil]
            rfl

/-- **A run with messages returns exactly if the run without does** and the variables can
be shown, and shows a block for each step that executes an instruction. -/
theorem traceFor_eq_ok_iff {n : Nat} :
    traceFor n m s = .ok m' s' ↔
      (∃ status, Machine.runFor n m = .ok status m') ∧
        ∃ blocks, m.Blocks (m.executing n) blocks ∧ s' = s.print blocks.flatten := by
  induction n generalizing m s with
  | zero =>
      constructor
      · intro h
        cases h
        exact ⟨⟨_, rfl⟩, [], .nil, by rw [List.flatten_nil, Session.print_nil]⟩
      · rintro ⟨⟨_, h⟩, _, hblocks, rfl⟩
        cases h
        cases hblocks
        rw [List.flatten_nil, Session.print_nil]
        rfl
  | succ n ih =>
      rw [traceFor, bind_eq_ok_iff]
      constructor
      · rintro ⟨m₁, s₁, hfirst, hrest⟩
        obtain ⟨⟨status, hstep⟩, head, hhead, rfl⟩ := stepTraced_eq_ok_iff.mp hfirst
        have hnext : m.next = m₁ := by rw [Machine.next, hstep, Machine.final]
        have hstatus := Machine.status_step hstep
        by_cases hrunning : m₁.status = .running
        · rw [if_pos hrunning] at hrest
          obtain ⟨⟨status', hrun⟩, tail, htail, rfl⟩ := ih.mp hrest
          rw [← hstatus, hrunning] at hstep
          refine ⟨⟨status', (Machine.runFor_succ_of_running n hstep).trans hrun⟩, head ++ tail,
            Machine.blocks_succ_iff.mpr ⟨head, tail, hhead, hnext.symm ▸ htail, rfl⟩, ?_⟩
          rw [Session.print_print, List.flatten_append]
        · -- the machine has stopped, and no later step executes an instruction
          rw [if_neg hrunning] at hrest
          cases hrest
          rw [← hstatus] at hstep
          refine ⟨⟨_, Machine.runFor_succ_of_stopped n hstep hrunning⟩, head,
            Machine.blocks_succ_iff.mpr ⟨head, [], hhead, ?_, (List.append_nil _).symm⟩, rfl⟩
          rw [hnext, Machine.executing_of_stopped hrunning]
          exact .nil
      · rintro ⟨⟨status, hrun⟩, blocks, hblocks, rfl⟩
        obtain ⟨head, tail, hhead, htail, rfl⟩ := Machine.blocks_succ_iff.mp hblocks
        cases hstep : m.step with
        | error e m₁ =>
            rw [Machine.runFor_succ_of_error n hstep] at hrun
            cases hrun
        | ok status₁ m₁ =>
            have hnext : m.next = m₁ := by rw [Machine.next, hstep, Machine.final]
            have hstatus := Machine.status_step hstep
            refine ⟨m₁, _, stepTraced_eq_ok_iff.mpr ⟨⟨_, hstep⟩, head, hhead, rfl⟩, ?_⟩
            rw [hnext] at htail
            by_cases hrunning : m₁.status = .running
            · rw [← hstatus, hrunning] at hstep
              rw [Machine.runFor_succ_of_running n hstep] at hrun
              rw [if_pos hrunning]
              refine ih.mpr ⟨⟨status, hrun⟩, tail, htail, ?_⟩
              rw [Session.print_print, List.flatten_append]
            · rw [← hstatus] at hstep
              rw [Machine.runFor_succ_of_stopped n hstep hrunning] at hrun
              cases hrun
              rw [Machine.executing_of_stopped hrunning] at htail
              cases htail
              rw [if_neg hrunning, List.append_nil]
              rfl

/-- **A run with messages ends like one without**, and shows a block for each step that
executes an instruction. -/
theorem exists_traceFor {n : Nat} {status : Status} (hrun : Machine.runFor n m = .ok status m')
    (hwritable : ∀ k, k ≤ n → (Machine.next^[k] m).store.Writable) :
    ∃ blocks, m.Blocks (m.executing n) blocks ∧
      ∀ s, traceFor n m s = .ok m' (s.print blocks.flatten) := by
  have hshown : ∀ k, k ∈ m.executing n → (Machine.next^[k + 1] m).store.Writable := by
    intro k hk
    exact hwritable (k + 1) (List.mem_range.mp (List.mem_filter.mp hk).1)
  obtain ⟨blocks, hblocks⟩ := Machine.exists_blocks hshown
  exact ⟨blocks, hblocks, fun s => traceFor_eq_ok_iff.mpr ⟨⟨status, hrun⟩, blocks, hblocks, rfl⟩⟩

end Steps

end Shell

namespace Batch

section Runs

variable {m m' : Machine} {status : Status} {patience : Nat} {budget : Option Int}

theorem run_eq_report_of_traced {file : String} {s s' : Session}
    (hread : Shell.readProgram file s = .ok m s)
    (htraced : Shell.runTraced patience budget m s = .ok m' s') :
    run patience file budget true s = Shell.report file budget m' s' := by
  have hbefore : run patience file budget true s = _ := Shell.bind_of_ok hread
  rw [hbefore, if_pos rfl, Shell.bind_of_ok htraced]
  dsimp only
  rw [if_neg fun h => Bool.false_ne_true h.2.symm]

/-- Between its end and its report, a quiet run tells on standard output how it has ended,
and prints nothing on standard error. -/
theorem exists_run_eq_report_of_quiet (hwritable : m'.store.Writable) (patience : Nat)
    (file : String) (budget : Option Int) :
    ∃ told, m'.endText = .ok (Message.textOn .output told) ∧ Message.textOn .error told = "" ∧
      ∀ m s, Shell.readProgram file s = .ok m s →
        Shell.runQuietly patience budget m s = .ok m' s →
        run patience file budget false s = Shell.report file budget m' (s.print told) := by
  have hbefore : ∀ m s, Shell.readProgram file s = .ok m s →
      Shell.runQuietly patience budget m s = .ok m' s →
      run patience file budget false s =
        (if m'.status = .halted ∧ false = false then do
          Shell.say (.haltedAt m'.pc m'.steps)
          Shell.showMemory m'
          Shell.report file budget m'
        else Shell.report file budget m' : Shell Nat) s := by
    intro m s hread hquiet
    have hstart : run patience file budget false s = _ := Shell.bind_of_ok hread
    rw [hstart, if_neg Bool.false_ne_true, Shell.bind_of_ok hquiet]
  by_cases hhalted : m'.status = .halted
  · obtain ⟨shown, hshown, hprint⟩ := Shell.exists_showMemory hwritable
    refine ⟨.haltedAt m'.pc m'.steps :: shown, ?_, ?_, fun m s hread hquiet => ?_⟩
    · have hhead : (Message.haltedAt m'.pc m'.steps).stream = .output := rfl
      rw [Machine.endText, if_pos hhalted, Machine.memoryText_of_shows hshown,
        Message.textOn_cons_of_stream hhead]
      rfl
    · refine Message.textOn_eq_empty (List.forall_mem_cons.mpr ⟨by simp [Message.stream], ?_⟩)
      intro x hx
      simp [Machine.stream_of_shows hshown x hx]
    · rw [hbefore m s hread hquiet, if_pos ⟨hhalted, rfl⟩, Shell.bind_of_ok (Shell.say_eq _ s),
        Shell.bind_of_ok (hprint _), Session.print_print]
      rfl
  · refine ⟨[], ?_, rfl, fun m s hread hquiet => ?_⟩
    · rw [Machine.endText, if_neg hhalted]
      rfl
    · rw [hbefore m s hread hquiet, if_neg fun h => hhalted h.1, Session.print_nil]

/-- **Runs with and without messages end alike.**  The one with messages prints the line and
the variables for each instruction that is executed; the one without tells how it has ended.
What the two write on standard error, and the exit status, are the same. -/
theorem tracing_keeps_execution
    (hrun : Machine.run patience budget m = .ok status m')
    (hwritable : ∀ k, k ≤ Machine.stepsAllowed patience budget →
      (Machine.next^[k] m).store.Writable) :
    (∃ blocks, m.Blocks (m.executing (Machine.stepsAllowed patience budget)) blocks ∧
      m'.steps = m.steps + blocks.length ∧
      m.blocksText (m.executing (Machine.stepsAllowed patience budget)) =
        .ok (Message.textOn .output blocks.flatten) ∧
      Message.textOn .error blocks.flatten = "" ∧
      ∀ s, Shell.runTraced patience budget m s = .ok m' (s.print blocks.flatten)) ∧
    (∀ s, Shell.runQuietly patience budget m s = .ok m' s) ∧
    ∀ file s, Shell.readProgram file s = .ok m s →
      (status = .running → ∃ n, budget = some n ∧ Numeral.writable n = true) →
      ∃ quiet traced,
        run patience file budget false s = .ok (Shell.exitStatus m') (s.print quiet) ∧
        run patience file budget true s = .ok (Shell.exitStatus m') (s.print traced) ∧
        m'.endText = .ok (Message.textOn .output quiet) ∧
        m.blocksText (m.executing (Machine.stepsAllowed patience budget)) =
          .ok (Message.textOn .output traced) ∧
        Message.textOn .error quiet = m'.reportText file budget ∧
        Message.textOn .error quiet = Message.textOn .error traced ∧
        (Shell.exitStatus m' = 0 ↔ m'.status = .halted) := by
  have hend : m' = Machine.next^[Machine.stepsAllowed patience budget] m := by
    rw [← Machine.final_runFor]
    exact (congrArg Machine.final hrun).symm
  have hlast : m'.store.Writable := by
    rw [hend]
    exact hwritable _ (Nat.le_refl _)
  obtain ⟨blocks, hblocks, htraced⟩ := Shell.exists_traceFor hrun hwritable
  have hprinted := Machine.blocksText_of_blocks hblocks
  have hsilent := Machine.textOn_error_of_blocks hblocks
  have hquietly : ∀ s, Shell.runQuietly patience budget m s = .ok m' s := by
    intro s
    rw [Shell.runQuietly, hrun]
    rfl
  have hsteps : m'.steps = m.steps + blocks.length := by
    rw [hend, Machine.steps_iterate, hblocks.length_eq]
  refine ⟨⟨blocks, hblocks, hsteps, hprinted, hsilent, htraced⟩, hquietly,
    fun file s hread hbudget => ?_⟩
  obtain ⟨told, htold, hmuted, hquiet⟩ :=
    exists_run_eq_report_of_quiet hlast patience file budget
  obtain ⟨reported, houtput, herror, hreport⟩ := @Shell.exists_report m' budget file fun h =>
    hbudget ((Machine.status_runFor hrun).symm.trans h)
  refine ⟨told ++ reported, blocks.flatten ++ reported, ?_, ?_, ?_, ?_, ?_, ?_, ?_⟩
  · rw [hquiet m s hread (hquietly s), hreport, Session.print_print]
  · rw [run_eq_report_of_traced hread (htraced s), hreport, Session.print_print]
  · rw [Message.textOn_append, houtput, String.append_empty, htold]
  · rw [Message.textOn_append, houtput, String.append_empty, hprinted]
  · rw [Message.textOn_append, hmuted, String.empty_append, herror]
  · rw [Message.textOn_append, Message.textOn_append, hmuted, hsilent]
  · unfold Shell.exitStatus
    by_cases h : m'.status = .halted <;> simp [h]

end Runs

/-- A session with a program that puts an integer in a list and halts. -/
def listThenHalt : Session :=
  .ofFile "VARINT x 7\nVARLIST l x\nHLT\n"

theorem tracing_keeps_execution_listThenHalt :
    ∃ quiet traced,
      run 0 "p" (some 3) false listThenHalt = .ok 0 (listThenHalt.print quiet) ∧
      run 0 "p" (some 3) true listThenHalt = .ok 0 (listThenHalt.print traced) ∧
      Message.textOn .output quiet = "Halted at line 2 after 3 steps\n" ++
        "Current memory:\nx = 7\nl = [7]\n+++++++++++++++++++++++++++++++++++++++++\n" ∧
      Message.textOn .output traced =
        "Execute line: 0\nCurrent memory:\nx = 7\n" ++
        "+++++++++++++++++++++++++++++++++++++++++\n" ++
        "Execute line: 1\nCurrent memory:\nx = 7\nl = [7]\n" ++
        "+++++++++++++++++++++++++++++++++++++++++\n" ++
        "Execute line: 2\nCurrent memory:\nx = 7\nl = [7]\n" ++
        "+++++++++++++++++++++++++++++++++++++++++\n" ∧
      Message.textOn .error quiet = "" ∧
      Message.textOn .error quiet = Message.textOn .error traced := by
  have hread : Shell.readProgram "p" listThenHalt =
      .ok (.ofProgram #["VARINT x 7", "VARLIST l x", "HLT"]) listThenHalt := by
    have hlines : Text.programLines "VARINT x 7\nVARLIST l x\nHLT\n" =
        ["VARINT x 7", "VARLIST l x", "HLT"] := by
      decide +kernel
    refine Shell.readProgram_of_readLines ?_
    rw [← hlines]
    exact Shell.readLines_ofFile _
  have hhalted : (Machine.final (Machine.runFor (Machine.stepsAllowed 0 (some 3))
      (.ofProgram #["VARINT x 7", "VARLIST l x", "HLT"]))).status = .halted := by
    decide +kernel
  have hrun := Machine.runFor_eq_ok_of_stopped hhalted (by decide)
  have hwritable : ∀ k, k ≤ Machine.stepsAllowed 0 (some 3) →
      (Machine.next^[k] (.ofProgram #["VARINT x 7", "VARLIST l x", "HLT"])).store.Writable := by
    have hwithin : ∀ k, k ≤ 3 →
        (Machine.final (Machine.runFor k
          (.ofProgram #["VARINT x 7", "VARLIST l x", "HLT"]))).store.allWithin 1 = true := by
      decide +kernel
    intro k hk
    rw [← Machine.final_runFor]
    exact Store.writable_of_allWithin (by decide) (hwithin k hk)
  obtain ⟨_, _, hbatch⟩ := tracing_keeps_execution hrun hwritable
  obtain ⟨quiet, traced, hquiet, htraced, hend, hblocks, herror, hsame, hstatus⟩ :=
    hbatch "p" listThenHalt hread fun h => by cases h
  rw [hstatus.mpr hhalted] at hquiet htraced
  refine ⟨quiet, traced, hquiet, htraced, ?_, ?_, ?_, hsame⟩
  · exact (Except.ok.inj (Eq.trans (by decide +kernel) hend)).symm
  · exact (Except.ok.inj (Eq.trans (by decide +kernel) hblocks)).symm
  · rw [herror, Machine.reportText_of_halted hhalted]

end Batch
end LineMachine
