import LineMachine.CommandLine.Prompt
import LineMachine.Proofs.CommandLine.Tracing
import LineMachine.Proofs.Machine.Safety

/-!
# A session steps through a program

Each line that is a command is some steps of the machine: one, or as many as the budget
allows.  The session shows a block for each instruction that is executed, and reports how
the machine stands after a run, and after a step that the machine does not go on from.
Lines that are no command are rejected, and change nothing else.

**Input.**  The lines of a session that returns: no error escapes from a step or from
the messages.

**Invariant.**  The machine is one that the calls so far lead to from a new machine, so
that it has a fault to report if it has met one.

**Results.**
* `Prompt.converse_eq_ok_iff`: a session is a dialogue, and every dialogue is a session.
* `Prompt.Dialogue.machine_eq`: the machine is the one that the commands lead to.
* `Prompt.Dialogue.filter`, `Prompt.Dialogue.exists_of_filter`: lines that are no command
  may be left out and put in.
* `Prompt.Dialogue.outputText_eq`, `Prompt.Dialogue.errorText_eq`: the text that a session
  prints on the two streams.
* `Prompt.sessions_step_faithfully`: what a session does and what it prints.
-/

namespace LineMachine

/-- Whether a message tells that an instruction has been executed. -/
def Message.isExecuted : Message → Bool
  | .executed _ => true
  | _ => false

namespace Prompt

/-- Whether a line is a command. -/
def isCommand (line : String) : Bool :=
  (Command.ofLine? line).isSome

/-- The commands before the first that ends the session. -/
def commands (lines : List String) : List Command :=
  (lines.filterMap Command.ofLine?).takeWhile (· ≠ .quit)

/-- What a session prints for a line: a rejection; or the blocks of the instructions that
are executed, and a report. -/
inductive Reply where
  | rejection
  | answer (blocks : List (List Message)) (report : Option Message)
deriving DecidableEq

def Reply.messages : Reply → List Message
  | rejection => [.invalidCommand]
  | answer blocks report => blocks.flatten ++ report.toList

def Reply.isAnswer : Reply → Bool
  | rejection => false
  | answer _ _ => true

/-- What a session prints: a prompt before each reply, and one for the end. -/
def transcript (replies : List Reply) : List Message :=
  replies.flatMap (fun reply => .prompt :: reply.messages) ++ [.prompt]

/-- The message tells how the machine stands. -/
inductive Verdict (file : String) (budget : Option Int) (m : Machine) : Message → Prop
  | fault {f : Fault} {line : String} (hstatus : m.status = .faulted)
      (hfault : m.fault = some f) (hline : m.line? = some line) :
      Verdict file budget m (.fault file ⟨m.pc, f, line⟩)
  | noHalt {n : Int} {text : String} (hstatus : m.status = .running)
      (hbudget : budget = some n) (htext : Numeral.text n = .ok text) :
      Verdict file budget m (.noHalt file text)
  | halted (hstatus : m.status = .halted) : Verdict file budget m .programHalted

section Dialogues

variable (patience : Nat) (file : String) (budget : Option Int)

/-- The call that a command makes to the machine. -/
def Command.call? : Command → Option Machine.Call
  | one => some .step
  | all => some (.run patience budget)
  | quit => none

/-- The calls that the lines make to the machine. -/
def calls (lines : List String) : List Machine.Call :=
  (commands lines).filterMap (Command.call? patience budget)

/-- How many steps a command lets the machine make. -/
def Command.steps : Command → Nat
  | one => 1
  | all => Machine.stepsAllowed patience budget
  | quit => 0

/-- After a run, and after a step that the machine does not go on from, there is a report
of how it stands; and after no other. -/
def Reports (c : Command) (m : Machine) (report : Option Message) : Prop :=
  if c = .all ∨ m.status ≠ .running then ∃ v, report = some v ∧ Verdict file budget m v
  else report = none

/-- What a command does to the machine, and what is printed for it. -/
inductive Performs (c : Command) (m m' : Machine) : Reply → Prop
  | intro {status : Status} {blocks : List (List Message)} {report : Option Message}
      (hrun : Machine.runFor (c.steps patience budget) m = .ok status m')
      (hblocks : m.Blocks (m.executing (c.steps patience budget)) blocks)
      (hreport : Reports file budget c m' report) : Performs c m m' (.answer blocks report)

/-- What a line does to the machine, and what is printed for it. -/
inductive Turn (m : Machine) (line : String) : Machine → Reply → Prop
  | rejected (hline : Command.ofLine? line = none) : Turn m line m .rejection
  | performed {c : Command} {m' : Machine} {reply : Reply}
      (hline : Command.ofLine? line = some c) (hc : c ≠ .quit)
      (hperform : Performs patience file budget c m m' reply) : Turn m line m' reply

/-- What the lines of a session do to the machine, and what is printed for each. -/
inductive Dialogue : Machine → List String → Machine → List Reply → Prop
  | ended (m : Machine) : Dialogue m [] m []
  | quit {m : Machine} {line : String} {lines : List String}
      (hline : Command.ofLine? line = some .quit) : Dialogue m (line :: lines) m []
  | turn {m m₁ m' : Machine} {line : String} {lines : List String} {reply : Reply}
      {replies : List Reply} (hturn : Turn patience file budget m line m₁ reply)
      (hrest : Dialogue m₁ lines m' replies) : Dialogue m (line :: lines) m' (reply :: replies)

/-- What a command prints on standard output: the lines that are executed, and at the end
that the program has halted. -/
def Command.outputText (c : Command) (m : Machine) : Except Numeral.DigitLimit String :=
  (m.blocksText (m.executing (c.steps patience budget))).map fun blocks =>
    blocks ++
      if (Machine.next^[c.steps patience budget] m).status = .halted then "Program halted.\n"
      else ""

/-- What a command prints on standard error: a report after a run, and after a step that the
machine does not go on from. -/
def Command.errorText (c : Command) (m : Machine) : String :=
  if c = .all ∨ (Machine.next^[c.steps patience budget] m).status ≠ .running then
    (Machine.next^[c.steps patience budget] m).reportText file budget
  else ""

/-- What a session prints on standard output. -/
def outputText : Machine → List String → Except Numeral.DigitLimit String
  | _, [] => .ok "Enter command (o/a/q): "
  | m, line :: lines =>
    match Command.ofLine? line with
    | none =>
      (outputText m lines).map fun rest =>
        "Enter command (o/a/q): Invalid command. Please enter 'o', 'a', or 'q'.\n" ++ rest
    | some .quit => .ok "Enter command (o/a/q): "
    | some c => do
      let shown ← c.outputText patience budget m
      let rest ← outputText (Machine.next^[c.steps patience budget] m) lines
      return "Enter command (o/a/q): " ++ shown ++ rest

/-- What a session prints on standard error. -/
def errorText : Machine → List String → String
  | _, [] => ""
  | m, line :: lines =>
    match Command.ofLine? line with
    | none => errorText m lines
    | some .quit => ""
    | some c =>
      c.errorText patience file budget m ++
        errorText (Machine.next^[c.steps patience budget] m) lines

end Dialogues

variable {patience : Nat} {file : String} {budget : Option Int}

section Turns

variable {m m' : Machine} {s s' : Session} {line : String}

theorem Verdict.stream_eq {v : Message} (hv : Verdict file budget m v) :
    v.stream = .output ↔ m.status = .halted := by
  cases hv with
  | fault hstatus _ _ => simp [hstatus, Message.stream]
  | noHalt hstatus _ _ => simp [hstatus, Message.stream]
  | halted hstatus => simp [hstatus, Message.stream]

/-- A session reports a machine by its verdict. -/
theorem conclude_of_verdict {v : Message} (hv : Verdict file budget m v) :
    conclude file budget m s = .ok () (s.print [v]) := by
  cases hv with
  | @fault f line hstatus hfault hline =>
      have hreport := Machine.faultReport?_eq_some hfault hline
      rw [conclude, Shell.bind_of_ok (Shell.report_of_fault hstatus hreport file budget s)]
      rfl
  | @noHalt n text hstatus hbudget htext =>
      subst hbudget
      rw [conclude, Shell.bind_of_ok (Shell.report_of_running hstatus htext file s)]
      rfl
  | halted hstatus =>
      rw [conclude, Shell.bind_of_ok (Shell.report_of_halted hstatus file budget s)]
      exact Shell.say_eq _ s

theorem conclude_eq_ok_iff (hm : Machine.Reachable m) :
    conclude file budget m s = .ok () s' ↔
      ∃ v, Verdict file budget m v ∧ s' = s.print [v] := by
  constructor
  · intro h
    have hverdict : ∃ v, Verdict file budget m v := by
      cases hstatus : m.status with
      | halted => exact ⟨_, .halted hstatus⟩
      | faulted =>
          obtain ⟨f, line, _, hfault, hline, _⟩ := Machine.fault_of_reachable hm hstatus
          exact ⟨_, .fault hstatus hfault hline⟩
      | running =>
          obtain ⟨_, s₁, hreport, _⟩ := Shell.bind_eq_ok_iff.mp h
          rw [Shell.report, hstatus] at hreport
          cases budget with
          | none => cases hreport
          | some n =>
              obtain ⟨text, s₂, htext, _⟩ := Shell.bind_eq_ok_iff.mp hreport
              exact ⟨_, .noHalt hstatus rfl (Shell.ofLimited_eq_ok_iff.mp htext).1⟩
    obtain ⟨v, hv⟩ := hverdict
    rw [conclude_of_verdict hv] at h
    cases h
    exact ⟨v, hv, rfl⟩
  · rintro ⟨v, hv, rfl⟩
    exact conclude_of_verdict hv

theorem traceFor_one (m : Machine) : Shell.traceFor 1 m = Shell.stepTraced m := by
  funext s
  rw [Shell.traceFor]
  cases hstep : Shell.stepTraced m s with
  | error e s₁ => rw [Shell.bind_of_error hstep]
  | ok m₁ s₁ =>
      rw [Shell.bind_of_ok hstep]
      split <;> rfl

/-- Reports how the machine stands after a command, if there is to be a report. -/
def concludeAfter (file : String) (budget : Option Int) (c : Command) (m : Machine) :
    Shell Unit :=
  if c = .all ∨ m.status ≠ .running then conclude file budget m else pure ()

/-- A step or a run, and the report after it. -/
def perform (patience : Nat) (file : String) (budget : Option Int) (c : Command)
    (m : Machine) : Shell Machine := do
  let m ← Shell.traceFor (c.steps patience budget) m
  concludeAfter file budget c m
  return m

theorem stepOnce_eq_perform : stepOnce file budget m = perform patience file budget .one m := by
  rw [perform, Command.steps, traceFor_one]
  funext s
  cases hstep : Shell.stepTraced m s with
  | error e s₁ => rw [stepOnce, Shell.bind_of_error hstep, Shell.bind_of_error hstep]
  | ok m₁ s₁ =>
      rw [stepOnce, Shell.bind_of_ok hstep, Shell.bind_of_ok hstep, concludeAfter]
      by_cases hstatus : m₁.status ≠ .running
      · rw [if_pos hstatus, if_pos (Or.inr hstatus)]
      · rw [if_neg hstatus, if_neg (by simpa using hstatus)]
        rfl

theorem runAll_eq_perform :
    runAll patience file budget m = perform patience file budget .all m := by
  rw [perform, Command.steps]
  rfl

theorem concludeAfter_eq_ok_iff (hm : Machine.Reachable m) {c : Command} :
    concludeAfter file budget c m s = .ok () s' ↔
      ∃ report, Reports file budget c m report ∧ s' = s.print report.toList := by
  unfold concludeAfter Reports
  split
  · rw [conclude_eq_ok_iff hm]
    constructor
    · rintro ⟨v, hv, rfl⟩
      exact ⟨some v, ⟨v, rfl, hv⟩, rfl⟩
    · rintro ⟨_, ⟨v, rfl, hv⟩, rfl⟩
      exact ⟨v, hv, rfl⟩
  · constructor
    · intro h
      cases h
      exact ⟨none, rfl, (Session.print_nil s).symm⟩
    · rintro ⟨_, rfl, rfl⟩
      rw [Option.toList_none, Session.print_nil]
      rfl

theorem reachable_of_runFor (hm : Machine.Reachable m) {n : Nat} {status : Status}
    (hrun : Machine.runFor n m = .ok status m') : Machine.Reachable m' := by
  rw [Machine.eq_iterate_of_runFor hrun]
  exact hm.iterate n

theorem perform_eq_ok_iff (hm : Machine.Reachable m) {c : Command} :
    perform patience file budget c m s = .ok m' s' ↔
      ∃ reply, Performs patience file budget c m m' reply ∧ s' = s.print reply.messages := by
  rw [perform, Shell.bind_eq_ok_iff]
  constructor
  · rintro ⟨m₁, s₁, htrace, hrest⟩
    obtain ⟨⟨status, hrun⟩, blocks, hblocks, rfl⟩ := Shell.traceFor_eq_ok_iff.mp htrace
    obtain ⟨_, s₂, hconclude, hreturn⟩ := Shell.bind_eq_ok_iff.mp hrest
    obtain ⟨report, hreport, rfl⟩ :=
      (concludeAfter_eq_ok_iff (reachable_of_runFor hm hrun)).mp hconclude
    cases hreturn
    exact ⟨_, .intro hrun hblocks hreport, Session.print_print _ _ _⟩
  · rintro ⟨_, ⟨hrun, hblocks, hreport⟩, rfl⟩
    refine ⟨m', _, Shell.traceFor_eq_ok_iff.mpr ⟨⟨_, hrun⟩, _, hblocks, rfl⟩,
      Shell.bind_eq_ok_iff.mpr ⟨(), _, (concludeAfter_eq_ok_iff (reachable_of_runFor hm hrun)).mpr
        ⟨_, hreport, rfl⟩, ?_⟩⟩
    rw [Session.print_print]
    rfl

theorem answer_of_none (hline : Command.ofLine? line = none) :
    answer patience file budget m line s = .ok (some m) (s.print [.invalidCommand]) := by
  rw [answer, hline]
  exact Shell.bind_of_ok (Shell.say_eq _ s)

theorem answer_of_quit (hline : Command.ofLine? line = some .quit) :
    answer patience file budget m line = pure none := by
  rw [answer, hline]

theorem answer_of_command {c : Command} (hline : Command.ofLine? line = some c)
    (hc : c ≠ .quit) :
    answer patience file budget m line =
      perform patience file budget c m >>= fun m₁ => pure (some m₁) := by
  rw [answer, hline]
  cases c with
  | one => rw [← stepOnce_eq_perform]
  | all => rw [← runAll_eq_perform]
  | quit => exact absurd rfl hc

/-- A line ends the session, or it is a turn. -/
theorem answer_eq_ok_iff (hm : Machine.Reachable m) {next : Option Machine} :
    answer patience file budget m line s = .ok next s' ↔
      (Command.ofLine? line = some .quit ∧ next = none ∧ s' = s) ∨
        ∃ m₁ reply, next = some m₁ ∧ Turn patience file budget m line m₁ reply ∧
          s' = s.print reply.messages := by
  constructor
  · intro h
    cases hline : Command.ofLine? line with
    | none =>
        rw [answer_of_none hline] at h
        cases h
        exact Or.inr ⟨m, _, rfl, .rejected hline, rfl⟩
    | some c =>
        by_cases hc : c = .quit
        · subst hc
          rw [answer_of_quit hline] at h
          cases h
          exact Or.inl ⟨rfl, rfl, rfl⟩
        · rw [answer_of_command hline hc] at h
          obtain ⟨m₁, s₁, hperform, hreturn⟩ := Shell.bind_eq_ok_iff.mp h
          obtain ⟨reply, hreply, rfl⟩ := (perform_eq_ok_iff hm).mp hperform
          cases hreturn
          exact Or.inr ⟨m₁, reply, rfl, .performed hline hc hreply, rfl⟩
  · rintro (⟨hline, rfl, rfl⟩ | ⟨m₁, reply, rfl, hturn, rfl⟩)
    · rw [answer_of_quit hline]
      rfl
    · cases hturn with
      | rejected hline => exact answer_of_none hline
      | performed hline hc hreply =>
          rw [answer_of_command hline hc]
          exact Shell.bind_of_ok ((perform_eq_ok_iff hm).mpr ⟨reply, hreply, rfl⟩)

end Turns

section Sessions

variable {m m' : Machine} {s s' : Session} {lines : List String} {replies : List Reply}

theorem Turn.reachable (hm : Machine.Reachable m) {line : String} {reply : Reply}
    (h : Turn patience file budget m line m' reply) : Machine.Reachable m' := by
  cases h with
  | rejected _ => exact hm
  | performed _ _ hperform =>
      cases hperform with
      | intro hrun _ _ => exact reachable_of_runFor hm hrun

theorem transcript_cons (reply : Reply) (replies : List Reply) :
    transcript (reply :: replies) = .prompt :: reply.messages ++ transcript replies := by
  rw [transcript, List.flatMap_cons, List.append_assoc, transcript]

theorem textOn_output_transcript_cons (reply : Reply) (replies : List Reply) :
    Message.textOn .output (transcript (reply :: replies)) =
      "Enter command (o/a/q): " ++ Message.textOn .output reply.messages ++
        Message.textOn .output (transcript replies) := by
  have hprompt : Message.prompt.stream = .output := rfl
  rw [transcript_cons, Message.textOn_append, Message.textOn_cons_of_stream hprompt]
  rfl

theorem textOn_error_transcript_cons (reply : Reply) (replies : List Reply) :
    Message.textOn .error (transcript (reply :: replies)) =
      Message.textOn .error reply.messages ++ Message.textOn .error (transcript replies) := by
  have hprompt : Message.prompt.stream ≠ .error := by decide
  rw [transcript_cons, Message.textOn_append, Message.textOn_cons_of_ne hprompt]

/-- **A session is a dialogue, and every dialogue is a session.** -/
theorem converse_eq_ok_iff (hm : Machine.Reachable m) :
    converse patience file budget m lines s = .ok m' s' ↔
      ∃ replies, Dialogue patience file budget m lines m' replies ∧
        s' = s.print (transcript replies) := by
  -- on the lines: whatever a turn does, the machine can still be reported after it
  induction lines generalizing m s with
  | nil =>
      rw [converse, Shell.bind_of_ok (Shell.say_eq _ s)]
      constructor
      · intro h
        cases h
        exact ⟨[], .ended _, rfl⟩
      · rintro ⟨replies, hdialogue, rfl⟩
        cases hdialogue
        rfl
  | cons line lines ih =>
      rw [converse, Shell.bind_of_ok (Shell.say_eq _ s), Shell.bind_eq_ok_iff]
      constructor
      · rintro ⟨next, s₁, hanswer, hrest⟩
        rcases (answer_eq_ok_iff hm).mp hanswer with
          ⟨hquit, rfl, rfl⟩ | ⟨m₁, reply, rfl, hturn, rfl⟩
        · cases hrest
          exact ⟨[], .quit hquit, rfl⟩
        · obtain ⟨replies, hdialogue, rfl⟩ := (ih (hturn.reachable hm)).mp hrest
          refine ⟨reply :: replies, .turn hturn hdialogue, ?_⟩
          rw [Session.print_print, Session.print_print, transcript_cons]
          rfl
      · rintro ⟨replies, hdialogue, rfl⟩
        cases hdialogue with
        | quit hquit =>
            exact ⟨none, _, (answer_eq_ok_iff hm).mpr (Or.inl ⟨hquit, rfl, rfl⟩), rfl⟩
        | @turn _ m₁ _ _ _ reply replies hturn hrest =>
            refine ⟨some m₁, _, (answer_eq_ok_iff hm).mpr
              (Or.inr ⟨m₁, reply, rfl, hturn, rfl⟩), ?_⟩
            refine (ih (hturn.reachable hm)).mpr ⟨replies, hrest, ?_⟩
            rw [Session.print_print, Session.print_print, transcript_cons]
            rfl

/-- The command that ends a session ends it as the end of the input does. -/
theorem converse_append_quit {line : String} (hline : Command.ofLine? line = some .quit)
    (m : Machine) (rest : List String) (s : Session) :
    converse patience file budget m (lines ++ line :: rest) s =
      converse patience file budget m lines s := by
  induction lines generalizing m s with
  | nil =>
      rw [List.nil_append]
      unfold converse
      rw [answer_of_quit hline]
      rfl
  | cons first lines ih =>
      rw [List.cons_append, converse, converse, Shell.bind_of_ok (Shell.say_eq _ s),
        Shell.bind_of_ok (Shell.say_eq _ s)]
      cases hanswer : answer patience file budget m first (s.print [.prompt]) with
      | error e s₁ => rw [Shell.bind_of_error hanswer, Shell.bind_of_error hanswer]
      | ok next s₁ =>
          rw [Shell.bind_of_ok hanswer, Shell.bind_of_ok hanswer]
          cases next with
          | none => rfl
          | some m₁ => exact ih m₁ s₁

end Sessions

section Commands

variable {m m' : Machine} {line : String} {lines : List String} {replies : List Reply}

theorem calls_cons_of_none (hline : Command.ofLine? line = none) (lines : List String) :
    calls patience budget (line :: lines) = calls patience budget lines := by
  rw [calls, commands, List.filterMap_cons_none hline, calls, commands]

theorem calls_cons_quit (hline : Command.ofLine? line = some .quit) (lines : List String) :
    calls patience budget (line :: lines) = [] := by
  rw [calls, commands, List.filterMap_cons_some hline]
  rfl

theorem calls_cons_of_call {c : Command} {call : Machine.Call}
    (hline : Command.ofLine? line = some c) (hcall : c.call? patience budget = some call)
    (lines : List String) :
    calls patience budget (line :: lines) = call :: calls patience budget lines := by
  have hc : decide (c ≠ .quit) = true := by
    cases c with
    | one => rfl
    | all => rfl
    | quit => cases hcall
  rw [calls, commands, List.filterMap_cons_some hline, List.takeWhile_cons, if_pos hc,
    List.filterMap_cons_some hcall, calls, commands]

/-- A command is a call, and both let the machine make the same steps. -/
theorem Command.exists_call {c : Command} (hc : c ≠ .quit) :
    ∃ call, c.call? patience budget = some call ∧
      ∀ m, call.perform m = Machine.next^[c.steps patience budget] m := by
  cases c with
  | one => exact ⟨.step, rfl, fun m => rfl⟩
  | all => exact ⟨.run patience budget, rfl, fun m => Machine.final_runFor _ m⟩
  | quit => exact absurd rfl hc

/-- **The machine is the one that the commands lead to.** -/
theorem Dialogue.machine_eq (h : Dialogue patience file budget m lines m' replies) :
    m' = m.after (calls patience budget lines) := by
  induction h with
  | ended m => rfl
  | quit hquit =>
      rw [calls_cons_quit hquit]
      rfl
  | turn hturn _ ih =>
      cases hturn with
      | rejected hline => rw [calls_cons_of_none hline, ← ih]
      | performed hline hc hperform =>
          cases hperform with
          | intro hrun _ _ =>
              obtain ⟨call, hcall, hsteps⟩ := Command.exists_call hc
              rw [calls_cons_of_call hline hcall, Machine.after, hsteps,
                ← Machine.eq_iterate_of_runFor hrun, ← ih]

end Commands

section Counting

variable {m m' : Machine} {lines : List String} {replies : List Reply}

/-- Each block tells of one instruction. -/
theorem countP_isExecuted_of_blocks {ks : List Nat} {blocks : List (List Message)}
    (h : m.Blocks ks blocks) : blocks.flatten.countP Message.isExecuted = ks.length := by
  induction h with
  | nil => rfl
  | @cons k block ks blocks hblock _ ih =>
      obtain ⟨shown, hshown, rfl⟩ := hblock
      have hnone : shown.countP Message.isExecuted = 0 := by
        refine List.countP_eq_zero.mpr fun x hx => ?_
        rw [hshown.forall_mem (P := fun x => x.isExecuted = false) rfl (fun _ _ => rfl) rfl x hx]
        exact Bool.false_ne_true
      rw [List.flatten_cons, List.countP_append, ih, List.countP_cons_of_pos rfl, hnone,
        List.length_cons, Nat.zero_add, Nat.add_comm]

theorem countP_isExecuted_of_reports {c : Command} {report : Option Message}
    (h : Reports file budget c m report) : report.toList.countP Message.isExecuted = 0 := by
  unfold Reports at h
  split at h
  · obtain ⟨v, rfl, hv⟩ := h
    cases hv <;> rfl
  · subst h
    rfl

/-- **The session tells of as many instructions as the machine counts.** -/
theorem Dialogue.steps_eq (h : Dialogue patience file budget m lines m' replies) :
    m'.steps = m.steps + (transcript replies).countP Message.isExecuted := by
  induction h with
  | ended m => rfl
  | quit _ => rfl
  | @turn m m₁ m' line lines reply replies hturn _ ih =>
      have hreply : m₁.steps = m.steps + reply.messages.countP Message.isExecuted := by
        cases hturn with
        | rejected _ => rfl
        | performed _ _ hperform =>
            cases hperform with
            | intro hrun hblocks hreport =>
                rw [Machine.eq_iterate_of_runFor hrun, Machine.steps_iterate, Reply.messages,
                  List.countP_append, countP_isExecuted_of_blocks hblocks,
                  countP_isExecuted_of_reports hreport, Nat.add_zero]
      rw [ih, hreply, transcript_cons, List.countP_append, List.countP_cons_of_neg (by decide),
        Nat.add_assoc]

end Counting

section Rejections

variable {m m' : Machine} {lines : List String} {replies : List Reply}

theorem isCommand_of_ofLine? {line : String} {c : Command}
    (hline : Command.ofLine? line = some c) : isCommand line = true := by
  rw [isCommand, hline, Option.isSome_some]

theorem not_isCommand {line : String} (hline : Command.ofLine? line = none) :
    ¬ isCommand line = true := by
  rw [isCommand, hline, Option.isSome_none]
  exact Bool.false_ne_true

theorem Performs.isAnswer {c : Command} {reply : Reply}
    (h : Performs patience file budget c m m' reply) : reply.isAnswer = true := by
  cases h
  rfl

/-- Lines that are no command may be left out. -/
theorem Dialogue.filter (h : Dialogue patience file budget m lines m' replies) :
    Dialogue patience file budget m (lines.filter isCommand) m'
      (replies.filter Reply.isAnswer) := by
  induction h with
  | ended m => exact .ended m
  | quit hquit =>
      rw [List.filter_cons_of_pos (isCommand_of_ofLine? hquit)]
      exact .quit hquit
  | turn hturn _ ih =>
      cases hturn with
      | rejected hline =>
          rw [List.filter_cons_of_neg (not_isCommand hline),
            List.filter_cons_of_neg Bool.false_ne_true]
          exact ih
      | performed hline hc hperform =>
          rw [List.filter_cons_of_pos (isCommand_of_ofLine? hline),
            List.filter_cons_of_pos hperform.isAnswer]
          exact .turn (.performed hline hc hperform) ih

/-- Lines that are no command may be put in. -/
theorem Dialogue.exists_of_filter
    (h : Dialogue patience file budget m (lines.filter isCommand) m' replies) :
    ∃ replies', Dialogue patience file budget m lines m' replies' ∧
      replies'.filter Reply.isAnswer = replies.filter Reply.isAnswer := by
  -- on all the lines, as the rejections go back to where their lines stand
  induction lines generalizing m replies with
  | nil => exact ⟨replies, h, rfl⟩
  | cons line lines ih =>
      cases hline : Command.ofLine? line with
      | none =>
          rw [List.filter_cons_of_neg (not_isCommand hline)] at h
          obtain ⟨replies', hdialogue, hanswers⟩ := ih h
          exact ⟨.rejection :: replies', .turn (.rejected hline) hdialogue, hanswers⟩
      | some c =>
          rw [List.filter_cons_of_pos (isCommand_of_ofLine? hline)] at h
          cases h with
          | quit hquit => exact ⟨[], .quit hquit, rfl⟩
          | @turn _ _ _ _ _ reply _ hturn hrest =>
              obtain ⟨replies', hdialogue, hanswers⟩ := ih hrest
              refine ⟨reply :: replies', .turn hturn hdialogue, ?_⟩
              rw [List.filter_cons, List.filter_cons, hanswers]

/-- The rejections and the prompts do not show on standard error. -/
theorem textOn_error_transcript (replies : List Reply) :
    Message.textOn .error (transcript replies) =
      Message.textOn .error ((replies.filter Reply.isAnswer).flatMap Reply.messages) := by
  induction replies with
  | nil => rfl
  | cons reply replies ih =>
      rw [textOn_error_transcript_cons, ih]
      cases reply with
      | rejection =>
          rw [List.filter_cons_of_neg Bool.false_ne_true]
          exact String.empty_append
      | answer blocks report =>
          rw [List.filter_cons_of_pos rfl, List.flatMap_cons, Message.textOn_append]

end Rejections

section Texts

variable {m m' : Machine} {lines : List String} {replies : List Reply}

theorem Verdict.textOn_output {v : Message} (hv : Verdict file budget m v) :
    Message.textOn .output [v] = if m.status = .halted then "Program halted.\n" else "" := by
  cases hv with
  | fault hstatus _ _ =>
      rw [if_neg (by simp [hstatus])]
      exact Message.textOn_cons_of_ne (by simp) []
  | noHalt hstatus _ _ =>
      rw [if_neg (by simp [hstatus])]
      exact Message.textOn_cons_of_ne (by simp [Message.stream]) []
  | halted hstatus =>
      rw [if_pos hstatus]
      exact Message.textOn_singleton rfl

theorem Verdict.textOn_error {v : Message} (hv : Verdict file budget m v) :
    Message.textOn .error [v] = m.reportText file budget := by
  cases hv with
  | @fault f line hstatus hfault hline =>
      have hreport := Machine.faultReport?_eq_some hfault hline
      rw [Machine.reportText_of_some hstatus hreport,
        Message.textOn_singleton (Message.stream_fault file _), Message.text_fault]
  | @noHalt n text hstatus hbudget htext =>
      subst hbudget
      rw [Machine.reportText_of_running hstatus, ← Numeral.text_eq_intText htext]
      exact Message.textOn_singleton rfl
  | halted hstatus =>
      rw [Machine.reportText_of_halted hstatus]
      exact Message.textOn_cons_of_ne (by simp [Message.stream]) []

theorem Reports.textOn_output {c : Command} {report : Option Message}
    (h : Reports file budget c m report) :
    Message.textOn .output report.toList =
      if m.status = .halted then "Program halted.\n" else "" := by
  unfold Reports at h
  by_cases hends : c = .all ∨ m.status ≠ .running
  · rw [if_pos hends] at h
    obtain ⟨v, rfl, hv⟩ := h
    exact hv.textOn_output
  · rw [if_neg hends] at h
    subst h
    rw [if_neg fun hhalted => hends (Or.inr (by simp [hhalted]))]
    rfl

theorem Reports.textOn_error {c : Command} {report : Option Message}
    (h : Reports file budget c m report) :
    Message.textOn .error report.toList =
      if c = .all ∨ m.status ≠ .running then m.reportText file budget else "" := by
  unfold Reports at h
  by_cases hends : c = .all ∨ m.status ≠ .running
  · rw [if_pos hends] at h ⊢
    obtain ⟨v, rfl, hv⟩ := h
    exact hv.textOn_error
  · rw [if_neg hends] at h ⊢
    subst h
    rfl

/-- A command prints its text. -/
theorem Performs.texts {c : Command} {reply : Reply}
    (h : Performs patience file budget c m m' reply) :
    m' = Machine.next^[c.steps patience budget] m ∧
      c.outputText patience budget m = .ok (Message.textOn .output reply.messages) ∧
      c.errorText patience file budget m = Message.textOn .error reply.messages := by
  cases h with
  | intro hrun hblocks hreport =>
      obtain rfl := Machine.eq_iterate_of_runFor hrun
      refine ⟨rfl, ?_, ?_⟩
      · rw [Command.outputText, Machine.blocksText_of_blocks hblocks, Reply.messages,
          Message.textOn_append, hreport.textOn_output]
        rfl
      · rw [Command.errorText, Reply.messages, Message.textOn_append,
          Machine.textOn_error_of_blocks hblocks, String.empty_append, hreport.textOn_error]

/-- **What a session prints on standard output.** -/
theorem Dialogue.outputText_eq (h : Dialogue patience file budget m lines m' replies) :
    outputText patience budget m lines = .ok (Message.textOn .output (transcript replies)) := by
  induction h with
  | ended m => rfl
  | quit hquit =>
      rw [outputText, hquit]
      rfl
  | turn hturn _ ih =>
      cases hturn with
      | rejected hline =>
          rw [outputText, hline, textOn_output_transcript_cons]
          dsimp only
          rw [ih]
          rfl
      | @performed c _ _ hline hc hperform =>
          obtain ⟨rfl, houtput, _⟩ := hperform.texts
          rw [outputText, hline, textOn_output_transcript_cons]
          cases c with
          | one =>
              dsimp only
              rw [houtput, ih]
              rfl
          | all =>
              dsimp only
              rw [houtput, ih]
              rfl
          | quit => exact absurd rfl hc

/-- **What a session prints on standard error.** -/
theorem Dialogue.errorText_eq (h : Dialogue patience file budget m lines m' replies) :
    errorText patience file budget m lines = Message.textOn .error (transcript replies) := by
  induction h with
  | ended m => rfl
  | quit hquit =>
      rw [errorText, hquit]
      rfl
  | turn hturn _ ih =>
      cases hturn with
      | rejected hline =>
          rw [errorText, hline, textOn_error_transcript_cons]
          dsimp only
          rw [ih]
          exact String.empty_append.symm
      | @performed c _ _ hline hc hperform =>
          obtain ⟨rfl, _, herror⟩ := hperform.texts
          rw [errorText, hline, textOn_error_transcript_cons]
          cases c with
          | one => dsimp only; rw [herror, ih]
          | all => dsimp only; rw [herror, ih]
          | quit => exact absurd rfl hc

end Texts

/-- **A session steps through its program.**  When it returns, the machine is the one that
its commands lead to; every line is a turn of the dialogue; the instructions that are told
of are those that the machine counts; and the exit status tells whether it has met a fault.
What it reports of a machine that has halted is on standard output, all else on standard
error, and the text on either is told by the lines.  Lines that are no command make no
difference but for their rejections, and the command that ends a session ends it as the end
of the input does. -/
theorem sessions_step_faithfully (patience : Nat) (file : String) (budget : Option Int)
    (input : List String) (s : Session) :
    (∀ code s', run patience file budget input s = .ok code s' →
      ∃ lines m' replies,
        Shell.readLines file s = .ok lines s ∧
        converse patience file budget (.ofProgram lines.toArray) input s = .ok m' s' ∧
        m' = (Machine.ofProgram lines.toArray).after (calls patience budget input) ∧
        Dialogue patience file budget (.ofProgram lines.toArray) input m' replies ∧
        s' = s.print (transcript replies) ∧
        outputText patience budget (.ofProgram lines.toArray) input =
          .ok (Message.textOn .output (transcript replies)) ∧
        errorText patience file budget (.ofProgram lines.toArray) input =
          Message.textOn .error (transcript replies) ∧
        m'.steps = (transcript replies).countP Message.isExecuted ∧
        (m'.status = .faulted ∧ code = 1 ∨ m'.status ≠ .faulted ∧ code = 0) ∧
        ∀ input', input'.filter isCommand = input.filter isCommand →
          ∃ replies',
            run patience file budget input' s = .ok code (s.print (transcript replies')) ∧
            Dialogue patience file budget (.ofProgram lines.toArray) input' m' replies' ∧
            replies'.filter Reply.isAnswer = replies.filter Reply.isAnswer ∧
            outputText patience budget (.ofProgram lines.toArray) input' =
              .ok (Message.textOn .output (transcript replies')) ∧
            Message.textOn .error (transcript replies') =
              Message.textOn .error (transcript replies)) ∧
    (∀ m v, Verdict file budget m v →
      (v.stream = .output ↔ m.status = .halted) ∧
      Message.textOn .output [v] = (if m.status = .halted then "Program halted.\n" else "") ∧
      Message.textOn .error [v] = m.reportText file budget) ∧
    ∀ line rest, Command.ofLine? line = some .quit →
      run patience file budget (input ++ line :: rest) s = run patience file budget input s := by
  refine ⟨?_, fun m v hv => ⟨hv.stream_eq, hv.textOn_output, hv.textOn_error⟩, ?_⟩
  · intro code s' h
    obtain ⟨m, s₁, hread, hrest⟩ := Shell.bind_eq_ok_iff.mp h
    obtain ⟨lines, s₂, hlines, hmachine⟩ := Shell.bind_eq_ok_iff.mp hread
    obtain ⟨m', s₃, hconverse, hexit⟩ := Shell.bind_eq_ok_iff.mp hrest
    obtain ⟨rfl, _⟩ := Shell.readLines_eq_ok_iff.mp hlines
    cases hmachine
    cases hexit
    have hstart := Machine.Reachable.start lines.toArray
    obtain ⟨replies, hdialogue, rfl⟩ := (converse_eq_ok_iff hstart).mp hconverse
    refine ⟨lines, m', replies, hlines, hconverse, hdialogue.machine_eq, hdialogue, rfl,
      hdialogue.outputText_eq, hdialogue.errorText_eq, ?_, ?_, ?_⟩
    · exact hdialogue.steps_eq.trans (Nat.zero_add _)
    · rw [exitStatus]
      by_cases hfaulted : m'.status = .faulted
      · exact Or.inl ⟨hfaulted, if_pos hfaulted⟩
      · exact Or.inr ⟨hfaulted, if_neg hfaulted⟩
    · intro input' hinput'
      have hcommands := hdialogue.filter
      rw [← hinput'] at hcommands
      obtain ⟨replies', hdialogue', hanswers⟩ := hcommands.exists_of_filter
      rw [List.filter_filter] at hanswers
      simp only [Bool.and_self] at hanswers
      refine ⟨replies', ?_, hdialogue', hanswers, hdialogue'.outputText_eq, ?_⟩
      · rw [run, Shell.bind_of_ok hread,
          Shell.bind_of_ok ((converse_eq_ok_iff hstart).mpr ⟨replies', hdialogue', rfl⟩)]
        rfl
      · rw [textOn_error_transcript, hanswers, ← textOn_error_transcript]
  · intro line rest hline
    have hconverse : ∀ m, converse patience file budget m (input ++ line :: rest) =
        converse patience file budget m input :=
      fun m => funext fun s => converse_append_quit hline m rest s
    simp only [run, hconverse]

/-- A session with a program that takes an integer for a list. -/
def integerForList : Session :=
  .ofFile "VARINT x 7\nGET y 0 x\n"

theorem sessions_step_faithfully_integerForList :
    ∃ replies replies',
      run 0 "p" (some 9) ["o", "?", " A ", "o", "q", "a"] integerForList =
        .ok 1 (integerForList.print (transcript replies)) ∧
      (transcript replies).countP Message.isExecuted = 1 ∧
      Message.textOn .output (transcript replies) =
        "Enter command (o/a/q): Execute line: 0\nCurrent memory:\nx = 7\n" ++
        "+++++++++++++++++++++++++++++++++++++++++\n" ++
        "Enter command (o/a/q): Invalid command. Please enter 'o', 'a', or 'q'.\n" ++
        "Enter command (o/a/q): Enter command (o/a/q): Enter command (o/a/q): " ∧
      Message.textOn .error (transcript replies) =
        "p:1: error: expected list, got int\nGET y 0 x\n" ++
        "p:1: error: expected list, got int\nGET y 0 x\n" ∧
      run 0 "p" (some 9) ["o", " A ", "o", "q", "a"] integerForList =
        .ok 1 (integerForList.print (transcript replies')) ∧
      replies'.filter Reply.isAnswer = replies.filter Reply.isAnswer ∧
      Message.textOn .error (transcript replies') = Message.textOn .error (transcript replies) := by
  have hlines : Shell.readLines "p" integerForList =
      .ok ["VARINT x 7", "GET y 0 x"] integerForList := by
    have hprogram : Text.programLines "VARINT x 7\nGET y 0 x\n" = ["VARINT x 7", "GET y 0 x"] := by
      decide +kernel
    rw [← hprogram]
    exact Shell.readLines_ofFile _
  have hends : (match converse 0 "p" (some 9) (.ofProgram #["VARINT x 7", "GET y 0 x"])
      ["o", "?", " A ", "o", "q", "a"] integerForList with
    | .ok m' _ => decide (m'.status = .faulted ∧ m'.steps = 1)
    | .error _ _ => false) = true := by
    decide +kernel
  split at hends
  · rename_i m' s' hconverse
    obtain ⟨hfaulted, hsteps⟩ := of_decide_eq_true hends
    have hrun : run 0 "p" (some 9) ["o", "?", " A ", "o", "q", "a"] integerForList = .ok 1 s' := by
      rw [run, Shell.bind_of_ok (Shell.readProgram_of_readLines hlines),
        Shell.bind_of_ok hconverse, exitStatus, if_pos hfaulted]
      rfl
    obtain ⟨lines, _, replies, hlines', hconverse', _, _, rfl, houtput, herror', hcount, _,
        hsame⟩ :=
      (sessions_step_faithfully 0 "p" (some 9) _ integerForList).1 _ _ hrun
    rw [hlines] at hlines'
    cases hlines'
    rw [hconverse] at hconverse'
    cases hconverse'
    obtain ⟨replies', hrun', _, hanswers, _, herror⟩ :=
      hsame ["o", " A ", "o", "q", "a"] (by decide +kernel)
    refine ⟨replies, replies', hrun, hcount.symm.trans hsteps, ?_, ?_, hrun', hanswers, herror⟩
    · exact (Except.ok.inj (Eq.trans (by decide +kernel) houtput)).symm
    · exact herror'.symm.trans (by decide +kernel)
  · cases hends

end Prompt
end LineMachine
