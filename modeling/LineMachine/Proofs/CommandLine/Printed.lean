import LineMachine.Proofs.CommandLine.Shell
import LineMachine.Proofs.Machine.Counting

/-!
# Printed text

What a listing, a run and a report print is said here as text, for a line or for a
machine, without the messages that it is printed by.  The developments about listings,
runs and sessions prove that their messages come to this text.

**Results.**
* `FaultReport.printed`: the report of a line.
* `Machine.memoryText`, `Machine.blocksText`: the variables of a machine, and the lines
  that it executes with the variables after each.
* `Machine.endText`, `Machine.reportText`: how a run has ended, on standard output and on
  standard error.
* `Message.textOn_append`, `Message.textOn_eq_join`: what a transcript puts on a stream.
* `Shell.exists_report`: a run is reported alike in every session, and by which text.
-/

namespace LineMachine

/-- The report of a line: the file and the number of the line, what is wrong with it, and
the line below. -/
def FaultReport.printed (file : String) (r : FaultReport) : String :=
  file ++ ":" ++ Numeral.intText r.line ++ ": error: " ++ r.fault.message ++ "\n" ++
    r.source ++ "\n"

namespace Machine

/-- A variable with its value. -/
def bindingText (h : Heap) (binding : String × Value) : Except Numeral.DigitLimit String :=
  (h.text binding.2).map fun value => binding.1 ++ " = " ++ value ++ "\n"

/-- The variables of a machine, in their order. -/
def memoryText (m : Machine) : Except Numeral.DigitLimit String := do
  let bindings ← m.memory.bindings.mapM (bindingText m.heap)
  return "Current memory:\n" ++ String.join bindings ++
    "+++++++++++++++++++++++++++++++++++++++++\n"

/-- The line that a machine executes next, and the variables after it. -/
def blockText (m : Machine) : Except Numeral.DigitLimit String :=
  m.next.memoryText.map fun memory =>
    "Execute line: " ++ Numeral.intText m.pc ++ "\n" ++ memory

/-- The lines that a machine executes in the steps with the given numbers, each with the
variables after it. -/
def blocksText (m : Machine) (ks : List Nat) : Except Numeral.DigitLimit String :=
  (ks.mapM fun k => (next^[k] m).blockText).map String.join

/-- How a run without messages has ended, on standard output. -/
def endText (m : Machine) : Except Numeral.DigitLimit String :=
  if m.status = .halted then
    m.memoryText.map fun memory =>
      "Halted at line " ++ Numeral.intText m.pc ++ " after " ++ toString m.steps ++ " steps\n" ++
        memory
  else .ok ""

/-- How a run has ended, on standard error. -/
def reportText (file : String) (budget : Option Int) (m : Machine) : String :=
  match m.status with
  | .halted => ""
  | .faulted =>
    match m.fault, m.line? with
    | some fault, some source => FaultReport.printed file ⟨m.pc, fault, source⟩
    | _, _ => ""
  | .running =>
    match budget with
    | some n => file ++ ": error: no halt after " ++ Numeral.intText n ++ " steps\n"
    | none => ""

end Machine

namespace Message

section Streams

variable {stream : OutputStream} {message : Message} {ms : List Message}

theorem textOn_append (stream : OutputStream) (ms ms' : List Message) :
    textOn stream (ms ++ ms') = textOn stream ms ++ textOn stream ms' := by
  rw [textOn, List.filter_append, List.map_append, String.join_append, textOn, textOn]

theorem textOn_cons_of_stream (h : message.stream = stream) (ms : List Message) :
    textOn stream (message :: ms) = message.text ++ textOn stream ms := by
  rw [textOn, List.filter_cons_of_pos (by simpa using h), List.map_cons, String.join_cons, textOn]

theorem textOn_cons_of_ne (h : message.stream ≠ stream) (ms : List Message) :
    textOn stream (message :: ms) = textOn stream ms := by
  rw [textOn, List.filter_cons_of_neg (by simpa using h), textOn]

/-- Messages that all go to a stream put their texts on it. -/
theorem textOn_eq_join (h : ∀ x, x ∈ ms → x.stream = stream) :
    textOn stream ms = String.join (ms.map text) := by
  rw [textOn, List.filter_eq_self.mpr fun x hx => decide_eq_true (h x hx)]

/-- Messages that all go to the other stream put nothing on this one. -/
theorem textOn_eq_empty (h : ∀ x, x ∈ ms → x.stream ≠ stream) : textOn stream ms = "" := by
  rw [textOn, List.filter_eq_nil_iff.mpr fun x hx => by simpa using h x hx]
  rfl

theorem textOn_flatten (stream : OutputStream) (mss : List (List Message)) :
    textOn stream mss.flatten = String.join (mss.map (textOn stream)) := by
  induction mss with
  | nil => rfl
  | cons ms mss ih =>
      rw [List.flatten_cons, textOn_append, ih, List.map_cons, String.join_cons]

theorem textOn_singleton (h : message.stream = stream) :
    textOn stream [message] = message.text := by
  rw [textOn_cons_of_stream h]
  exact String.append_empty

end Streams

/-- The report of a run is the report of the line that it has stopped on. -/
theorem text_fault (file : String) (r : FaultReport) :
    (fault file r).text = r.printed file := by
  have htext : (fault file r).text = file ++ ":" ++ r.text ++ "\n" := rfl
  simp only [htext, FaultReport.text, FaultReport.printed, String.append_assoc]

/-- The report in a listing is the report that a run would make. -/
theorem text_unreadable (file : String) (number : Nat) (f : Fault) (source : String) :
    (unreadable file number f source).text = FaultReport.printed file ⟨number, f, source⟩ :=
  rfl

end Message

namespace Machine

variable {m : Machine} {file : String} {budget : Option Int}

theorem reportText_of_halted (h : m.status = .halted) : m.reportText file budget = "" := by
  simp only [reportText, h]

/-- A machine that has met a fault is reported by the line that it is on. -/
theorem reportText_of_some {r : FaultReport} (h : m.status = .faulted)
    (hreport : m.faultReport? = some r) : m.reportText file budget = r.printed file := by
  unfold faultReport? at hreport
  split at hreport
  · rename_i f line hfault hline
    cases hreport
    simp only [reportText, h, hfault, hline]
  · cases hreport

theorem reportText_of_none (h : m.status = .faulted) (hreport : m.faultReport? = none) :
    m.reportText file budget = "" := by
  unfold faultReport? at hreport
  split at hreport
  · cases hreport
  · rename_i hnone
    simp only [reportText, h]

theorem reportText_of_running {n : Int} (h : m.status = .running) :
    m.reportText file (some n) =
      file ++ ": error: no halt after " ++ Numeral.intText n ++ " steps\n" := by
  simp only [reportText, h]

end Machine

/-- A run is reported alike in every session, if the budget that was too small, if any,
can be written.  The report is on standard error. -/
theorem Shell.exists_report {m : Machine} {budget : Option Int} (file : String)
    (hbudget : m.status = .running → ∃ n, budget = some n ∧ Numeral.writable n = true) :
    ∃ ms, Message.textOn .output ms = "" ∧ Message.textOn .error ms = m.reportText file budget ∧
      ∀ s, report file budget m s = .ok (exitStatus m) (s.print ms) := by
  cases hstatus : m.status with
  | halted =>
      refine ⟨[], rfl, ?_, fun s => ?_⟩
      · rw [Machine.reportText_of_halted hstatus]
        rfl
      · rw [exitStatus, hstatus, Session.print_nil]
        exact report_of_halted hstatus file budget s
  | faulted =>
      cases hreport : m.faultReport? with
      | none =>
          refine ⟨[], rfl, ?_, fun s => ?_⟩
          · rw [Machine.reportText_of_none hstatus hreport]
            rfl
          · rw [report, exitStatus, hstatus, Session.print_nil]
            dsimp only
            rw [hreport]
            rfl
      | some r =>
          refine ⟨[.fault file r], Message.textOn_cons_of_ne (by simp) [], ?_, fun s => ?_⟩
          · rw [Machine.reportText_of_some hstatus hreport,
              Message.textOn_singleton (Message.stream_fault file r), Message.text_fault]
          · rw [exitStatus, hstatus]
            exact report_of_fault hstatus hreport file budget s
  | running =>
      obtain ⟨n, rfl, hn⟩ := hbudget hstatus
      refine ⟨[.noHalt file (Numeral.intText n)], rfl, ?_, fun s => ?_⟩
      · rw [Machine.reportText_of_running hstatus]
        exact Message.textOn_singleton rfl
      · rw [exitStatus, hstatus]
        exact report_of_running hstatus (Numeral.text_eq_ok hn) file s

end LineMachine
