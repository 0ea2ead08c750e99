import LineMachine.CommandLine.Listing
import LineMachine.Proofs.CommandLine.Printed
import LineMachine.Proofs.Machine.Reading

/-!
# Listings and runs

A listing reads every line of a program, and a run the lines that it comes to.  As
reading a line does not depend on the machine, the lines that a listing reports are
the only ones at which a run can meet a decode error.  The listing and the run each have
their own wording of the report, and the two come to the same text.

**Input.**  A listing that comes to its end, which is one that meets no literal
beyond the digit limit.

**Results.**
* `Listing.list_eq_ok_iff`: when a listing comes to its end, and what it prints.
* `Listing.sorts`: every line is listed or reported, and none is both.
* `Listing.listing_foretells_decode_errors`: what a listing tells about all runs.
-/

namespace LineMachine

namespace Listing

/-- The instruction that a numbered line is. -/
def listed? : String × Nat → Option (Nat × Instruction)
  | (line, number) =>
    match Instruction.decode line with
    | .ok inst => some (number, inst)
    | .error _ => none

/-- The report of a numbered line that is no instruction. -/
def refused? : String × Nat → Option FaultReport
  | (line, number) =>
    match Instruction.decode line with
    | .error (.fault f) => some ⟨number, f, line⟩
    | .ok _ | .error (.limit _) => none

/-- What a listing prints for a numbered line. -/
def message? (file : String) : String × Nat → Option Message
  | (line, number) =>
    match Instruction.decode line with
    | .ok inst => some (.listed number inst)
    | .error (.fault f) => some (.unreadable file number f line)
    | .error (.limit _) => none

/-- The lines that are instructions, with their numbers. -/
def listed (lines : List String) : List (Nat × Instruction) :=
  lines.zipIdx.filterMap listed?

/-- The reports of the lines that are no instructions. -/
def refused (lines : List String) : List FaultReport :=
  lines.zipIdx.filterMap refused?

def messages (file : String) (lines : List String) : List Message :=
  lines.zipIdx.filterMap (message? file)

/-- Reading the lines meets no literal beyond the digit limit. -/
def WithinLimit (lines : List String) : Prop :=
  ∀ line, line ∈ lines → ∀ e, Instruction.decode line ≠ .error (.limit e)

/-- The instructions and the reports of some lines, in the order of the lines. -/
structure Sorts (lines : List String) (listed : List (Nat × Instruction))
    (refused : List FaultReport) : Prop where
  listed_increasing : listed.Pairwise fun l l' => l.1 < l'.1
  refused_increasing : refused.Pairwise fun r r' => r.line < r'.line
  mem_listed : ∀ i inst, (i, inst) ∈ listed ↔
    ∃ line, lines[i]? = some line ∧ Instruction.decode line = .ok inst
  mem_refused : ∀ r, r ∈ refused ↔
    ∃ (i : Nat) (line : String) (e : DecodeError), lines[i]? = some line ∧
      Instruction.decode line = .error (.fault (.decode e)) ∧ r = ⟨i, .decode e, line⟩
  one : ∀ i, i < lines.length →
    ((∃ inst, (i, inst) ∈ listed) ↔ ¬ ∃ r, r ∈ refused ∧ r.line = i)

section Printing

variable {file : String} {s s' : Session} {number : Nat} {line : String} {lines : List String}

theorem listLine_eq (hline : ∀ e, Instruction.decode line ≠ .error (.limit e)) :
    listLine file number line s =
      .ok (Instruction.decode line).isOk (s.print (message? file (line, number)).toList) := by
  rw [listLine, message?]
  cases hdecode : Instruction.decode line with
  | ok inst => rfl
  | error failure =>
      cases failure with
      | fault f => rfl
      | limit e => exact absurd hdecode (hline e)

theorem withinLimit_of_listLine {clean : Bool} (h : listLine file number line s = .ok clean s')
    (e : Numeral.DigitLimit) : Instruction.decode line ≠ .error (.limit e) := by
  intro hdecode
  rw [listLine, hdecode] at h
  cases h

theorem listLines_eq (hlines : WithinLimit lines) :
    listLines file number lines s =
      .ok (lines.all fun line => (Instruction.decode line).isOk)
        (s.print ((lines.zipIdx number).filterMap (message? file))) := by
  induction lines generalizing number s with
  | nil => rfl
  | cons line lines ih =>
      have hhere : listLine file number line s = _ := listLine_eq (hlines line List.mem_cons_self)
      have hbelow : listLines file (number + 1) lines
          (s.print (message? file (line, number)).toList) = _ :=
        ih fun other hother => hlines other (List.mem_cons_of_mem _ hother)
      rw [Session.print_print] at hbelow
      rw [listLines, Shell.bind_of_ok hhere, Shell.bind_of_ok hbelow, List.zipIdx_cons,
        List.filterMap_cons, List.all_cons]
      cases message? file (line, number) with
      | none => rfl
      | some message => rfl

theorem withinLimit_of_listLines {clean : Bool} (h : listLines file number lines s = .ok clean s') :
    WithinLimit lines := by
  induction lines generalizing number s clean with
  | nil =>
      intro line hline
      cases hline
  | cons line lines ih =>
      obtain ⟨here, s₁, hhere, h⟩ := Shell.bind_eq_ok_iff.mp h
      obtain ⟨below, s₂, hbelow, h⟩ := Shell.bind_eq_ok_iff.mp h
      cases h
      intro other hother
      rcases List.mem_cons.mp hother with rfl | hother
      · exact withinLimit_of_listLine hhere
      · exact ih hbelow other hother

/-- **A listing comes to its end exactly if the file can be read and no literal is
beyond the digit limit.**  It then prints a message for each line, and nothing else
changes. -/
theorem list_eq_ok_iff {status : Nat} :
    list file s = .ok status s' ↔
      ∃ lines, Shell.readLines file s = .ok lines s ∧ WithinLimit lines ∧
        s' = s.print (messages file lines) ∧
        status = if lines.all fun line => (Instruction.decode line).isOk then 0 else 1 := by
  rw [list, Shell.bind_eq_ok_iff]
  constructor
  · rintro ⟨lines, s₁, hread, h⟩
    obtain rfl := (Shell.readLines_eq_ok_iff.mp hread).1
    obtain ⟨clean, s₂, hlist, h⟩ := Shell.bind_eq_ok_iff.mp h
    have hlimit := withinLimit_of_listLines hlist
    rw [listLines_eq hlimit] at hlist
    cases hlist
    cases h
    exact ⟨lines, hread, hlimit, rfl, rfl⟩
  · rintro ⟨lines, hread, hlimit, rfl, rfl⟩
    exact ⟨lines, s, hread, Shell.bind_of_ok (listLines_eq hlimit)⟩

end Printing

section Streams

variable (file : String) (lines : List String)

/-- Standard output shows the lines that are instructions, with their numbers. -/
theorem textOn_output :
    Message.textOn .output (messages file lines) =
      String.join ((listed lines).map fun l =>
        Instruction.lineNumber l.1 ++ " " ++ l.2.listing ++ "\n") := by
  unfold messages listed
  induction lines.zipIdx with
  | nil => rfl
  | cons p ps ih =>
      obtain ⟨line, number⟩ := p
      cases hdecode : Instruction.decode line with
      | ok inst =>
          rw [List.filterMap_cons_some (by rw [message?, hdecode]),
            List.filterMap_cons_some (by rw [listed?, hdecode]),
            Message.textOn_cons_of_stream (Message.stream_listed number inst), ih,
            List.map_cons, String.join_cons]
          rfl
      | error failure =>
          rw [List.filterMap_cons_none (f := listed?) (by rw [listed?, hdecode])]
          cases failure with
          | fault f =>
              rw [List.filterMap_cons_some (by rw [message?, hdecode]),
                Message.textOn_cons_of_ne (by simp), ih]
          | limit e => rw [List.filterMap_cons_none (by rw [message?, hdecode]), ih]

/-- Standard error shows the reports of the other lines. -/
theorem textOn_error :
    Message.textOn .error (messages file lines) =
      String.join ((refused lines).map fun r => r.printed file) := by
  unfold messages refused
  induction lines.zipIdx with
  | nil => rfl
  | cons p ps ih =>
      obtain ⟨line, number⟩ := p
      cases hdecode : Instruction.decode line with
      | ok inst =>
          rw [List.filterMap_cons_some (by rw [message?, hdecode]),
            List.filterMap_cons_none (by rw [refused?, hdecode]),
            Message.textOn_cons_of_ne (by simp), ih]
      | error failure =>
          cases failure with
          | fault f =>
              rw [List.filterMap_cons_some (by rw [message?, hdecode]),
                List.filterMap_cons_some (by rw [refused?, hdecode]),
                Message.textOn_cons_of_stream (Message.stream_unreadable file number f line),
                Message.text_unreadable, ih, List.map_cons, String.join_cons]
          | limit e =>
              rw [List.filterMap_cons_none (by rw [message?, hdecode]),
                List.filterMap_cons_none (by rw [refused?, hdecode]), ih]

end Streams

section Lines

variable {lines : List String}

theorem pairwise_zipIdx (lines : List String) :
    lines.zipIdx.Pairwise fun p p' => p.2 < p'.2 := by
  rw [← List.pairwise_map (f := Prod.snd), List.zipIdx_map_snd]
  exact List.pairwise_lt_range' 1

theorem listed?_eq_some_iff {p : String × Nat} {l : Nat × Instruction} :
    listed? p = some l ↔ l.1 = p.2 ∧ Instruction.decode p.1 = .ok l.2 := by
  obtain ⟨line, number⟩ := p
  obtain ⟨i, inst⟩ := l
  rw [listed?]
  cases Instruction.decode line <;> simp [eq_comm]

theorem refused?_eq_some_iff {p : String × Nat} {r : FaultReport} :
    refused? p = some r ↔
      ∃ f, Instruction.decode p.1 = .error (.fault f) ∧ r = ⟨p.2, f, p.1⟩ := by
  obtain ⟨line, number⟩ := p
  rw [refused?]
  cases Instruction.decode line with
  | ok inst => simp
  | error failure => cases failure <;> simp [eq_comm]

theorem mem_listed_iff {i : Nat} {inst : Instruction} :
    (i, inst) ∈ listed lines ↔
      ∃ line, lines[i]? = some line ∧ Instruction.decode line = .ok inst := by
  rw [listed, List.mem_filterMap]
  constructor
  · rintro ⟨⟨line, number⟩, hmem, hlisted⟩
    obtain ⟨rfl, hdecode⟩ := listed?_eq_some_iff.mp hlisted
    exact ⟨line, List.mk_mem_zipIdx_iff_getElem?.mp hmem, hdecode⟩
  · rintro ⟨line, hline, hdecode⟩
    exact ⟨(line, i), List.mk_mem_zipIdx_iff_getElem?.mpr hline,
      listed?_eq_some_iff.mpr ⟨rfl, hdecode⟩⟩

theorem mem_refused_iff {r : FaultReport} :
    r ∈ refused lines ↔
      ∃ (i : Nat) (line : String) (e : DecodeError), lines[i]? = some line ∧
        Instruction.decode line = .error (.fault (.decode e)) ∧ r = ⟨i, .decode e, line⟩ := by
  rw [refused, List.mem_filterMap]
  constructor
  · rintro ⟨⟨line, number⟩, hmem, hrefused⟩
    obtain ⟨f, hdecode, rfl⟩ := refused?_eq_some_iff.mp hrefused
    obtain ⟨e, rfl⟩ := Instruction.exists_decodeError hdecode
    exact ⟨number, line, e, List.mk_mem_zipIdx_iff_getElem?.mp hmem, hdecode, rfl⟩
  · rintro ⟨i, line, e, hline, hdecode, rfl⟩
    exact ⟨(line, i), List.mk_mem_zipIdx_iff_getElem?.mpr hline,
      refused?_eq_some_iff.mpr ⟨_, hdecode, rfl⟩⟩

/-- A line within the digit limit is listed exactly if it is not reported. -/
theorem listed_iff_not_refused (hlines : WithinLimit lines) {i : Nat} (hi : i < lines.length) :
    (∃ inst, (i, inst) ∈ listed lines) ↔ ¬ ∃ r, r ∈ refused lines ∧ r.line = i := by
  have hget : lines[i]? = some lines[i] := List.getElem?_eq_getElem hi
  constructor
  · rintro ⟨inst, hlisted⟩ ⟨r, hrefused, hr⟩
    obtain ⟨line, hline, hdecode⟩ := mem_listed_iff.mp hlisted
    obtain ⟨j, line', f, hline', hdecode', rfl⟩ := mem_refused_iff.mp hrefused
    obtain rfl : j = i := Int.ofNat_inj.mp hr
    rw [hline] at hline'
    cases hline'
    rw [hdecode] at hdecode'
    cases hdecode'
  · intro hrefused
    cases hdecode : Instruction.decode lines[i] with
    | ok inst => exact ⟨inst, mem_listed_iff.mpr ⟨_, hget, hdecode⟩⟩
    | error failure =>
        cases failure with
        | limit e => exact absurd hdecode (hlines _ (List.getElem_mem hi) e)
        | fault f =>
            obtain ⟨e, rfl⟩ := Instruction.exists_decodeError hdecode
            exact absurd ⟨_, mem_refused_iff.mpr ⟨i, _, e, hget, hdecode, rfl⟩, rfl⟩ hrefused

/-- **Every line is listed or reported, and none is both.** -/
theorem sorts (hlines : WithinLimit lines) : Sorts lines (listed lines) (refused lines) := by
  refine ⟨?_, ?_, fun _ _ => mem_listed_iff, fun _ => mem_refused_iff,
    fun _ hi => listed_iff_not_refused hlines hi⟩
  · refine (pairwise_zipIdx lines).filterMap listed? fun p p' hlt l hl l' hl' => ?_
    rw [(listed?_eq_some_iff.mp hl).1, (listed?_eq_some_iff.mp hl').1]
    exact hlt
  · refine (pairwise_zipIdx lines).filterMap refused? fun p p' hlt r hr r' hr' => ?_
    obtain ⟨_, _, rfl⟩ := refused?_eq_some_iff.mp hr
    obtain ⟨_, _, rfl⟩ := refused?_eq_some_iff.mp hr'
    exact Int.ofNat_lt.mpr hlt

theorem all_isOk_iff :
    (lines.all fun line => (Instruction.decode line).isOk) = true ↔
      ∀ line, line ∈ lines → ∃ inst, Instruction.decode line = .ok inst := by
  rw [List.all_eq_true]
  refine forall₂_congr fun line _ => ?_
  cases Instruction.decode line with
  | ok inst => exact ⟨fun _ => ⟨inst, rfl⟩, fun _ => rfl⟩
  | error failure =>
      constructor
      · intro h
        cases h
      · rintro ⟨inst, h⟩
        cases h

theorem not_all_of_mem_refused {r : FaultReport} (hr : r ∈ refused lines) :
    ¬ ∀ line, line ∈ lines → ∃ inst, Instruction.decode line = .ok inst := by
  intro hall
  obtain ⟨i, line, f, hline, hdecode, _⟩ := mem_refused_iff.mp hr
  obtain ⟨inst, hinst⟩ := hall line (List.mem_of_getElem? hline)
  rw [hdecode] at hinst
  cases hinst

/-- A run that meets a decode error does so at a line that listings report, and prints
the text of the same report. -/
theorem exists_refused_of_decodeError {m : Machine} {calls : List Machine.Call}
    (hcalls : ∀ program, .load program ∉ calls) {e : DecodeError}
    (hfault : ((m.load lines.toArray).after calls).fault = some (.decode e)) :
    ∃ r, r ∈ refused lines ∧ r.line = ((m.load lines.toArray).after calls).pc ∧
      r.fault = .decode e ∧
      ∀ file budget t,
        Shell.report file budget ((m.load lines.toArray).after calls) t =
          .ok 1 (t.print [.fault file r]) := by
  obtain ⟨i, line, hline, hdecode, hpc, hfaulted, hreport⟩ :=
    Machine.unreadable_line_of_fault hcalls hfault
  rw [List.getElem?_toArray] at hline
  exact ⟨_, mem_refused_iff.mpr ⟨i, line, _, hline, hdecode, rfl⟩, hpc.symm, rfl,
    Shell.report_of_fault hfaulted hreport⟩

end Lines

/-- **A listing tells which decode errors runs can meet.**  A listing that comes to
its end prints each line that is an instruction, and reports each other line, in
order; its status tells whether all are instructions.  A run of the program meets a
decode error only at a line that the listing has reported, and its report is the same
text; so it meets none if the status is zero. -/
theorem listing_foretells_decode_errors {file : String} {s s' : Session} {status : Nat}
    (h : list file s = .ok status s') :
    ∃ lines, Shell.readLines file s = .ok lines s ∧
      Sorts lines (listed lines) (refused lines) ∧
      (∃ ms, s' = s.print ms ∧
        Message.textOn .output ms =
          String.join ((listed lines).map fun l =>
            Instruction.lineNumber l.1 ++ " " ++ l.2.listing ++ "\n") ∧
        Message.textOn .error ms =
          String.join ((refused lines).map fun r =>
            file ++ ":" ++ Numeral.intText r.line ++ ": error: " ++ r.fault.message ++ "\n" ++
              r.source ++ "\n")) ∧
      (status = 0 ∨ status = 1) ∧
      (status = 0 ↔ ∀ line, line ∈ lines → ∃ inst, Instruction.decode line = .ok inst) ∧
      ∀ (m : Machine) (calls : List Machine.Call), (∀ program, .load program ∉ calls) →
        (status = 0 → ∀ e, ((m.load lines.toArray).after calls).fault ≠ some (.decode e)) ∧
        ∀ e, ((m.load lines.toArray).after calls).fault = some (.decode e) →
          status = 1 ∧
            ∃ r, r ∈ refused lines ∧ r.line = ((m.load lines.toArray).after calls).pc ∧
              r.fault = .decode e ∧
              ∀ budget t, ∃ reported,
                Shell.report file budget ((m.load lines.toArray).after calls) t =
                  .ok 1 (t.print reported) ∧
                Message.textOn .output reported = "" ∧
                Message.textOn .error reported =
                  file ++ ":" ++ Numeral.intText r.line ++ ": error: " ++ r.fault.message ++
                    "\n" ++ r.source ++ "\n" := by
  obtain ⟨lines, hread, hlimit, rfl, hstatus⟩ := list_eq_ok_iff.mp h
  have hor : status = 0 ∨ status = 1 := by
    rw [hstatus]
    split <;> simp
  have hclean : status = 0 ↔ ∀ line, line ∈ lines → ∃ inst, Instruction.decode line = .ok inst := by
    rw [← all_isOk_iff, hstatus]
    split <;> simp_all
  refine ⟨lines, hread, sorts hlimit, ⟨_, rfl, textOn_output file lines, textOn_error file lines⟩,
    hor, hclean, fun m calls hcalls => ⟨fun hzero e hfault => ?_, fun e hfault => ?_⟩⟩
  · obtain ⟨r, hr, _⟩ := exists_refused_of_decodeError hcalls hfault
    exact not_all_of_mem_refused hr (hclean.mp hzero)
  · obtain ⟨r, hr, hpc, hreason, hreport⟩ := exists_refused_of_decodeError hcalls hfault
    refine ⟨hor.resolve_left fun hzero => ?_, r, hr, hpc, hreason, fun budget t =>
      ⟨_, hreport file budget t, ?_, ?_⟩⟩
    · exact not_all_of_mem_refused hr (hclean.mp hzero)
    · exact Message.textOn_cons_of_ne (by simp) []
    · rw [Message.textOn_singleton (Message.stream_fault file r), Message.text_fault,
        FaultReport.printed]

/-- A session with a program whose second line is no instruction. -/
def oneRefused : Session :=
  .start ⟨[(["p"], "VARINT x 7\nHLT x\n".toUTF8)], [], []⟩

theorem readLines_oneRefused :
    Shell.readLines "p" oneRefused = .ok ["VARINT x 7", "HLT x"] oneRefused := by
  have hlines : Text.programLines "VARINT x 7\nHLT x\n" = ["VARINT x 7", "HLT x"] := by
    decide +kernel
  rw [← hlines]
  exact Shell.readLines_ofFile "VARINT x 7\nHLT x\n"

theorem listing_foretells_decode_errors_oneRefused :
    (∃ ms, list "p" oneRefused = .ok 1 (oneRefused.print ms) ∧
      Message.textOn .output ms = "0000 VarInt(var='x', value=7)\n" ∧
      Message.textOn .error ms = "p:1: error: `HLT` expects 0 arguments, got 1\nHLT x\n") ∧
      ∀ budget t, ∃ reported,
        Shell.report "p" budget
            (((Machine.ofProgram #[]).load #["VARINT x 7", "HLT x"]).after [.run 9 none]) t =
          .ok 1 (t.print reported) ∧
        Message.textOn .error reported =
          "p:1: error: `HLT` expects 0 arguments, got 1\nHLT x\n" := by
  have hfirst : Instruction.decode "VARINT x 7" = .ok (.varInt "x" 7) := rfl
  have hsecond : Instruction.decode "HLT x" =
    .error (.fault (.decode (.wrongArity .halt 1))) := rfl
  have hlimit : WithinLimit ["VARINT x 7", "HLT x"] := by simp [WithinLimit, hfirst, hsecond]
  have hlist : list "p" oneRefused =
      .ok 1 (oneRefused.print (messages "p" ["VARINT x 7", "HLT x"])) :=
    list_eq_ok_iff.mpr ⟨_, readLines_oneRefused, hlimit, rfl, by decide +kernel⟩
  obtain ⟨lines, hread, _, ⟨ms, hprint, houtput, herror⟩, _, _, hruns⟩ :=
    listing_foretells_decode_errors hlist
  rw [readLines_oneRefused] at hread
  cases hread
  refine ⟨⟨ms, hprint ▸ hlist, houtput.trans (by decide +kernel), herror.trans (by decide +kernel)⟩,
    fun budget t => ?_⟩
  have hfault :
      (((Machine.ofProgram #[]).load #["VARINT x 7", "HLT x"]).after [.run 9 none]).fault =
        some (.decode (.wrongArity .halt 1)) := by decide +kernel
  obtain ⟨_, r, hr, _, _, hreport⟩ := (hruns (.ofProgram #[]) [.run 9 none] (by simp)).2 _ hfault
  obtain ⟨reported, hreported, _, htext⟩ := hreport budget t
  have hrefused : refused ["VARINT x 7", "HLT x"] =
      [⟨1, .decode (.wrongArity .halt 1), "HLT x"⟩] := by
    decide +kernel
  rw [hrefused, List.mem_singleton] at hr
  subst hr
  exact ⟨reported, hreported, htext.trans (by decide +kernel)⟩

end Listing
end LineMachine
