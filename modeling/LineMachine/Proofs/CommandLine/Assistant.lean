import LineMachine.Proofs.CommandLine.Printing
import LineMachine.Proofs.Machine.Lifecycle

/-!
# What an assistant may change

In a conversation with an assistant the program file has a sequence of versions.  The
next version comes from a proposal: the version before it has met a fault, the reply to
the request about it has a fenced block, and the user has accepted it.  Nothing else is
ever written, and the conversation ends at the first version that is run without such a
proposal after it.

**Input.**  A file that can be read; the replies of the assistant and the lines of the
user, whatever they are.

**Invariant.**  At the start of every round the file holds the current version, and one
request has been sent for each version before it.

**Results.**
* `Assistant.converse_step`: one round of a conversation.
* `Assistant.exists_rounds`: a conversation is a sequence of accepted proposals.
* `Assistant.Rounds.read`, `Assistant.Rounds.requests`: what such a sequence leaves behind.
* `Invocation.assistant_changes_by_consent`: what the command line changes.
-/

namespace LineMachine

/-- The session with more messages printed and a request sent. -/
def Session.send (s : Session) (ms : List Message) (request : Request) : Session :=
  { s.print ms with requests := s.requests.push request }

theorem Session.print_send (s : Session) (ms ms' : List Message) (request : Request) :
    (s.send ms request).print ms' = s.send (ms ++ ms') request := by
  simp [send, print]

theorem Session.size_requests_send (s : Session) (ms : List Message) (request : Request) :
    (s.send ms request).requests.size = s.requests.size + 1 :=
  Array.size_push request

namespace Assistant

/-- The machine that a version of the program is run to; `none` if the version cannot be
read or an error escapes from its run. -/
def ended? (patience : Nat) (budget : Option Int) (version : ByteArray) : Option Machine :=
  match String.fromUTF8? version with
  | none => none
  | some text =>
    match Machine.run patience budget (.ofProgram (Text.programLines text).toArray) with
    | .ok _ m => some m
    | .error _ _ => none

/-- Whether the run of a version ends with the status. -/
def endsAs (patience : Nat) (budget : Option Int) (status : Status) (version : ByteArray) :
    Bool :=
  match ended? patience budget version with
  | none => false
  | some m => m.status = status

/-- Whether a line is a yes or a no. -/
def isAnswer (line : String) : Bool :=
  line = "y" ∨ line = "Y" ∨ line = "n" ∨ line = "N"

/-- The question about a proposal, and again after each of some lines that are no answer. -/
def questions (n : Nat) : List Message :=
  .proposal :: List.replicate n .invalidAnswer

/-- The questions that are asked until one of the lines is an answer. -/
def asked (input : List String) : List Message :=
  questions (input.takeWhile fun line => !isAnswer line).length

/-- The reply proposes the block, and the first answer among the lines is a yes; the other
lines are those after it. -/
def Consents (reply : String) (input : List String) (block : String) (rest : List String) :
    Prop :=
  Text.fencedBlock? reply = some block ∧
    ∃ answer, input.dropWhile (fun line => !isAnswer line) = answer :: rest ∧
      (answer = "y" ∨ answer = "Y")

/-- A point of a conversation, with the replies and the lines that are still to come. -/
structure Stage where
  session : Session
  replies : List Reply
  input : List String

/-- From one point of a conversation to the next: the version in the file meets a fault, a
request is sent, the reply proposes a block, the user accepts it, and the block is
written. -/
inductive Accepts (patience : Nat) (file : String) (budget : Option Int) :
    Stage → String → Stage → Prop
  | intro {s : Session} {replies : List Reply} {input rest : List String} {version : ByteArray}
      {text : Option String} {block : String} {files : FileTree}
      (hread : s.files.read file = .ok version)
      (hfault : endsAs patience budget .faulted version = true)
      (hconsents : Consents (text.getD "") input block rest)
      (hwrite : s.files.write file block.toUTF8 = .ok files)
      (request : Request) (ms : List Message) :
      Accepts patience file budget ⟨s, .content text :: replies, input⟩ block
        ⟨{ s.send ms request with files }, replies, rest⟩

/-- A sequence of accepted proposals, with the blocks that were written. -/
inductive Rounds (patience : Nat) (file : String) (budget : Option Int) :
    Stage → List String → Stage → Prop
  | done (a : Stage) : Rounds patience file budget a [] a
  | accept {a b c : Stage} {block : String} {blocks : List String}
      (haccept : Accepts patience file budget a block b)
      (hrounds : Rounds patience file budget b blocks c) :
      Rounds patience file budget a (block :: blocks) c

/-- The escape is not about a file. -/
def NotFile (e : Escape) : Prop :=
  ∀ name error, e ≠ .file name error

/-- How a conversation ends in a session whose file holds the version: nothing is written,
and a request is sent if the version meets a fault. -/
structure Ends (patience : Nat) (budget : Option Int) (version : ByteArray) (s : Session)
    (result : EStateM.Result Escape Session Nat) : Prop where
  files : (Shell.sessionAfter result).files = s.files
  requests : (Shell.sessionAfter result).requests.size =
    s.requests.size + (endsAs patience budget .faulted version).toNat
  status : ∀ code s', result = .ok code s' →
    (code = 0 ↔ endsAs patience budget .halted version = true)
  escape : ∀ e s', result = .error e s' → NotFile e

section Answers

variable {input rest : List String} {answer : String} {s : Session}

theorem consent_of_ignored {line : String} {lines : List String} (h : ¬ isAnswer line = true)
    (s : Session) :
    consent (line :: lines) s = consent lines (s.print [.invalidAnswer]) := by
  simp only [isAnswer, decide_eq_true_eq, not_or] at h
  obtain ⟨hy, hY, hn, hN⟩ := h
  rw [consent, if_neg (by simp [hy, hY]), if_neg (by simp [hn, hN]),
    Shell.bind_of_ok (Shell.say_eq _ s)]

/-- Lines that are no answer are met with the question again. -/
theorem consent_eq (input : List String) (s : Session) :
    consent input s = consent (input.dropWhile fun line => !isAnswer line)
      (s.print (List.replicate (input.takeWhile fun line => !isAnswer line).length
        .invalidAnswer)) := by
  induction input generalizing s with
  | nil => rw [List.takeWhile_nil, List.length_nil, List.replicate_zero, Session.print_nil]; rfl
  | cons line lines ih =>
      by_cases hline : isAnswer line = true
      · rw [List.dropWhile_cons_of_neg (by simp [hline]), List.takeWhile_cons_of_neg
          (by simp [hline]), List.length_nil, List.replicate_zero, Session.print_nil]
      · rw [List.dropWhile_cons_of_pos (by simp [hline]), List.takeWhile_cons_of_pos
          (by simp [hline]), consent_of_ignored hline, ih, Session.print_print, List.length_cons,
          List.replicate_succ, List.singleton_append]

theorem consent_of_nil (h : input.dropWhile (fun line => !isAnswer line) = []) (s : Session) :
    consent input s = .error .endOfInput
      (s.print (List.replicate (input.takeWhile fun line => !isAnswer line).length
        .invalidAnswer)) := by
  rw [consent_eq, h]
  rfl

theorem consent_of_cons (h : input.dropWhile (fun line => !isAnswer line) = answer :: rest)
    (s : Session) :
    consent input s = .ok (decide (answer = "y" ∨ answer = "Y"), rest)
      (s.print (List.replicate (input.takeWhile fun line => !isAnswer line).length
        .invalidAnswer)) := by
  have hanswer : isAnswer answer = true := by
    have hstop := List.head?_dropWhile_not (fun line => !isAnswer line) input
    rw [h] at hstop
    simpa using hstop
  rw [consent_eq, h, consent]
  by_cases hyes : answer = "y" ∨ answer = "Y"
  · rw [if_pos hyes, decide_eq_true hyes]
    rfl
  · have hno : answer = "n" ∨ answer = "N" := by
      simp only [isAnswer, decide_eq_true_eq] at hanswer
      rcases hanswer with hy | hY | hno
      · exact absurd (Or.inl hy) hyes
      · exact absurd (Or.inr hY) hyes
      · exact hno
    rw [if_neg hyes, if_pos hno, decide_eq_false hyes]
    rfl

end Answers

section Attempts

variable {patience : Nat} {file : String} {budget : Option Int} {version : ByteArray}
  {s : Session}

theorem readText_of_read (hread : s.files.read file = .ok version) :
    (∃ text, String.fromUTF8? version = some text ∧ Shell.readText file s = .ok text s) ∨
      String.fromUTF8? version = none ∧ Shell.readText file s = .error .undecodable s := by
  rw [Shell.readText, Shell.bind_of_ok (rfl : (get : Shell Session) s = .ok s s), hread]
  dsimp only
  cases hdecode : String.fromUTF8? version with
  | none => exact Or.inr ⟨rfl, rfl⟩
  | some text => exact Or.inl ⟨text, rfl, rfl⟩

/-- The machine that a version is run to, if it is run at all. -/
theorem runQuietly_of_read (patience : Nat) (budget : Option Int)
    (hread : s.files.read file = .ok version) :
    (∃ m, ended? patience budget version = some m ∧ Machine.Reachable m ∧
        (Shell.readProgram file >>= Shell.runQuietly patience budget) s = .ok m s) ∨
      ended? patience budget version = none ∧ ∃ e, NotFile e ∧
        (Shell.readProgram file >>= Shell.runQuietly patience budget) s = .error e s := by
  rcases readText_of_read hread with ⟨text, hdecode, htext⟩ | ⟨hdecode, htext⟩
  · have hprogram : Shell.readProgram file s =
        .ok (.ofProgram (Text.programLines text).toArray) s := by
      refine Shell.readProgram_of_readLines ?_
      exact Shell.bind_of_ok htext
    rw [Shell.bind_of_ok hprogram, Shell.runQuietly, ended?, hdecode]
    dsimp only
    cases hrun : Machine.run patience budget (.ofProgram (Text.programLines text).toArray) with
    | ok status m =>
        refine Or.inl ⟨m, rfl, ?_, rfl⟩
        have hreach := Machine.Reachable.call (.run patience budget)
          (.start (Text.programLines text).toArray)
        rw [Machine.Call.perform, hrun, Machine.final] at hreach
        exact hreach
    | error e m =>
        refine Or.inr ⟨rfl, .limit e, ?_, rfl⟩
        intro name error h
        cases h
  · have hprogram : Shell.readProgram file s = .error .undecodable s :=
      Shell.bind_of_error (Shell.bind_of_error htext)
    rw [Shell.bind_of_error hprogram, ended?, hdecode]
    refine Or.inr ⟨rfl, .undecodable, ?_, rfl⟩
    intro name error h
    cases h

/-- What follows a run without a fault. -/
def conclude (file : String) (budget : Option Int) (m : Machine) : Shell (Nat ⊕ FaultReport) := do
  if m.status = .halted then Shell.showMemory m
  return .inl (← Shell.report file budget m)

theorem exitStatus_of_conclude {m : Machine} {a : Nat ⊕ FaultReport} {s s' : Session}
    (h : conclude file budget m s = .ok a s') : a = .inl (Shell.exitStatus m) := by
  have hreport : ∀ s, (do return .inl (← Shell.report file budget m) :
      Shell (Nat ⊕ FaultReport)) s = .ok a s' → a = .inl (Shell.exitStatus m) := by
    intro s h
    obtain ⟨status, s₁, hstatus, h⟩ := Shell.bind_eq_ok_iff.mp h
    cases h
    rw [Shell.eq_exitStatus_of_report hstatus]
  unfold conclude at h
  dsimp only at h
  split at h
  · obtain ⟨_, s₁, _, h⟩ := Shell.bind_eq_ok_iff.mp h
    exact hreport s₁ h
  · exact hreport s h

theorem notFile_limit (e : Numeral.DigitLimit) : NotFile (.limit e) := by
  intro name error h
  cases h

theorem prints_conclude (file : String) (budget : Option Int) (m : Machine) :
    Shell.Prints NotFile (conclude file budget m) := by
  have habandoned : NotFile .abandoned := by
    intro name error h
    cases h
  have hreport : Shell.Prints NotFile (do return .inl (← Shell.report file budget m) :
      Shell (Nat ⊕ FaultReport)) :=
    (Shell.prints_report notFile_limit habandoned file budget m).bind fun _ => Shell.prints_pure _
  unfold conclude
  dsimp only
  split
  · exact (Shell.prints_showMemory notFile_limit m).bind fun _ => hreport
  · exact hreport

theorem attempt_eq {m : Machine}
    (hrun : (Shell.readProgram file >>= Shell.runQuietly patience budget) s = .ok m s) :
    attempt patience file budget s =
      match m.status, m.faultReport? with
      | .faulted, some r => .ok (.inr r) s
      | _, _ => conclude file budget m s := by
  obtain ⟨m₀, s₀, hread, hquiet⟩ := Shell.bind_eq_ok_iff.mp hrun
  rw [attempt, Shell.bind_of_ok hread, Shell.bind_of_ok hquiet]
  unfold conclude
  cases m.status <;> cases m.faultReport? <;> rfl

theorem attempt_of_error {e : Escape} {s' : Session}
    (hrun : (Shell.readProgram file >>= Shell.runQuietly patience budget) s = .error e s') :
    attempt patience file budget s = .error e s' := by
  cases hread : Shell.readProgram file s with
  | error e₀ s₀ =>
      rw [Shell.bind_of_error hread] at hrun
      cases hrun
      exact Shell.bind_of_error hread
  | ok m₀ s₀ =>
      rw [Shell.bind_of_ok hread] at hrun
      rw [attempt, Shell.bind_of_ok hread, Shell.bind_of_error hrun]

/-- A run of the version in the file: it meets a fault; or it does not, and the session
ends with it. -/
theorem attempt_cases (patience : Nat) (budget : Option Int)
    (hread : s.files.read file = .ok version) :
    (endsAs patience budget .faulted version = true ∧
        ∃ r, attempt patience file budget s = .ok (.inr r) s) ∨
      endsAs patience budget .faulted version = false ∧ ∃ ms,
        (∃ code, attempt patience file budget s = .ok (.inl code) (s.print ms) ∧
          (code = 0 ↔ endsAs patience budget .halted version = true)) ∨
        ∃ e, attempt patience file budget s = .error e (s.print ms) ∧ NotFile e := by
  rcases runQuietly_of_read patience budget hread with
    ⟨m, hended, hreach, hrun⟩ | ⟨hended, e, he, hrun⟩
  · have hattempt := attempt_eq hrun
    rw [endsAs, hended, endsAs, hended]
    dsimp only
    by_cases hfaulted : m.status = .faulted
    · obtain ⟨_, _, _, f, _, _, hreport, _⟩ := (Machine.status_tells_all hreach).2.1 hfaulted
      rw [hfaulted, hreport] at hattempt
      exact Or.inl ⟨decide_eq_true hfaulted, _, hattempt⟩
    · have hconclude : attempt patience file budget s = conclude file budget m s := by
        rw [hattempt]
        cases hstatus : m.status with
        | running => rfl
        | halted => rfl
        | faulted => exact absurd hstatus hfaulted
      refine Or.inr ⟨decide_eq_false hfaulted, ?_⟩
      rw [hconclude]
      obtain ⟨ms, ⟨a, ha⟩ | herror⟩ := prints_conclude file budget m s
      · obtain rfl := exitStatus_of_conclude ha
        refine ⟨ms, Or.inl ⟨_, ha, ?_⟩⟩
        by_cases hhalted : m.status = .halted <;> simp [Shell.exitStatus, hhalted]
      · exact ⟨ms, Or.inr herror⟩
  · rw [endsAs, hended]
    refine Or.inr ⟨rfl, [], Or.inr ⟨e, ?_, he⟩⟩
    rw [Session.print_nil]
    exact attempt_of_error hrun

end Attempts

section Rounds

variable {patience : Nat} {file : String} {budget : Option Int} {version : ByteArray}
  {s : Session} {replies : List Reply} {input : List String}

theorem decodes_of_endsAs {status : Status} (h : endsAs patience budget status version = true) :
    ∃ text, String.fromUTF8? version = some text := by
  unfold endsAs ended? at h
  cases hdecode : String.fromUTF8? version with
  | none =>
      rw [hdecode] at h
      cases h
  | some text => exact ⟨text, rfl⟩

theorem endsAs_toUTF8 (patience : Nat) (budget : Option Int) (status : Status) (text : String) :
    endsAs patience budget status text.toUTF8 =
      match Machine.run patience budget (.ofProgram (Text.programLines text).toArray) with
      | .ok _ m => decide (m.status = status)
      | .error _ _ => false := by
  rw [endsAs, ended?, fromUTF8?_toUTF8]
  dsimp only
  cases Machine.run patience budget (.ofProgram (Text.programLines text).toArray) <;> rfl

theorem endsAs_halted_of_faulted (h : endsAs patience budget .faulted version = true) :
    endsAs patience budget .halted version = false := by
  unfold endsAs at h ⊢
  split at h
  · cases h
  · rw [of_decide_eq_true h]
    rfl

theorem exists_ask (hread : s.files.read file = .ok version)
    (hfault : endsAs patience budget .faulted version = true) (model : String)
    (fault : FaultReport) :
    ∃ ms request, ask file model fault s = .ok () (s.send ms request) := by
  obtain ⟨text, hdecode⟩ := decodes_of_endsAs hfault
  have htext : Shell.readText file s = .ok text s :=
    Shell.readText_eq_ok_iff.mpr ⟨rfl, version, hread, hdecode⟩
  refine ⟨[.fault file fault, .asking model],
    ⟨model, question (Text.unifyLineEnds text) fault.text⟩, ?_⟩
  rw [ask, Shell.bind_of_ok htext, Shell.bind_of_ok (Shell.say_eq _ s),
    Shell.bind_of_ok (Shell.say_eq _ _), Session.print_print]
  rfl

/-- A reply without a fenced block proposes nothing, and nobody is asked. -/
theorem propose_of_no_block {reply : String} (file : String) (input : List String) (s : Session)
    (hblock : Text.fencedBlock? reply = none) :
    propose file reply input s = .ok (false, input) s := by
  rw [propose, hblock]
  rfl

section Proposals

variable {reply block : String} {rest : List String}

theorem propose_of_block (hblock : Text.fencedBlock? reply = some block) (file : String)
    (input : List String) (s : Session) :
    propose file reply input s = (do
      let answer ← consent input
      if answer.1 then writeProgram file block
      return answer : Shell (Bool × List String)) (s.print [.proposal]) := by
  rw [propose, hblock]
  dsimp only
  rw [Shell.bind_of_ok (Shell.say_eq _ s)]

/-- The lines end before there is an answer. -/
theorem propose_of_silence (hblock : Text.fencedBlock? reply = some block) (file : String)
    (hnone : input.dropWhile (fun line => !isAnswer line) = []) (s : Session) :
    propose file reply input s = .error .endOfInput (s.print (asked input)) := by
  have hconsent := consent_of_nil hnone (s.print [.proposal])
  rw [Session.print_print] at hconsent
  rw [propose_of_block hblock, Shell.bind_of_error hconsent]
  rfl

variable {answer : String} (hanswer : input.dropWhile (fun line => !isAnswer line) = answer :: rest)

include hanswer

/-- A proposal that is turned down is not written. -/
theorem propose_of_refusal (hblock : Text.fencedBlock? reply = some block) (file : String)
    (hno : ¬ (answer = "y" ∨ answer = "Y")) (s : Session) :
    propose file reply input s = .ok (false, rest) (s.print (asked input)) := by
  have hconsent := consent_of_cons hanswer (s.print [.proposal])
  rw [decide_eq_false hno, Session.print_print] at hconsent
  rw [propose_of_block hblock, Shell.bind_of_ok hconsent]
  rfl

/-- After a yes the block is written. -/
theorem propose_of_yes (hblock : Text.fencedBlock? reply = some block)
    (hyes : answer = "y" ∨ answer = "Y") (s : Session) :
    propose file reply input s =
      (writeProgram file block >>= fun _ => pure (true, rest) : Shell _)
        (s.print (asked input)) := by
  have hconsent := consent_of_cons hanswer (s.print [.proposal])
  rw [decide_eq_true hyes, Session.print_print] at hconsent
  rw [propose_of_block hblock, Shell.bind_of_ok hconsent]
  dsimp only
  rw [if_pos rfl, List.singleton_append, ← questions, ← asked]

/-- A proposal that is accepted is written. -/
theorem propose_of_consent {files : FileTree} (hblock : Text.fencedBlock? reply = some block)
    (hwrite : s.files.write file block.toUTF8 = .ok files) (hyes : answer = "y" ∨ answer = "Y") :
    propose file reply input s = .ok (true, rest) { s.print (asked input) with files } := by
  have hprogram : writeProgram file block (s.print (asked input)) =
      .ok () { s.print (asked input) with files } := by
    rw [writeProgram, Shell.bind_of_ok (rfl : (get : Shell Session) _ = .ok _ _)]
    have hfiles : (s.print (asked input)).files = s.files := rfl
    rw [hfiles, hwrite]
    rfl
  rw [propose_of_yes hanswer hblock hyes, Shell.bind_of_ok hprogram]
  rfl

/-- A proposal that is accepted, for a name under which no file can be written. -/
theorem propose_of_unwritable {e : FileError} (hblock : Text.fencedBlock? reply = some block)
    (hwrite : s.files.write file block.toUTF8 = .error e) (hyes : answer = "y" ∨ answer = "Y") :
    propose file reply input s = .error (.file file e) (s.print (asked input)) := by
  have hprogram : writeProgram file block (s.print (asked input)) =
      .error (.file file e) (s.print (asked input)) := by
    rw [writeProgram, Shell.bind_of_ok (rfl : (get : Shell Session) _ = .ok _ _)]
    have hfiles : (s.print (asked input)).files = s.files := rfl
    rw [hfiles, hwrite]
    rfl
  rw [propose_of_yes hanswer hblock hyes, Shell.bind_of_error hprogram]

end Proposals

/-- Nothing is written without a proposal that is accepted. -/
theorem propose_of_not_consents {reply : String} (file : String)
    (h : ∀ block rest, ¬ Consents reply input block rest) :
    ∃ ms, (∃ rest, propose file reply input s = .ok (false, rest) (s.print ms)) ∨
      propose file reply input s = .error .endOfInput (s.print ms) := by
  cases hblock : Text.fencedBlock? reply with
  | none =>
      refine ⟨[], Or.inl ⟨input, ?_⟩⟩
      rw [Session.print_nil]
      exact propose_of_no_block file input s hblock
  | some block =>
      cases hanswer : input.dropWhile (fun line => !isAnswer line) with
      | nil => exact ⟨_, Or.inr (propose_of_silence hblock file hanswer s)⟩
      | cons answer rest =>
          have hno : ¬ (answer = "y" ∨ answer = "Y") := fun hyes =>
            h block rest ⟨hblock, answer, hanswer, hyes⟩
          exact ⟨_, Or.inl ⟨rest, propose_of_refusal hanswer hblock file hno s⟩⟩

/-- Only a reply with a text is a reason to go on. -/
theorem receive_of_not_content {reply : Reply} (h : ∀ text, reply ≠ .content text) (s : Session) :
    ∃ ms, receive reply s = .ok none (s.print ms) ∨
      ∃ e, receive reply s = .error e (s.print ms) ∧ NotFile e := by
  cases reply with
  | content text => exact absurd rfl (h text)
  | unreachable cause => exact ⟨[.unreachable cause], Or.inl (Shell.bind_of_ok (Shell.say_eq _ s))⟩
  | rateLimited => exact ⟨[.rateLimited], Or.inl (Shell.bind_of_ok (Shell.say_eq _ s))⟩
  | refused code response =>
      exact ⟨[.refused code response], Or.inl (Shell.bind_of_ok (Shell.say_eq _ s))⟩
  | broken message =>
      refine ⟨[], Or.inr ⟨.assistant message, by rw [Session.print_nil]; rfl, ?_⟩⟩
      intro name error h
      cases h

theorem ends_ok_of_fault {s' : Session} (hfault : endsAs patience budget .faulted version = true)
    (hfiles : s'.files = s.files) (hrequests : s'.requests.size = s.requests.size + 1) :
    Ends patience budget version s (.ok 1 s') where
  files := hfiles
  requests := by
    rw [hfault]
    exact hrequests
  status code s'' h := by
    cases h
    rw [endsAs_halted_of_faulted hfault]
    decide
  escape e s'' h := by cases h

theorem ends_error_of_fault {s' : Session} {e : Escape}
    (hfault : endsAs patience budget .faulted version = true) (he : NotFile e)
    (hfiles : s'.files = s.files) (hrequests : s'.requests.size = s.requests.size + 1) :
    Ends patience budget version s (.error e s') where
  files := hfiles
  requests := by
    rw [hfault]
    exact hrequests
  status code s'' h := by cases h
  escape e' s'' h := by
    cases h
    exact he

/-- A version that meets no fault ends the conversation. -/
theorem ends_of_not_fault (interactive : Bool) (model : String) (replies : List Reply)
    (input : List String) (hfault : endsAs patience budget .faulted version = false)
    (hattempt : ∃ ms, (∃ code, attempt patience file budget s = .ok (.inl code) (s.print ms) ∧
        (code = 0 ↔ endsAs patience budget .halted version = true)) ∨
      ∃ e, attempt patience file budget s = .error e (s.print ms) ∧ NotFile e) :
    Ends patience budget version s
      (converse patience file budget interactive model replies input s) := by
  obtain ⟨ms, ⟨code, hok, hcode⟩ | ⟨e, herror, he⟩⟩ := hattempt
  · have hresult : converse patience file budget interactive model replies input s =
        .ok code (s.print ms) := by
      cases replies <;> exact Shell.bind_of_ok hok
    rw [hresult]
    refine ⟨rfl, by rw [hfault]; rfl, fun code' s' h => ?_, fun e s' h => ?_⟩
    · cases h
      exact hcode
    · cases h
  · have hresult : converse patience file budget interactive model replies input s =
        .error e (s.print ms) := by
      cases replies <;> exact Shell.bind_of_error herror
    rw [hresult]
    refine ⟨rfl, by rw [hfault]; rfl, fun code' s' h => ?_, fun e' s' h => ?_⟩
    · cases h
    · cases h
      exact he

/-- A round of a conversation after a reply with a text. -/
theorem converse_content_cases (interactive : Bool) (model : String) (text : Option String)
    (replies : List Reply) (input : List String) {fault : FaultReport} {ms : List Message}
    {request : Request}
    (hread : s.files.read file = .ok version)
    (hfault : endsAs patience budget .faulted version = true)
    (hattempt : attempt patience file budget s = .ok (.inr fault) s)
    (hask : ask file model fault s = .ok () (s.send ms request)) :
    (Ends patience budget version s
        (converse patience file budget interactive model (.content text :: replies) input s) ∧
      (interactive = true → ∀ block rest, ¬ Consents (text.getD "") input block rest)) ∨
    interactive = true ∧ ∃ block b, b.replies = replies ∧
      Accepts patience file budget ⟨s, .content text :: replies, input⟩ block b ∧
      converse patience file budget interactive model (.content text :: replies) input s =
        converse patience file budget interactive model b.replies b.input b.session := by
  have hstart : converse patience file budget interactive model (.content text :: replies) input s =
      (if interactive then do
        let answer ← propose file (text.getD "") input
        if answer.1 then converse patience file budget interactive model replies answer.2
        else return 1
      else return 1 : Shell Nat) (s.send (ms ++ [.reply (text.getD "")]) request) := by
    rw [converse, Shell.bind_of_ok hattempt]
    dsimp only
    rw [Shell.bind_of_ok hask, receive,
      Shell.bind_of_ok (rfl : (pure (some (text.getD "")) : Shell (Option String)) _ = .ok _ _)]
    dsimp only
    rw [Shell.bind_of_ok (Shell.say_eq _ _), Session.print_send]
  rw [hstart]
  cases interactive with
  | false =>
      refine Or.inl ⟨?_, fun h => by cases h⟩
      exact ends_ok_of_fault hfault rfl (Session.size_requests_send _ _ _)
  | true =>
      rw [if_pos rfl]
      by_cases hconsents : ∃ block rest, Consents (text.getD "") input block rest
      · obtain ⟨block, rest, hconsents⟩ := hconsents
        have ⟨hblock, answer, hanswer, hyes⟩ := hconsents
        obtain ⟨files, hwrite⟩ := FileTree.exists_write hread block.toUTF8
        have hpropose := propose_of_consent
          (s := s.send (ms ++ [.reply (text.getD "")]) request) hanswer hblock hwrite hyes
        refine Or.inr ⟨rfl, block, _, rfl, .intro hread hfault hconsents hwrite request
          (ms ++ [.reply (text.getD "")] ++ asked input), ?_⟩
        rw [Shell.bind_of_ok hpropose, Session.print_send]
        rfl
      · have hnot : ∀ block rest, ¬ Consents (text.getD "") input block rest :=
          fun block rest h => hconsents ⟨block, rest, h⟩
        refine Or.inl ⟨?_, fun _ => hnot⟩
        obtain ⟨ms', ⟨rest, hpropose⟩ | hpropose⟩ := propose_of_not_consents
          (s := s.send (ms ++ [.reply (text.getD "")]) request) file hnot
        · rw [Session.print_send] at hpropose
          rw [Shell.bind_of_ok hpropose]
          exact ends_ok_of_fault hfault rfl (Session.size_requests_send _ _ _)
        · rw [Session.print_send] at hpropose
          rw [Shell.bind_of_error hpropose]
          refine ends_error_of_fault hfault ?_ rfl (Session.size_requests_send _ _ _)
          intro name error h
          cases h

/-- A proposal is accepted only if the version meets a fault and the user consents. -/
theorem Accepts.inv {a b : Stage} {block : String}
    (h : Accepts patience file budget a block b)
    (hread : a.session.files.read file = .ok version) :
    endsAs patience budget .faulted version = true ∧
      ∃ text replies rest, a.replies = .content text :: replies ∧
        Consents (text.getD "") a.input block rest := by
  cases h with
  | intro hread' hfault hconsents hwrite =>
      rw [hread] at hread'
      cases hread'
      exact ⟨hfault, _, _, _, rfl, hconsents⟩

/-- **One round of a conversation.**  It ends, and no proposal is accepted; or a proposal
is accepted, and the conversation goes on with what it has written. -/
theorem converse_step (patience : Nat) (budget : Option Int) (interactive : Bool)
    (model : String) (replies : List Reply) (input : List String)
    (hread : s.files.read file = .ok version) :
    (Ends patience budget version s
        (converse patience file budget interactive model replies input s) ∧
      (interactive = true → ∀ block b,
        ¬ Accepts patience file budget ⟨s, replies, input⟩ block b)) ∨
    interactive = true ∧ ∃ reply block b, replies = reply :: b.replies ∧
      Accepts patience file budget ⟨s, replies, input⟩ block b ∧
      converse patience file budget interactive model replies input s =
        converse patience file budget interactive model b.replies b.input b.session := by
  rcases attempt_cases patience budget hread with ⟨hfault, fault, hattempt⟩ | ⟨hfault, hattempt⟩
  · obtain ⟨ms, request, hask⟩ := exists_ask hread hfault model fault
    have hsize := Session.size_requests_send s ms request
    cases replies with
    | nil =>
        refine Or.inl ⟨?_, fun _ block b h => ?_⟩
        · rw [converse, Shell.bind_of_ok hattempt]
          dsimp only
          rw [Shell.bind_of_ok hask]
          refine ends_error_of_fault hfault ?_ rfl hsize
          intro name error h
          cases h
        · obtain ⟨_, _, _, _, hreplies, _⟩ := h.inv hread
          cases hreplies
    | cons reply replies =>
        by_cases hcontent : ∃ text, reply = .content text
        · obtain ⟨text, rfl⟩ := hcontent
          rcases converse_content_cases interactive model text replies input hread hfault hattempt
            hask with ⟨hends, hnot⟩ | ⟨hinteractive, block, b, rfl, haccept, hgo⟩
          · refine Or.inl ⟨hends, fun hinteractive block b h => ?_⟩
            obtain ⟨_, _, _, rest, hreplies, hconsents⟩ := h.inv hread
            cases hreplies
            exact hnot hinteractive block rest hconsents
          · exact Or.inr ⟨hinteractive, .content text, block, b, rfl, haccept, hgo⟩
        · have hnot : ∀ text, reply ≠ .content text := fun text h => hcontent ⟨text, h⟩
          refine Or.inl ⟨?_, fun _ block b h => ?_⟩
          · rw [converse, Shell.bind_of_ok hattempt]
            dsimp only
            rw [Shell.bind_of_ok hask]
            obtain ⟨ms', hreceive | ⟨e, hreceive, he⟩⟩ :=
              receive_of_not_content hnot (s.send ms request)
            · rw [Session.print_send] at hreceive
              rw [Shell.bind_of_ok hreceive]
              exact ends_ok_of_fault hfault rfl (Session.size_requests_send _ _ _)
            · rw [Session.print_send] at hreceive
              rw [Shell.bind_of_error hreceive]
              exact ends_error_of_fault hfault he rfl (Session.size_requests_send _ _ _)
          · obtain ⟨_, text, _, _, hreplies, _⟩ := h.inv hread
            cases hreplies
            exact hnot text rfl
  · refine Or.inl ⟨ends_of_not_fault interactive model replies input hfault hattempt, ?_⟩
    intro _ block b h
    obtain ⟨hfault', _⟩ := h.inv hread
    rw [hfault] at hfault'
    cases hfault'

/-- What a proposal that is accepted leaves behind. -/
theorem Accepts.session {a b : Stage} {block : String}
    (h : Accepts patience file budget a block b) :
    b.session.files.read file = .ok block.toUTF8 ∧
      b.session.requests.size = a.session.requests.size + 1 ∧
      (∀ other, b.session.files.find other = a.session.files.find other) ∧
      ∀ other, a.session.files.find other ≠ a.session.files.find file →
        b.session.files.read other = a.session.files.read other := by
  cases h with
  | intro hread hfault hconsents hwrite request ms =>
      refine ⟨FileTree.read_of_write hwrite, Session.size_requests_send _ ms request, ?_, ?_⟩
      · exact fun other => FileTree.find_of_write hread hwrite other
      · exact fun other hother => FileTree.read_of_write_of_ne hread hwrite hother

/-- **A conversation is a sequence of accepted proposals**, none without the user, until a
version is run after which none is accepted. -/
theorem exists_rounds (patience : Nat) (budget : Option Int) (interactive : Bool)
    (model : String) (replies : List Reply) (input : List String)
    (hread : s.files.read file = .ok version) :
    ∃ blocks last version', Rounds patience file budget ⟨s, replies, input⟩ blocks last ∧
      (interactive = false → blocks = []) ∧
      (interactive = true → ∀ block b, ¬ Accepts patience file budget last block b) ∧
      last.session.files.read file = .ok version' ∧
      Ends patience budget version' last.session
        (converse patience file budget interactive model replies input s) := by
  induction replies generalizing s input version with
  | nil =>
      rcases converse_step patience budget interactive model [] input hread with
        ⟨hends, hnot⟩ | ⟨_, _, _, _, hreplies, _⟩
      · exact ⟨[], _, version, .done _, fun _ => rfl, hnot, hread, hends⟩
      · cases hreplies
  | cons reply replies ih =>
      rcases converse_step patience budget interactive model (reply :: replies) input hread with
        ⟨hends, hnot⟩ | ⟨hinteractive, _, block, b, hreplies, haccept, hgo⟩
      · exact ⟨[], _, version, .done _, fun _ => rfl, hnot, hread, hends⟩
      · cases hreplies
        obtain ⟨blocks, last, version', hrounds, _, hnot, hread', hends⟩ :=
          ih b.input haccept.session.1
        refine ⟨block :: blocks, last, version', .accept haccept hrounds, fun h => ?_, hnot, hread',
          ?_⟩
        · rw [hinteractive] at h
          cases h
        · rw [hgo]
          exact hends

/-- The version that the file holds after some blocks were written. -/
def lastVersion (version : ByteArray) (blocks : List String) : ByteArray :=
  (blocks.getLast?.map String.toUTF8).getD version

/-- How many of the versions, the first one and those that were written, meet a fault. -/
def faults (patience : Nat) (budget : Option Int) (version : ByteArray) (blocks : List String) :
    Nat :=
  (version :: blocks.map String.toUTF8).countP (endsAs patience budget .faulted)

theorem lastVersion_cons (version : ByteArray) (block : String) (blocks : List String) :
    lastVersion version (block :: blocks) = lastVersion block.toUTF8 blocks := by
  rw [lastVersion, lastVersion, List.getLast?_cons]
  cases blocks.getLast? <;> rfl

theorem Rounds.read {a c : Stage} {blocks : List String}
    (h : Rounds patience file budget a blocks c)
    (hread : a.session.files.read file = .ok version) :
    c.session.files.read file = .ok (lastVersion version blocks) := by
  induction h generalizing version with
  | done a => exact hread
  | accept haccept _ ih =>
      rw [lastVersion_cons]
      exact ih haccept.session.1

/-- One request is sent for every version before the last. -/
theorem Rounds.requests {a c : Stage} {blocks : List String}
    (h : Rounds patience file budget a blocks c)
    (hread : a.session.files.read file = .ok version) :
    c.session.requests.size +
        (endsAs patience budget .faulted (lastVersion version blocks)).toNat =
      a.session.requests.size + faults patience budget version blocks := by
  induction h generalizing version with
  | done a =>
      rw [faults, List.map_nil, List.countP_singleton]
      cases hfault : endsAs patience budget .faulted version <;> simp [lastVersion, hfault]
  | @accept a b c block blocks haccept _ ih =>
      have hfault := (haccept.inv hread).1
      have hcount : faults patience budget version (block :: blocks) =
          faults patience budget block.toUTF8 blocks + 1 :=
        List.countP_cons_of_pos hfault
      rw [lastVersion_cons, ih haccept.session.1, haccept.session.2.1, hcount]
      omega

/-- Other files are as they were. -/
theorem Rounds.read_of_ne {a c : Stage} {blocks : List String}
    (h : Rounds patience file budget a blocks c) {other : String}
    (hother : a.session.files.find other ≠ a.session.files.find file) :
    c.session.files.read other = a.session.files.read other := by
  induction h with
  | done a => rfl
  | accept haccept _ ih =>
      obtain ⟨_, _, hfind, hread⟩ := haccept.session
      rw [ih (by rw [hfind, hfind]; exact hother), hread other hother]

end Rounds

end Assistant

namespace Invocation

open Assistant

section Runs

variable {c : Invocation} {o : Options} {arguments : List String} {file : String} {s : Session}

theorem run_eq (hparse : Options.parse ("wl" :: c.words) = .ok (o, arguments))
    (hfile : arguments[1]? = some file) :
    c.run = tryCatch (c.dispatch o file) handle := by
  rw [run, hparse]
  dsimp only
  rw [hfile]

/-- Reporting a file that cannot be opened changes no file and sends no request. -/
theorem sessionAfter_tryCatch (x : Shell Nat) (s : Session) :
    (Shell.sessionAfter ((tryCatch x handle : Shell Nat) s)).files =
        (Shell.sessionAfter (x s)).files ∧
      (Shell.sessionAfter ((tryCatch x handle : Shell Nat) s)).requests =
        (Shell.sessionAfter (x s)).requests := by
  show (Shell.sessionAfter (EStateM.tryCatch x handle s)).files = _ ∧
    (Shell.sessionAfter (EStateM.tryCatch x handle s)).requests = _
  unfold EStateM.tryCatch
  cases x s with
  | ok a s' => exact ⟨rfl, rfl⟩
  | error e s' => cases e <;> exact ⟨rfl, rfl⟩

/-- An escape that is not about a file goes on. -/
theorem tryCatch_of_notFile {x : Shell Nat} {s : Session}
    (h : ∀ e s', x s = .error e s' → NotFile e) :
    (tryCatch x handle : Shell Nat) s = x s := by
  show EStateM.tryCatch x handle s = x s
  unfold EStateM.tryCatch
  cases hx : x s with
  | ok a s' => rfl
  | error e s' =>
      have he := h e s' hx
      cases e with
      | file name error => exact absurd rfl (he name error)
      | _ => rfl

/-- Without an assistant no file is written and no request is sent. -/
theorem unchanged_of_no_assistant (ho : o.dis = true ∨ o.ai = false) (file : String)
    (s : Session) :
    (Shell.sessionAfter (c.dispatch o file s)).files = s.files ∧
      (Shell.sessionAfter (c.dispatch o file s)).requests = s.requests := by
  obtain ⟨ms, ⟨code, hok⟩ | ⟨e, herror, _⟩⟩ := prints_dispatch c ho file s
  · rw [hok]
    exact ⟨rfl, rfl⟩
  · rw [herror]
    exact ⟨rfl, rfl⟩

theorem dispatch_of_unavailable (hdis : o.dis = false) (hai : o.ai = true) {reason : String}
    (hnone : c.assistant = .unavailable reason) (file : String) (s : Session) :
    c.dispatch o file s = .ok 1 (s.print [.noAssistant reason]) := by
  rw [dispatch, if_neg (by simp [hdis]), if_pos hai, hnone, Assistant.run,
    Shell.bind_of_ok (Shell.say_eq _ s)]
  rfl

theorem dispatch_of_replying (hdis : o.dis = false) (hai : o.ai = true) {replies : List Reply}
    (hsome : c.assistant = .replying replies) (file : String) (s : Session) :
    c.dispatch o file s = Assistant.converse c.patience file o.maxSteps o.interactive
      (Assistant.chooseModel o.model c.environmentModel) replies c.input s := by
  rw [dispatch, if_neg (by simp [hdis]), if_pos hai, hsome, Assistant.run]

/-- **An assistant changes the program by accepted proposals only.**  Without one the
command line changes no file and sends no request.  With one that cannot be had, it only
says so.  Otherwise the file holds the last block that was proposed and accepted, or what
it held at first; every other file is as it was; a request has been sent for every version
that met a fault; and the exit status tells whether the last version halts. -/
theorem assistant_changes_by_consent
    (hparse : Options.parse ("wl" :: c.words) = .ok (o, arguments))
    (hfile : arguments[1]? = some file) (s : Session) :
    let after := Shell.sessionAfter (c.run s)
    (o.dis = true ∨ o.ai = false → after.files = s.files ∧ after.requests = s.requests) ∧
    (o.dis = false → o.ai = true → ∀ version, s.files.read file = .ok version →
      (∀ reason, c.assistant = .unavailable reason →
        c.run s = .ok 1 (s.print [.noAssistant reason])) ∧
      ∀ replies, c.assistant = .replying replies →
        ∃ blocks last, Rounds c.patience file o.maxSteps ⟨s, replies, c.input⟩ blocks last ∧
          (o.interactive = false → blocks = [] ∧ after.files = s.files) ∧
          (o.interactive = true → ∀ block b,
            ¬ Accepts c.patience file o.maxSteps last block b) ∧
          after.files.read file = .ok (lastVersion version blocks) ∧
          (∀ other, s.files.find other ≠ s.files.find file →
            after.files.read other = s.files.read other) ∧
          after.requests.size =
            s.requests.size + faults c.patience o.maxSteps version blocks ∧
          ∀ code s', c.run s = .ok code s' →
            (code = 0 ↔
              endsAs c.patience o.maxSteps .halted (lastVersion version blocks) = true)) := by
  intro after
  have hrun := congrFun (run_eq hparse hfile) s
  refine ⟨fun ho => ?_, fun hdis hai version hread => ⟨fun reason hnone => ?_, ?_⟩⟩
  · obtain ⟨hfiles, hrequests⟩ := sessionAfter_tryCatch (c.dispatch o file) s
    obtain ⟨hfiles', hrequests'⟩ := unchanged_of_no_assistant (c := c) ho file s
    have hafter : after =
        Shell.sessionAfter ((tryCatch (c.dispatch o file) handle : Shell Nat) s) :=
      congrArg Shell.sessionAfter hrun
    rw [hafter]
    exact ⟨hfiles.trans hfiles', hrequests.trans hrequests'⟩
  · have hdispatch := dispatch_of_unavailable hdis hai hnone file s
    rw [hrun, tryCatch_of_notFile fun e s' h => ?_, hdispatch]
    rw [hdispatch] at h
    cases h
  · intro replies hsome
    have hdispatch := dispatch_of_replying hdis hai hsome file s
    obtain ⟨blocks, last, version', hrounds, hnone, hmost, hread', hends⟩ :=
      exists_rounds c.patience o.maxSteps o.interactive
        (Assistant.chooseModel o.model c.environmentModel) replies c.input hread
    rw [← hdispatch] at hends
    have hsame : c.run s = c.dispatch o file s := hrun.trans (tryCatch_of_notFile hends.escape)
    have hversion := hrounds.read hread
    rw [hread'] at hversion
    cases hversion
    have hfiles : after.files = last.session.files := by
      rw [← hends.files, ← hsame]
    refine ⟨blocks, last, hrounds, fun hfalse => ?_, hmost, ?_, fun other hother => ?_, ?_, ?_⟩
    · obtain rfl := hnone hfalse
      cases hrounds
      exact ⟨rfl, hfiles⟩
    · rw [hfiles]
      exact hread'
    · rw [hfiles]
      exact hrounds.read_of_ne hother
    · rw [← hrounds.requests hread, ← hends.requests, ← hsame]
    · intro code s' hcode
      rw [hsame] at hcode
      exact hends.status code s' hcode

end Runs

/-- A reply with a program in it. -/
def fixingReply : String :=
  "Try\n\x60\x60\x60\nVARINT y 2\nCHS y\n\x60\x60\x60"

/-- An invocation that asks about a program and accepts what is proposed. -/
def acceptingFix : Invocation where
  words := ["--ai", "--interactive", "p"]
  input := ["what?", "y"]
  environmentModel := none
  assistant := .replying [.content (some fixingReply)]
  patience := 9

theorem assistant_changes_by_consent_acceptingFix :
    let after := Shell.sessionAfter (acceptingFix.run (.ofFile "CHS y\n"))
    after.files.read "p" = .ok "VARINT y 2\nCHS y\n".toUTF8 ∧ after.requests.size = 1 ∧
      ∀ code s', acceptingFix.run (.ofFile "CHS y\n") = .ok code s' → code = 0 := by
  have hparse : Options.parse ("wl" :: acceptingFix.words) =
      .ok ({ Options.initial with ai := true, interactive := true }, ["wl", "p"]) := by
    decide +kernel
  have hread := Shell.read_ofFile "CHS y\n"
  have hfault : endsAs 9 none .faulted "CHS y\n".toUTF8 = true := by
    rw [endsAs_toUTF8]
    decide +kernel
  have hfixed : endsAs 9 none .faulted "VARINT y 2\nCHS y\n".toUTF8 = false := by
    rw [endsAs_toUTF8]
    decide +kernel
  have hhalts : endsAs 9 none .halted "VARINT y 2\nCHS y\n".toUTF8 = true := by
    rw [endsAs_toUTF8]
    decide +kernel
  have hblock : Text.fencedBlock? fixingReply = some "VARINT y 2\nCHS y\n" := by
    decide +kernel
  have hconsents : Consents ((some fixingReply).getD "") ["what?", "y"] "VARINT y 2\nCHS y\n" [] :=
    ⟨hblock, "y", by decide +kernel, Or.inl rfl⟩
  obtain ⟨_, hai⟩ := assistant_changes_by_consent hparse rfl (.ofFile "CHS y\n")
  obtain ⟨_, hreplying⟩ := hai rfl rfl _ hread
  obtain ⟨blocks, last, hrounds, _, hmost, hfile, _, hrequests, hcode⟩ := hreplying _ rfl
  have hblocks : blocks = ["VARINT y 2\nCHS y\n"] := by
    cases hrounds with
    | done =>
        obtain ⟨files, hwrite⟩ := FileTree.exists_write hread "VARINT y 2\nCHS y\n".toUTF8
        exact absurd (Accepts.intro hread hfault hconsents hwrite ⟨"", ""⟩ []) (hmost rfl _ _)
    | accept haccept hrest =>
        cases haccept with
        | intro _ _ hconsents' hwrite =>
            obtain rfl := Option.some.inj (hblock.symm.trans hconsents'.1)
            cases hrest with
            | done => rfl
            | accept haccept' =>
                obtain ⟨_, _, _, _, hreplies, _⟩ := haccept'.inv (FileTree.read_of_write hwrite)
                cases hreplies
  subst hblocks
  refine ⟨hfile, hrequests.trans ?_, fun code s' h => (hcode code s' h).mpr hhalts⟩
  have hcount : faults 9 none "CHS y\n".toUTF8 ["VARINT y 2\nCHS y\n"] = 1 := by
    rw [faults, List.countP_cons_of_pos hfault, List.map_cons, List.map_nil, List.countP_singleton,
      hfixed]
    rfl
  exact congrArg (0 + ·) hcount

end Invocation
end LineMachine
