import LineMachine.Proofs.CommandLine.FileTree

/-!
# Computations on a session

A computation on a session returns or escapes.  When its parts return, and what they
leave printed, decides the same for the whole.

**Results.**
* `Session.print_print`: messages are printed one after the other.
* `Shell.bind_eq_ok_iff`: a computation that goes on with another returns if both do.
* `Shell.readLines_eq_ok_iff`: when the lines of a file are read, and which.
* `Shell.report_of_fault`: what is reported of a machine that has met a fault.
-/

namespace LineMachine

/-- The session with more messages printed. -/
def Session.print (s : Session) (ms : List Message) : Session :=
  { s with transcript := s.transcript ++ ms.toArray }

theorem Session.print_print (s : Session) (ms ms' : List Message) :
    (s.print ms).print ms' = s.print (ms ++ ms') := by
  simp [print]

@[simp] theorem Session.print_nil (s : Session) : s.print [] = s := by
  simp [print]

theorem Session.print_singleton (s : Session) (message : Message) :
    s.print [message] = { s with transcript := s.transcript.push message } := by
  simp [print]

/-- A session with one file, and nothing else. -/
def Session.ofFile (text : String) : Session :=
  .start ⟨[(["p"], text.toUTF8)], [], []⟩

@[simp] theorem Message.stream_listed (number : Nat) (inst : Instruction) :
    (Message.listed number inst).stream = .output :=
  rfl

@[simp] theorem Message.stream_unreadable (file : String) (number : Nat) (reason : Fault)
    (source : String) : (Message.unreadable file number reason source).stream = .error :=
  rfl

@[simp] theorem Message.stream_fault (file : String) (r : FaultReport) :
    (Message.fault file r).stream = .error :=
  rfl

namespace Shell

theorem say_eq (message : Message) (s : Session) : say message s = .ok () (s.print [message]) := by
  rw [Session.print_singleton]
  rfl

section Binds

variable {α β : Type} {x : Shell α} {f : α → Shell β} {s s' : Session}

theorem bind_of_ok {a : α} (h : x s = .ok a s') : (x >>= f) s = f a s' := by
  show EStateM.bind x f s = f a s'
  rw [EStateM.bind, h]

theorem bind_of_error {e : Escape} (h : x s = .error e s') : (x >>= f) s = .error e s' := by
  show EStateM.bind x f s = .error e s'
  rw [EStateM.bind, h]

theorem bind_eq_ok_iff {b : β} {s'' : Session} :
    (x >>= f) s = .ok b s'' ↔ ∃ a s', x s = .ok a s' ∧ f a s' = .ok b s'' := by
  cases hx : x s with
  | ok a s' =>
      rw [bind_of_ok hx]
      constructor
      · exact fun h => ⟨a, s', rfl, h⟩
      · rintro ⟨_, _, heq, h⟩
        cases heq
        exact h
  | error e s' =>
      rw [bind_of_error hx]
      constructor
      · intro h
        cases h
      · rintro ⟨_, _, heq, _⟩
        cases heq

end Binds

/-- The session after a computation, whether this returned or escaped. -/
def sessionAfter {α : Type} : EStateM.Result Escape Session α → Session
  | .ok _ s => s
  | .error _ s => s

section Files

variable {file : String} {s s' : Session}

theorem readText_eq_ok_iff {text : String} :
    readText file s = .ok text s' ↔
      s' = s ∧ ∃ bytes, s.files.read file = .ok bytes ∧ String.fromUTF8? bytes = some text := by
  rw [readText, bind_of_ok (rfl : (get : Shell Session) s = .ok s s)]
  cases hread : s.files.read file with
  | error e =>
      constructor
      · intro h
        cases h
      · rintro ⟨_, bytes, h, _⟩
        cases h
  | ok bytes =>
      dsimp only
      cases hdecode : String.fromUTF8? bytes with
      | none =>
          constructor
          · intro h
            cases h
          · rintro ⟨_, bytes', h, h'⟩
            cases h
            rw [hdecode] at h'
            cases h'
      | some text' =>
          constructor
          · intro h
            cases h
            exact ⟨rfl, bytes, rfl, hdecode⟩
          · rintro ⟨rfl, bytes', h, h'⟩
            cases h
            rw [hdecode] at h'
            cases h'
            rfl

/-- The lines read are those of the text of the file; nothing changes. -/
theorem readLines_eq_ok_iff {lines : List String} :
    readLines file s = .ok lines s' ↔
      s' = s ∧ ∃ bytes text, s.files.read file = .ok bytes ∧
        String.fromUTF8? bytes = some text ∧ Text.programLines text = lines := by
  rw [readLines, bind_eq_ok_iff]
  constructor
  · rintro ⟨text, s₁, htext, h⟩
    obtain ⟨rfl, bytes, hread, hdecode⟩ := readText_eq_ok_iff.mp htext
    cases h
    exact ⟨rfl, bytes, text, hread, hdecode, rfl⟩
  · rintro ⟨rfl, bytes, text, hread, hdecode, rfl⟩
    exact ⟨text, s', readText_eq_ok_iff.mpr ⟨rfl, bytes, hread, hdecode⟩, rfl⟩

theorem readProgram_of_readLines {lines : List String} (h : readLines file s = .ok lines s) :
    readProgram file s = .ok (.ofProgram lines.toArray) s :=
  bind_of_ok h

theorem components_p : FileTree.components "p" = ["p"] := by
  show "p".splitOnAux "/" 0 0 0 [] = ["p"]
  rw [String.splitOnAux, if_neg (by decide), if_neg (by decide), String.splitOnAux,
    if_pos (by decide)]
  decide

/-- The only file of a session has the text that it was made with. -/
theorem read_ofFile (text : String) : (Session.ofFile text).files.read "p" = .ok text.toUTF8 := by
  rw [FileTree.read, FileTree.find, FileTree.locate, if_neg (by decide), components_p]
  rfl

theorem readLines_ofFile (text : String) :
    readLines "p" (.ofFile text) = .ok (Text.programLines text) (.ofFile text) :=
  readLines_eq_ok_iff.mpr ⟨rfl, _, text, read_ofFile text, fromUTF8?_toUTF8 text, rfl⟩

end Files

/-- A machine that has met a fault is reported with it, whatever the budget was. -/
theorem report_of_fault {m : Machine} {r : FaultReport} (hstatus : m.status = .faulted)
    (hreport : m.faultReport? = some r) (file : String) (budget : Option Int) (s : Session) :
    report file budget m s = .ok 1 (s.print [.fault file r]) := by
  rw [report, hstatus, Session.print_singleton]
  dsimp only
  rw [hreport]
  rfl

/-- A machine that runs on is reported with the budget that was too small. -/
theorem report_of_running {m : Machine} {n : Int} {text : String} (hstatus : m.status = .running)
    (htext : Numeral.text n = .ok text) (file : String) (s : Session) :
    report file (some n) m s = .ok 1 (s.print [.noHalt file text]) := by
  rw [report, hstatus, Session.print_singleton]
  dsimp only
  rw [htext]
  rfl

/-- A machine that has halted is not reported. -/
theorem report_of_halted {m : Machine} (hstatus : m.status = .halted) (file : String)
    (budget : Option Int) (s : Session) : report file budget m s = .ok 0 s := by
  rw [report, hstatus]
  rfl

/-- The exit status of a run that has been reported. -/
def exitStatus (m : Machine) : Nat :=
  if m.status = .halted then 0 else 1

theorem eq_exitStatus_of_report {m : Machine} {file : String} {budget : Option Int}
    {s s' : Session} {status : Nat} (h : report file budget m s = .ok status s') :
    status = exitStatus m := by
  rw [report] at h
  rw [exitStatus]
  cases hstatus : m.status with
  | halted =>
      rw [hstatus] at h
      cases h
      rfl
  | faulted =>
      rw [hstatus] at h
      dsimp only at h
      cases hreport : m.faultReport? <;> rw [hreport] at h <;> cases h <;> rfl
  | running =>
      rw [hstatus] at h
      dsimp only at h
      cases budget with
      | none => cases h
      | some n =>
          obtain ⟨text, s₁, _, h⟩ := bind_eq_ok_iff.mp h
          cases h
          rfl

end Shell
end LineMachine
