import LineMachine.CommandLine.Invocation
import LineMachine.Proofs.CommandLine.Shell

/-!
# Computations that only print

Most of what the command line does adds messages to the transcript and leaves the files
and the requests alone, whether it returns or escapes.  The listing, the runs to
completion and the prompt are made of such computations; only a conversation with an
assistant does more.

**Results.**
* `Shell.Prints`: the computation prints, and does nothing else.
* `Shell.Prints.bind`: what is made of such computations is one.
* `Invocation.prints_dispatch`: without an assistant the command line only prints.
-/

namespace LineMachine
namespace Shell

/-- The computation prints, and does nothing else; what escapes from it, if anything
does, is in `P`. -/
def Prints {α : Type} (P : Escape → Prop) (x : Shell α) : Prop :=
  ∀ s, ∃ ms, (∃ a, x s = .ok a (s.print ms)) ∨ ∃ e, x s = .error e (s.print ms) ∧ P e

section Binds

variable {α β : Type} {P : Escape → Prop}

theorem Prints.bind {x : Shell α} {f : α → Shell β} (hx : Prints P x)
    (hf : ∀ a, Prints P (f a)) : Prints P (x >>= f) := by
  intro s
  obtain ⟨ms, ⟨a, ha⟩ | ⟨e, he, hP⟩⟩ := hx s
  · obtain ⟨ms', hrest⟩ := hf a (s.print ms)
    rw [Session.print_print] at hrest
    rw [bind_of_ok ha]
    exact ⟨ms ++ ms', hrest⟩
  · exact ⟨ms, Or.inr ⟨e, bind_of_error he, hP⟩⟩

theorem prints_pure (a : α) : Prints P (pure a) :=
  fun s => ⟨[], Or.inl ⟨a, by rw [Session.print_nil]; rfl⟩⟩

theorem prints_throw {e : Escape} (he : P e) : Prints P (throw e : Shell α) :=
  fun s => ⟨[], Or.inr ⟨e, by rw [Session.print_nil]; rfl, he⟩⟩

theorem prints_say (message : Message) : Prints P (say message) :=
  fun s => ⟨[message], Or.inl ⟨(), say_eq message s⟩⟩

theorem prints_ofLimited (hlimit : ∀ e, P (.limit e)) (x : Except Numeral.DigitLimit α) :
    Prints P (ofLimited x) := by
  cases x with
  | ok a => exact prints_pure a
  | error e => exact prints_throw (hlimit e)

theorem prints_forM {f : α → Shell Unit} (hf : ∀ a, Prints P (f a)) (as : List α) :
    Prints P (as.forM f) := by
  induction as with
  | nil => exact prints_pure ()
  | cons a as ih => exact (hf a).bind fun _ => ih

end Binds

section Machines

variable {P : Escape → Prop}

theorem prints_showMemory (hlimit : ∀ e, P (.limit e)) (m : Machine) :
    Prints P (showMemory m) := by
  refine (prints_say _).bind fun _ => ?_
  refine (prints_forM (fun b => ?_) m.memory.bindings).bind fun _ => prints_say _
  exact (prints_ofLimited hlimit _).bind fun text => prints_say _

theorem prints_report (hlimit : ∀ e, P (.limit e)) (habandoned : P .abandoned) (file : String)
    (budget : Option Int) (m : Machine) : Prints P (report file budget m) := by
  unfold report
  cases m.status with
  | halted => exact prints_pure 0
  | faulted =>
      dsimp only
      cases m.faultReport? with
      | none => exact prints_pure 1
      | some r => exact (prints_say _).bind fun _ => prints_pure 1
  | running =>
      dsimp only
      cases budget with
      | none => exact prints_throw habandoned
      | some n =>
          refine (prints_ofLimited hlimit _).bind fun text => ?_
          exact (prints_say _).bind fun _ => prints_pure 1

theorem prints_runQuietly (hlimit : ∀ e, P (.limit e)) (patience : Nat) (budget : Option Int)
    (m : Machine) : Prints P (runQuietly patience budget m) := by
  unfold runQuietly
  split
  · exact prints_pure _
  · exact prints_throw (hlimit _)

theorem prints_stepTraced (hlimit : ∀ e, P (.limit e)) (m : Machine) :
    Prints P (stepTraced m) := by
  unfold stepTraced
  split
  · exact prints_throw (hlimit _)
  · rename_i m' _
    dsimp only
    split
    · refine (prints_say _).bind fun _ => ?_
      exact (prints_showMemory hlimit m').bind fun _ => prints_pure m'
    · exact prints_pure m'

theorem prints_traceFor (hlimit : ∀ e, P (.limit e)) (n : Nat) (m : Machine) :
    Prints P (traceFor n m) := by
  induction n generalizing m with
  | zero => exact prints_pure m
  | succ n ih =>
      refine (prints_stepTraced hlimit m).bind fun m' => ?_
      split
      · exact ih m'
      · exact prints_pure m'

end Machines

section Files

/-- Any escape. -/
def AnyEscape (_ : Escape) : Prop :=
  True

theorem prints_readText (file : String) : Prints AnyEscape (readText file) := by
  intro s
  refine ⟨[], ?_⟩
  rw [Session.print_nil, readText, bind_of_ok (rfl : (get : Shell Session) s = .ok s s)]
  cases s.files.read file with
  | error e => exact Or.inr ⟨_, rfl, trivial⟩
  | ok bytes =>
      dsimp only
      cases String.fromUTF8? bytes with
      | none => exact Or.inr ⟨_, rfl, trivial⟩
      | some text => exact Or.inl ⟨text, rfl⟩

theorem prints_readLines (file : String) : Prints AnyEscape (readLines file) :=
  (prints_readText file).bind fun _ => prints_pure _

theorem prints_readProgram (file : String) : Prints AnyEscape (readProgram file) :=
  (prints_readLines file).bind fun _ => prints_pure _

end Files

end Shell

open Shell

theorem Listing.prints_list (file : String) : Prints AnyEscape (Listing.list file) := by
  have hlines : ∀ lines number, Prints AnyEscape (Listing.listLines file number lines) := by
    intro lines
    induction lines with
    | nil => exact fun _ => prints_pure true
    | cons line lines ih =>
        intro number
        refine Prints.bind ?_ fun here => (ih (number + 1)).bind fun below => prints_pure _
        unfold Listing.listLine
        split
        · exact (prints_say _).bind fun _ => prints_pure true
        · exact (prints_say _).bind fun _ => prints_pure false
        · exact prints_throw trivial
  exact (prints_readLines file).bind fun lines => (hlines lines 0).bind fun _ => prints_pure _

theorem Batch.prints_run (patience : Nat) (file : String) (budget : Option Int) (trace : Bool) :
    Prints AnyEscape (Batch.run patience file budget trace) := by
  have hlimit : ∀ e, AnyEscape (.limit e) := fun _ => trivial
  have hreport := prints_report hlimit trivial file budget
  have hend : ∀ m, Prints AnyEscape (do
      if m.status = .halted ∧ trace = false then
        Shell.say (.haltedAt m.pc m.steps)
        Shell.showMemory m
      Shell.report file budget m) := by
    intro m
    dsimp only
    split
    · refine (prints_say _).bind fun _ => ?_
      exact (prints_showMemory hlimit m).bind fun _ => hreport m
    · exact hreport m
  refine (prints_readProgram file).bind fun m => ?_
  split
  · exact (prints_traceFor hlimit _ m).bind hend
  · exact (prints_runQuietly hlimit patience budget m).bind hend

namespace Prompt

variable (patience : Nat) (file : String) (budget : Option Int)

theorem prints_conclude (m : Machine) : Prints AnyEscape (conclude file budget m) := by
  refine (prints_report (fun _ => trivial) trivial file budget m).bind fun status => ?_
  split
  · exact prints_say _
  · exact prints_pure ()

theorem prints_answer (m : Machine) (line : String) :
    Prints AnyEscape (answer patience file budget m line) := by
  unfold answer
  split
  · exact (prints_say _).bind fun _ => prints_pure _
  · refine Prints.bind ((prints_stepTraced (fun _ => trivial) m).bind fun m' => ?_)
      fun _ => prints_pure _
    dsimp only
    split
    · exact (prints_conclude file budget m').bind fun _ => prints_pure m'
    · exact prints_pure m'
  · refine Prints.bind ((prints_traceFor (fun _ => trivial) _ m).bind fun m' => ?_)
      fun _ => prints_pure _
    exact (prints_conclude file budget m').bind fun _ => prints_pure m'
  · exact prints_pure none

theorem prints_converse (m : Machine) (lines : List String) :
    Prints AnyEscape (converse patience file budget m lines) := by
  induction lines generalizing m with
  | nil => exact (prints_say _).bind fun _ => prints_pure m
  | cons line lines ih =>
      refine (prints_say _).bind fun _ => (prints_answer patience file budget m line).bind ?_
      rintro (_ | m')
      · exact prints_pure m
      · exact ih m'

theorem prints_run (input : List String) :
    Prints AnyEscape (run patience file budget input) := by
  refine (prints_readProgram file).bind fun m => ?_
  exact (prints_converse patience file budget m input).bind fun _ => prints_pure _

end Prompt

/-- **Without an assistant the command line only prints**, whatever else it is asked. -/
theorem Invocation.prints_dispatch (c : Invocation) {o : Options}
    (ho : o.dis = true ∨ o.ai = false) (file : String) :
    Prints AnyEscape (c.dispatch o file) := by
  unfold dispatch
  by_cases hdis : o.dis = true
  · rw [if_pos hdis]
    exact Listing.prints_list file
  · have hai : ¬ o.ai = true := by
      rw [ho.resolve_left hdis]
      exact Bool.false_ne_true
    rw [if_neg hdis, if_neg hai]
    split
    · exact Batch.prints_run c.patience file o.maxSteps o.trace
    · exact Prompt.prints_run c.patience file o.maxSteps c.input

end LineMachine
