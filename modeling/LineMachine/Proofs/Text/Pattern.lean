import LineMachine.Proofs.Text.Words

/-!
# Patterns

A text is read with patterns.  A pattern matches a beginning of the text and leaves the
rest; patterns are put after one another, in place of one another, and one as often as it
matches.  What is matched is handed to an action, which may refuse it.

The patterns come from a library, and all that is known of it are its laws: what each
kind of pattern does with a text.

**Input.**  The characters that are left of a text.

**Failure.**  A pattern that does not match leaves the text to the patterns that may stand
in its place.  Within a sequence that has begun to match there are none: the failure is
final.  So is a refusal.

**Results.**
* `PatternLibrary.Lawful`: what the patterns of a library do.
* `PatternLibrary.functions`, `PatternLibrary.lawful_functions`: such a library.
-/

namespace LineMachine
namespace Text

/-- Why a text is not matched. -/
inductive Stop where
  /-- The pattern does not match; one that may stand in its place is tried. -/
  | mismatch
  /-- The pattern does not match after it has begun to. -/
  | stuck
  /-- What the pattern has matched is not converted. -/
  | refused (e : Numeral.DigitLimit)
deriving DecidableEq, Repr

/-- The outcome of matching a beginning of a text: what is read, and the rest. -/
abbrev Match (α : Type) : Type := Except Stop (α × List Char)

/-- An expression matches some characters at the beginning of a text, or none do. -/
abbrev Expression : Type := List Char → Option (List Char × List Char)

/-- The patterns that a grammar of lines is made of. -/
structure PatternLibrary where
  Pattern : Type → Type
  /-- Matches a beginning of a text. -/
  run {α : Type} : Pattern α → List Char → Match α
  /-- Matches a whole text. -/
  runAll {α : Type} : Pattern α → List Char → Except Stop α
  /-- What matches an expression. -/
  matching : Expression → Pattern String
  /-- What is made of a match by an action. -/
  act {α β : Type} : Pattern α → (α → Except Numeral.DigitLimit β) → Pattern β
  /-- One pattern after another; past the first there is no way back. -/
  andThen {α β : Type} : Pattern α → Pattern β → Pattern (α × β)
  /-- One pattern, or another in its place. -/
  orElse {α : Type} : Pattern α → Pattern α → Pattern α
  /-- A pattern as often as it matches. -/
  many {α : Type} : Pattern α → Pattern (List α)

namespace PatternLibrary

/-- What the patterns of a library do. -/
structure Lawful (L : PatternLibrary) : Prop where
  /-- The margin before a match is skipped. -/
  run_matching (e : Expression) (cs : List Char) :
    L.run (L.matching e) cs =
      match e (cs.dropWhile Numeral.isMargin) with
      | some (w, rest) => .ok (String.ofList w, rest)
      | none => .error .mismatch
  run_act {α β : Type} (p : L.Pattern α) (f : α → Except Numeral.DigitLimit β) (cs : List Char) :
    L.run (L.act p f) cs =
      match L.run p cs with
      | .ok (a, rest) => (f a).mapError Stop.refused |>.map (·, rest)
      | .error s => .error s
  run_andThen {α β : Type} (p : L.Pattern α) (q : L.Pattern β) (cs : List Char) :
    L.run (L.andThen p q) cs =
      match L.run p cs with
      | .ok (a, rest) =>
        match L.run q rest with
        | .ok (b, rest) => .ok ((a, b), rest)
        | .error (.refused e) => .error (.refused e)
        | .error _ => .error .stuck
      | .error s => .error s
  run_orElse {α : Type} (p q : L.Pattern α) (cs : List Char) :
    L.run (L.orElse p q) cs =
      match L.run p cs with
      | .error .mismatch => L.run q cs
      | result => result
  run_many_of_mismatch {α : Type} (p : L.Pattern α) (cs : List Char)
    (h : L.run p cs = .error .mismatch) : L.run (L.many p) cs = .ok ([], cs)
  /-- A pattern that has matched something is tried again. -/
  run_many_of_ok {α : Type} (p : L.Pattern α) (cs : List Char) {a : α} {rest : List Char}
    (h : L.run p cs = .ok (a, rest)) (hlt : rest.length < cs.length) {as : List α}
    {rest' : List Char} (hmany : L.run (L.many p) rest = .ok (as, rest')) :
    L.run (L.many p) cs = .ok (a :: as, rest')
  /-- The margin after a match is skipped, and must be all that is left. -/
  runAll_eq {α : Type} (p : L.Pattern α) (cs : List Char) :
    L.runAll p cs =
      match L.run p cs with
      | .ok (a, rest) => if rest.all Numeral.isMargin then .ok a else .error .mismatch
      | .error s => .error s

section Laws

variable {L : PatternLibrary} {α β : Type} {cs : List Char}

theorem Lawful.run_act_eq_mismatch_iff (hL : L.Lawful) {p : L.Pattern α}
    {f : α → Except Numeral.DigitLimit β} :
    L.run (L.act p f) cs = .error .mismatch ↔ L.run p cs = .error .mismatch := by
  rw [hL.run_act]
  cases hp : L.run p cs with
  | error s => simp
  | ok r =>
      obtain ⟨a, rest⟩ := r
      dsimp only
      cases f a <;> simp [Except.mapError, Except.map]

/-- A sequence gives way to others only at its first pattern. -/
theorem Lawful.run_andThen_eq_mismatch_iff (hL : L.Lawful) {p : L.Pattern α}
    {q : L.Pattern β} :
    L.run (L.andThen p q) cs = .error .mismatch ↔ L.run p cs = .error .mismatch := by
  rw [hL.run_andThen]
  cases hp : L.run p cs with
  | error s => simp
  | ok r =>
      obtain ⟨a, rest⟩ := r
      dsimp only
      cases hq : L.run q rest with
      | ok r => simp
      | error s => cases s <;> simp

theorem Lawful.run_orElse_of_mismatch (hL : L.Lawful) {p q : L.Pattern α}
    (hp : L.run p cs = .error .mismatch) : L.run (L.orElse p q) cs = L.run q cs := by
  rw [hL.run_orElse, hp]

/-- Nothing else is tried where a pattern matches or is stuck. -/
theorem Lawful.run_orElse_of_ne (hL : L.Lawful) {p q : L.Pattern α}
    (hp : L.run p cs ≠ .error .mismatch) : L.run (L.orElse p q) cs = L.run p cs := by
  rw [hL.run_orElse]
  cases hrun : L.run p cs with
  | ok r => rfl
  | error s =>
      cases s with
      | mismatch => exact absurd hrun hp
      | stuck => rfl
      | refused e => rfl

end Laws

section Functions

variable {α β : Type}

/-- As often as the function matches; it is not tried again where it has matched
nothing. -/
def repeated (p : List Char → Match α) (cs : List Char) : Match (List α) :=
  match p cs with
  | .error .mismatch => .ok ([], cs)
  | .error s => .error s
  | .ok (a, rest) =>
    if rest.length < cs.length then
      match repeated p rest with
      | .ok (as, rest) => .ok (a :: as, rest)
      | .error s => .error s
    else .ok ([a], rest)
termination_by cs.length

/-- The library whose patterns are functions. -/
def functions : PatternLibrary where
  Pattern α := List Char → Match α
  run p cs := p cs
  runAll p cs :=
    match p cs with
    | .ok (a, rest) => if rest.all Numeral.isMargin then .ok a else .error .mismatch
    | .error s => .error s
  matching e cs :=
    match e (cs.dropWhile Numeral.isMargin) with
    | some (w, rest) => .ok (String.ofList w, rest)
    | none => .error .mismatch
  act p f cs :=
    match p cs with
    | .ok (a, rest) => (f a).mapError Stop.refused |>.map (·, rest)
    | .error s => .error s
  andThen p q cs :=
    match p cs with
    | .ok (a, rest) =>
      match q rest with
      | .ok (b, rest) => .ok ((a, b), rest)
      | .error (.refused e) => .error (.refused e)
      | .error _ => .error .stuck
    | .error s => .error s
  orElse p q cs :=
    match p cs with
    | .error .mismatch => q cs
    | result => result
  many p := repeated p

theorem repeated_of_mismatch {p : List Char → Match α} {cs : List Char}
    (h : p cs = .error .mismatch) : repeated p cs = .ok ([], cs) := by
  rw [repeated, h]

theorem repeated_of_ok {p : List Char → Match α} {cs : List Char} {a : α} {rest : List Char}
    (h : p cs = .ok (a, rest)) (hlt : rest.length < cs.length) {as : List α}
    {rest' : List Char} (hmany : repeated p rest = .ok (as, rest')) :
    repeated p cs = .ok (a :: as, rest') := by
  rw [repeated, h]
  dsimp only
  rw [if_pos hlt, hmany]

theorem lawful_functions : functions.Lawful where
  run_matching _ _ := rfl
  run_act _ _ _ := rfl
  run_andThen _ _ _ := rfl
  run_orElse _ _ _ := rfl
  run_many_of_mismatch _ _ h := repeated_of_mismatch h
  run_many_of_ok _ _ _ _ h hlt _ _ hmany := repeated_of_ok h hlt hmany
  runAll_eq _ _ := rfl

end Functions

end PatternLibrary
end Text
end LineMachine
