import LineMachine.Proofs.CommandLine.Assistant
import LineMachine.Proofs.CommandLine.ProgramText
import LineMachine.Proofs.Text.Fence
import Mathlib.Data.List.TakeWhile

/-!
# What becomes of a proposed program

A reply proposes the program between its fences.  The user is asked about it until there is
an answer; after a yes the file holds the program and nothing else, and in every other case
nothing is written.  A reply without two fences proposes nothing, and nobody is asked.

**Input.**  The reply of an assistant, and the lines that the user enters.

**Results.**
* `Assistant.asked_append`: the questions, one for each line that is no answer.
* `Assistant.proposals_are_written_on_consent`: what is written, and which lines are read.
-/

namespace LineMachine
namespace Assistant

open Text

section Answers

variable {skipped rest : List String} {answer : String}

theorem isAnswer_iff {line : String} :
    isAnswer line = true ↔ (line = "y" ∨ line = "Y") ∨ line = "n" ∨ line = "N" := by
  simp only [isAnswer, decide_eq_true_eq, or_assoc]

/-- The first answer comes after the lines that are none. -/
theorem dropWhile_answer (hskipped : ∀ line, line ∈ skipped → isAnswer line = false)
    (hanswer : isAnswer answer = true) (rest : List String) :
    (skipped ++ answer :: rest).dropWhile (fun line => !isAnswer line) = answer :: rest := by
  rw [List.dropWhile_append_of_pos fun line hline => by rw [hskipped line hline]; rfl,
    List.dropWhile_cons_of_neg (by simp [hanswer])]

theorem asked_append (hskipped : ∀ line, line ∈ skipped → isAnswer line = false)
    (hrest : ∀ line, line ∈ rest.head? → isAnswer line = true) :
    asked (skipped ++ rest) = questions skipped.length := by
  have hend : rest.takeWhile (fun line => !isAnswer line) = [] := by
    cases rest with
    | nil => rfl
    | cons line rest => exact List.takeWhile_cons_of_neg (by simp [hrest line rfl])
  rw [asked, List.takeWhile_append_of_pos fun line hline => by
    rw [hskipped line hline]; rfl, hend, List.append_nil]

end Answers

/-- A name without slashes, other than the empty one and the dots, under which there is nothing
in the current directory. -/
structure IsUnused (t : FileTree) (name : String) : Prop where
  component : FileTree.components name = [name]
  proper : name ≠ "" ∧ name ≠ "." ∧ name ≠ ".."
  current : t.entryAt t.current = .directory
  nothing : t.entryAt (t.current ++ [name]) = .nothing

/-- A file that there is can be written, and so can one that is made in the current
directory. -/
theorem exists_write_of_readable_or_unused {t : FileTree} {name : String}
    (h : (∃ old, t.read name = .ok old) ∨ IsUnused t name) (bytes : ByteArray) :
    ∃ t', t.write name bytes = .ok t' := by
  rcases h with ⟨old, hread⟩ | hunused
  · exact FileTree.exists_write hread bytes
  · have hplace := FileTree.place_of_component hunused.component hunused.proper hunused.current
      hunused.nothing
    exact ⟨_, FileTree.write_eq_ok_iff.mpr ⟨_, hplace, rfl⟩⟩

/-- **A proposal is written on consent, and only then.**  The lines are read up to the first
answer.  If it is a yes, the file holds just the program that stands between the fences, and
every other file is as it was; a file that is missing is made.  If it is a no, or if there is
none, nothing is written.  A reply without two fences that share no character is no proposal. -/
theorem proposals_are_written_on_consent (file : String) (s : Session) :
    (∀ front info program back : String, '\x60' ∉ front.toList → '\x60' ∉ info.toList →
      '\n' ∉ info.toList → '\x60' ∉ program.toList →
      ∀ skipped : List String, (∀ line, line ∈ skipped → isAnswer line = false) →
        (∀ answer rest, answer = "y" ∨ answer = "Y" →
          (∃ e, s.files.write file program.toUTF8 = .error e ∧
            propose file (fencedText front info program back) (skipped ++ answer :: rest) s =
              .error (.file file e) (s.print (questions skipped.length))) ∨
          ∃ files s', propose file (fencedText front info program back)
              (skipped ++ answer :: rest) s = .ok (true, rest) s' ∧
            s' = { s.print (questions skipped.length) with files } ∧
            files.read file = .ok program.toUTF8 ∧
            Shell.readLines file s' = .ok (programLines program) s' ∧
            ∀ other, files.find other ≠ files.find file → ∀ bytes,
              files.read other = .ok bytes ↔ s.files.read other = .ok bytes) ∧
        (∀ answer rest, answer = "n" ∨ answer = "N" →
          propose file (fencedText front info program back) (skipped ++ answer :: rest) s =
            .ok (false, rest) (s.print (questions skipped.length))) ∧
        propose file (fencedText front info program back) skipped s =
          .error .endOfInput (s.print (questions skipped.length))) ∧
    ((∃ old, s.files.read file = .ok old) ∨ IsUnused s.files file →
      ∀ bytes, ∃ files, s.files.write file bytes = .ok files) ∧
    ∀ reply : String, ¬ HasTwoFences reply.toList →
      ∀ input, propose file reply input s = .ok (false, input) s := by
  refine ⟨?_, exists_write_of_readable_or_unused,
    fun reply hreply input => propose_of_no_block file input s (fencedBlock?_eq_none hreply)⟩
  · intro front info program back hfront hinfo hline hprogram skipped hskipped
    have hblock := fencedBlock?_fencedText hfront hinfo hline hprogram back
    -- the questions that are asked before an answer
    have hasked : ∀ answer rest, isAnswer answer = true →
        asked (skipped ++ answer :: rest) = questions skipped.length := by
      intro answer rest hanswer
      refine asked_append hskipped ?_
      rintro _ ⟨⟩
      exact hanswer
    refine ⟨fun answer rest hyes => ?_, fun answer rest hno => ?_, ?_⟩
    · have hanswer := isAnswer_iff.mpr (Or.inl hyes)
      have hdrop := dropWhile_answer hskipped hanswer rest
      cases hwrite : s.files.write file program.toUTF8 with
      | error e =>
          refine Or.inl ⟨e, rfl, ?_⟩
          rw [propose_of_unwritable hdrop hblock hwrite hyes, hasked answer rest hanswer]
      | ok files =>
          have hpropose := propose_of_consent hdrop hblock hwrite hyes
          rw [hasked answer rest hanswer] at hpropose
          have hfile := FileTree.read_of_write hwrite
          exact Or.inr ⟨files, _, hpropose, rfl, hfile, Shell.readLines_of_text hfile,
            fun other => FileTree.read_of_write_iff hwrite⟩
    · have hanswer := isAnswer_iff.mpr (Or.inr hno)
      have hdrop := dropWhile_answer hskipped hanswer rest
      have hno' : ¬ (answer = "y" ∨ answer = "Y") := by
        rcases hno with rfl | rfl <;> decide
      rw [propose_of_refusal hdrop hblock file hno' s, hasked answer rest hanswer]
    · have hdrop : skipped.dropWhile (fun line => !isAnswer line) = [] :=
        List.dropWhile_eq_nil_iff.mpr fun line hline => by rw [hskipped line hline]; rfl
      have hquestions : asked skipped = questions skipped.length := by
        have hend : ∀ line, line ∈ ([] : List String).head? → isAnswer line = true := by
          rintro _ ⟨⟩
        rw [← asked_append hskipped hend, List.append_nil]
      rw [propose_of_silence hblock file hdrop s, hquestions]

/-- A session without any files, in the directory of the session `.ofFile`. -/
def noFiles : Session :=
  { Session.ofFile "" with files := .emptyAt (Session.ofFile "").files.current }

/-- A yes after a line that is no answer, for a file that there is and for one that is made;
and five grave accents, which hold two fences, but none that share no character. -/
theorem proposals_are_written_on_consent_afterQuestion :
    (∃ s', propose "p" (fencedText "Try\n" "wl" "VARINT y 2\nCHS y" " or ``` else")
        ["what?", "Y", "n"] (.ofFile "CHS y\n") = .ok (true, ["n"]) s' ∧
      Shell.readLines "p" s' = .ok (programLines "VARINT y 2\nCHS y") s') ∧
    (∃ s', propose "p" (fencedText "Try\n" "wl" "VARINT y 2\nCHS y" " or ``` else")
        ["what?", "Y", "n"] noFiles = .ok (true, ["n"]) s' ∧
      Shell.readLines "p" s' = .ok (programLines "VARINT y 2\nCHS y") s') ∧
    propose "p" "`````" ["y"] (.ofFile "CHS y\n") = .ok (false, ["y"]) (.ofFile "CHS y\n") := by
  have hskipped : ∀ line, line ∈ ["what?"] → isAnswer line = false :=
    List.forall_mem_singleton.mpr (by decide)
  -- whatever the files are, as long as the name can be written to
  have hwritten : ∀ s : Session, (∃ old, s.files.read "p" = .ok old) ∨ IsUnused s.files "p" →
      ∃ s', propose "p" (fencedText "Try\n" "wl" "VARINT y 2\nCHS y" " or ``` else")
          ["what?", "Y", "n"] s = .ok (true, ["n"]) s' ∧
        Shell.readLines "p" s' = .ok (programLines "VARINT y 2\nCHS y") s' := by
    intro s hplain
    obtain ⟨hproposal, hwritable, _⟩ := proposals_are_written_on_consent "p" s
    obtain ⟨hyes, _⟩ := hproposal "Try\n" "wl" "VARINT y 2\nCHS y" " or ``` else" (by decide)
      (by decide) (by decide) (by decide) _ hskipped
    rcases hyes "Y" ["n"] (Or.inr rfl) with ⟨e, herror, _⟩ | ⟨_, s', hpropose, _, _, hlines, _⟩
    · obtain ⟨files, hwrite⟩ := hwritable hplain "VARINT y 2\nCHS y".toUTF8
      rw [herror] at hwrite
      cases hwrite
    · exact ⟨s', hpropose, hlines⟩
  have hname : FileTree.components "p" = ["p"] := Shell.components_p
  obtain ⟨_, _, hnone⟩ := proposals_are_written_on_consent "p" (.ofFile "CHS y\n")
  refine ⟨hwritten _ (Or.inl ⟨_, Shell.read_ofFile _⟩),
    hwritten _ (Or.inr ⟨hname, by decide, by decide, by decide⟩), hnone _ ?_ _⟩
  rintro ⟨front, body, back, h⟩
  have hlength := congrArg List.length h
  simp only [List.length_append] at hlength
  have hfive : "`````".toList.length = 5 := by decide
  have hthree : fence.length = 3 := rfl
  omega

end Assistant
end LineMachine
