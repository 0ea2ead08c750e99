import LineMachine.Proofs.CommandLine.Shell
import LineMachine.Proofs.Text.Lines
import Mathlib.Data.List.Forall2

/-!
# The program in a file

The lines that a machine starts on are those that were written to the file, each with
either line end.  Whatever the file holds, they are told from its text by the line feeds
alone; so the number of a line, which a jump goes by, is the number of line feeds before it.

**Input.**  A file that can be read.

**Results.**
* `Shell.readLines_of_text`: the lines that are read from a text.
* `Shell.text_and_lines_correspond`: what they have to do with the text.
-/

namespace LineMachine
namespace Shell

open Text

variable {file text : String} {s : Session}

theorem readLines_of_text (hread : s.files.read file = .ok text.toUTF8) :
    readLines file s = .ok (programLines text) s :=
  readLines_eq_ok_iff.mpr ⟨rfl, _, text, hread, fromUTF8?_toUTF8 text, rfl⟩

/-- The line at a place of a program that was read. -/
theorem lineAt?_programLines_iff (text : String) {pc : Int} {line : String} :
    Machine.lineAt? (programLines text).toArray pc = some line ↔
      0 ≤ pc ∧ ∃ p, PieceAfter text.toList pc.toNat p ∧ TrimmedTo p line := by
  rw [← getElem?_programLines_iff, ← List.getElem?_toArray, Machine.lineAt?]
  by_cases hpc : 0 ≤ pc <;> simp [hpc]

/-- **The text of a program and its lines correspond.**  Lines that were written with line
ends are read again.  Any text is a row of pieces, which end at the line feeds and nowhere
else, and its lines are the pieces less at most one carriage return; so they are as many as
the line feeds, with one more for what stands after the last, and the line at a place of the
program is the one after as many line feeds. -/
theorem text_and_lines_correspond (hread : s.files.read file = .ok text.toUTF8) :
    ∃ lines, readLines file s = .ok lines s ∧
      readProgram file s = .ok (.ofProgram lines.toArray) s ∧
      (∀ ls last, (∀ l, l ∈ ls → IsLine l.1) → IsLine last → text = ended ls last →
        lines = endedLines ls last) ∧
      (∃ ps, Pieces text.toList ps ∧ List.Forall₂ TrimmedTo ps lines) ∧
      lines.length = text.toList.count '\n' +
        (if text ≠ "" ∧ text.toList.getLast? ≠ some '\n' then 1 else 0) ∧
      (∀ line, line ∈ lines → '\n' ∉ line.toList) ∧
      ∀ m : Machine, m.program = lines.toArray → ∀ line, m.line? = some line ↔
        0 ≤ m.pc ∧ ∃ p, PieceAfter text.toList m.pc.toNat p ∧ TrimmedTo p line := by
  have hlines := readLines_of_text hread
  obtain ⟨ps, hps⟩ := exists_pieces text.toList
  have hmap := programLines_of_pieces hps
  refine ⟨programLines text, hlines, readProgram_of_readLines hlines, ?_, ⟨ps, hps, ?_⟩, ?_, ?_, ?_⟩
  · rintro ls last hls hlast rfl
    exact programLines_ended hls hlast
  · rw [hmap, List.forall₂_map_right_iff, List.forall₂_same]
    exact fun p _ => trimmedTo_iff.mpr rfl
  · rw [hmap, List.length_map, hps.length_eq]
    simp only [ne_eq, String.toList_eq_nil_iff]
  · intro line hline
    rw [hmap] at hline
    obtain ⟨p, hp, htrimmed⟩ := List.mem_map.mp hline
    exact not_mem_of_trimmedTo (trimmedTo_iff.mpr htrimmed) (hps.not_mem p hp)
  · intro m hm line
    rw [Machine.line?, hm]
    exact lineAt?_programLines_iff text

/-- Both line ends, an empty line, and a last line with a separator of another kind. -/
theorem text_and_lines_correspond_mixed :
    readLines "p" (.ofFile "IF x 2\r\n\nCHS\u2028x") =
      .ok ["IF x 2", "", "CHS\u2028x"] (.ofFile "IF x 2\r\n\nCHS\u2028x") := by
  obtain ⟨lines, hlines, _, hwritten, _⟩ := text_and_lines_correspond
    (read_ofFile "IF x 2\r\n\nCHS\u2028x")
  have hended : ∀ l, l ∈ [("IF x 2", LineEnd.returnFeed), ("", LineEnd.feed)] → IsLine l.1 := by
    simp only [List.forall_mem_cons, IsLine]
    decide
  obtain rfl := hwritten _ "CHS\u2028x" hended (by unfold IsLine; decide) (by decide)
  exact hlines

end Shell
end LineMachine
