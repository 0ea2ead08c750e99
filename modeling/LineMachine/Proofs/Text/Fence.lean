import LineMachine.Text.Fence

/-!
# Fences in a text

The search for a fence stops at the first one.  What is left after it holds every fence
that shares no character with it and stands further on; so a text has a fenced block just if
two of its fences share no character, and the block is found between the first fence and the
next one, whatever comes after.

**Input.**  Any sequence of characters.

**Results.**
* `breakAtFence_append`: the first fence is where no grave accent stands before it.
* `isSome_fencedBlock?_iff`: the texts that have a fenced block.
* `fencedBlock?_fencedText`: the block of a text that is written with one.
-/

namespace LineMachine
namespace Text

/-- Two fences of the text share no character. -/
def HasTwoFences (cs : List Char) : Prop :=
  ∃ front body back, cs = front ++ (fence ++ (body ++ (fence ++ back)))

/-- A program between two fences, with text before them, after them, and on the line that
the first fence opens. -/
def fencedText (front info program back : String) : String :=
  front ++ "```" ++ info ++ "\n" ++ program ++ "```" ++ back

section Searching

variable {cs front back : List Char}

theorem breakAtFenceFrom_eq (before cs : List Char) :
    breakAtFenceFrom before cs =
      (breakAtFence cs).map fun found => (before.reverse ++ found.1, found.2) := by
  rw [breakAtFence]
  induction cs generalizing before with
  | nil => rfl
  | cons c cs ih =>
      rw [breakAtFenceFrom, breakAtFenceFrom]
      split
      · simp
      · rw [ih (c :: before), ih [c], Option.map_map]
        congr 1
        funext found
        simp

theorem breakAtFence_fence (back : List Char) : breakAtFence (fence ++ back) = some ([], back) := by
  simp [breakAtFence, breakAtFenceFrom, fence]

theorem breakAtFence_cons {c : Char} (h : ¬ fence <+: c :: cs) :
    breakAtFence (c :: cs) = (breakAtFence cs).map fun found => (c :: found.1, found.2) := by
  rw [breakAtFence, breakAtFenceFrom, if_neg fun hhead => h (List.isPrefixOf_iff_prefix.mp hhead),
    breakAtFenceFrom_eq]
  rfl

/-- A text starts with a fence, or the search goes on after its first character. -/
theorem breakAtFence_cases (c : Char) (cs : List Char) :
    (∃ back, c :: cs = fence ++ back ∧ breakAtFence (c :: cs) = some ([], back)) ∨
      breakAtFence (c :: cs) = (breakAtFence cs).map fun found => (c :: found.1, found.2) := by
  by_cases h : fence <+: c :: cs
  · obtain ⟨back, hback⟩ := h
    exact Or.inl ⟨back, hback.symm, by rw [← hback, breakAtFence_fence]⟩
  · exact Or.inr (breakAtFence_cons h)

/-- What is found is a fence. -/
theorem eq_of_breakAtFence (h : breakAtFence cs = some (front, back)) :
    cs = front ++ (fence ++ back) := by
  induction cs generalizing front with
  | nil => cases h
  | cons c cs ih =>
      rcases breakAtFence_cases c cs with ⟨back', hcs, hfound⟩ | hlater
      · rw [hfound] at h
        cases h
        exact hcs
      · rw [hlater, Option.map_eq_some_iff] at h
        obtain ⟨⟨front', back'⟩, hfound, heq⟩ := h
        cases heq
        rw [ih hfound, List.cons_append]

/-- **The first fence is found where no grave accent stands before it.** -/
theorem breakAtFence_append (hfront : '\x60' ∉ front) (back : List Char) :
    breakAtFence (front ++ (fence ++ back)) = some (front, back) := by
  induction front with
  | nil => exact breakAtFence_fence back
  | cons c front ih =>
      simp only [List.mem_cons, not_or] at hfront
      rw [List.cons_append, breakAtFence_cons, ih hfront.2]
      · rfl
      · rintro ⟨rest, hrest⟩
        exact hfront.1 (List.cons.inj hrest).1

/-- A fence is found if there is one, and what stands after any fence is still to come. -/
theorem exists_breakAtFence (front back : List Char) :
    ∃ front' back', breakAtFence (front ++ (fence ++ back)) = some (front', back') ∧
      back <:+ back' := by
  induction front with
  | nil => exact ⟨[], back, breakAtFence_fence back, List.suffix_rfl⟩
  | cons c front ih =>
      obtain ⟨front', back', hfound, hback⟩ := ih
      rcases breakAtFence_cases c (front ++ (fence ++ back)) with ⟨rest, hcs, hrest⟩ | hlater
      · refine ⟨[], rest, hrest, ?_⟩
        -- the fence at the start may share characters with the other one, but not the last
        have hsuffix : rest <:+ c :: (front ++ (fence ++ back)) := ⟨fence, hcs.symm⟩
        have hother : back <:+ c :: (front ++ (fence ++ back)) :=
          ⟨c :: (front ++ fence), by simp⟩
        refine List.suffix_of_suffix_length_le hother hsuffix ?_
        have hlength := congrArg List.length hcs
        simp only [List.length_cons, List.length_append] at hlength
        omega
      · exact ⟨c :: front', back', by rw [List.cons_append, hlater, hfound]; rfl, hback⟩

end Searching

section Blocks

variable {reply : String}

theorem fencedBlock?_eq (reply : String) :
    fencedBlock? reply = (breakAtFence reply.toList).bind fun opened =>
      (breakAtFence opened.2).map fun closed => String.ofList (dropFirstLine closed.1) := by
  rw [fencedBlock?]
  cases breakAtFence reply.toList with
  | none => rfl
  | some opened => cases hclosed : breakAtFence opened.2 <;> simp [hclosed]

/-- **A text has a fenced block just if two of its fences share no character.** -/
theorem isSome_fencedBlock?_iff :
    (fencedBlock? reply).isSome = true ↔ HasTwoFences reply.toList := by
  rw [fencedBlock?_eq]
  constructor
  · intro h
    obtain ⟨block, hblock⟩ := Option.isSome_iff_exists.mp h
    obtain ⟨⟨front, opened⟩, hopened, hrest⟩ := Option.bind_eq_some_iff.mp hblock
    obtain ⟨⟨body, back⟩, hclosed, _⟩ := Option.map_eq_some_iff.mp hrest
    have hbody : opened = body ++ (fence ++ back) := eq_of_breakAtFence hclosed
    exact ⟨front, body, back, by rw [eq_of_breakAtFence hopened, hbody]⟩
  · rintro ⟨front, body, back, hreply⟩
    obtain ⟨front', opened, hopened, before, hsuffix⟩ :=
      exists_breakAtFence front (body ++ (fence ++ back))
    obtain ⟨body', back', hclosed, _⟩ := exists_breakAtFence (before ++ body) back
    rw [List.append_assoc, hsuffix] at hclosed
    rw [hreply, hopened, Option.bind_some, hclosed]
    rfl

theorem fencedBlock?_eq_none (h : ¬ HasTwoFences reply.toList) : fencedBlock? reply = none := by
  rw [← isSome_fencedBlock?_iff] at h
  simpa using h

theorem dropFirstLine_append {info : List Char} (hinfo : '\n' ∉ info) (cs : List Char) :
    dropFirstLine (info ++ '\n' :: cs) = cs := by
  have hpass : ∀ c, c ∈ info → decide (c ≠ '\n') = true := fun c hc =>
    decide_eq_true fun heq => hinfo (heq ▸ hc)
  rw [dropFirstLine, if_pos (List.mem_append_right _ List.mem_cons_self),
    List.dropWhile_append_of_pos hpass, List.dropWhile_cons_of_neg (by simp)]
  rfl

variable {front info program : String}

/-- **The block of a text that is written with one** is the program, whatever stands around
the fences. -/
theorem fencedBlock?_fencedText (hfront : '\x60' ∉ front.toList) (hinfo : '\x60' ∉ info.toList)
    (hline : '\n' ∉ info.toList) (hprogram : '\x60' ∉ program.toList) (back : String) :
    fencedBlock? (fencedText front info program back) = some program := by
  have htext : (fencedText front info program back).toList =
      front.toList ++ (fence ++ ((info.toList ++ '\n' :: program.toList) ++
        (fence ++ back.toList))) := by
    simp only [fencedText, String.toList_append, List.append_assoc]
    rfl
  have hbody : '\x60' ∉ info.toList ++ '\n' :: program.toList := by
    simp only [List.mem_append, List.mem_cons, not_or]
    exact ⟨hinfo, by decide, hprogram⟩
  rw [fencedBlock?_eq, htext, breakAtFence_append hfront, Option.bind_some,
    breakAtFence_append hbody, Option.map_some, dropFirstLine_append hline, String.ofList_toList]

end Blocks

end Text
end LineMachine
