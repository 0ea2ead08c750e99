import LineMachine.Proofs.Heap.Nesting

/-!
# Writing a list in fragments

A writer puts fragments one after another.  It keeps the lists that are open in a set of
its own, to which a list is added when it is opened and from which it is taken when it is
closed; and it sees from the last fragment whether a comma comes first.

**Input.**  Any heap, with lists that are shared or contain themselves.

**Invariant.**  The lists on the stack are all different and are the open ones.  The text
written with the stack alone is ahead of the fragments by the comma that is owed.

**Results.**
* `Writer.step`: one fragment more.
* `endsIn_renderFrames`: the fragments make up the text that is written with the stack.
* `writing_is_recursive`: the text of a list, in both ways and by recursion; and when
  there is none.
-/

namespace LineMachine
namespace Heap

/-- The fragments that have been written, the latest first, the open lists, and the lists
being written, the innermost first. -/
structure Writer where
  fragments : List String
  opened : Finset Ref
  frames : List Frame

namespace Writer

/-- A list is about to be written. -/
def start (h : Heap) (r : Ref) : Writer :=
  ⟨["["], {r}, [⟨r, h.items r⟩]⟩

/-- The text that the fragments make up. -/
def textOf (fragments : List String) : String :=
  String.join fragments.reverse

/-- The fragments with a comma if they do not end with an opened list. -/
def separated (fragments : List String) : List String :=
  if fragments.head? = some "[" then fragments else ", " :: fragments

/-- The next item of the innermost list is written or opened, or the list is closed. -/
def step (h : Heap) : Writer → Except Numeral.DigitLimit Writer
  | ⟨fragments, opened, []⟩ => .ok ⟨fragments, opened, []⟩
  | ⟨fragments, opened, ⟨r, []⟩ :: outer⟩ =>
    .ok ⟨"]" :: fragments, opened.erase r, outer⟩
  | ⟨fragments, opened, ⟨r, .int n :: rest⟩ :: outer⟩ =>
    (Numeral.text n).map fun t => ⟨t :: separated fragments, opened, ⟨r, rest⟩ :: outer⟩
  | ⟨fragments, opened, ⟨r, .list q :: rest⟩ :: outer⟩ =>
    if q ∈ opened then
      .ok ⟨"[...]" :: separated fragments, opened, ⟨r, rest⟩ :: outer⟩
    else
      .ok ⟨"[" :: separated fragments, insert q opened,
        ⟨q, h.items q⟩ :: ⟨r, rest⟩ :: outer⟩

/-- Some steps, unless one of them fails. -/
def run (h : Heap) : Nat → Writer → Except Numeral.DigitLimit Writer
  | 0, w => .ok w
  | n + 1, w => (step h w).bind (run h n)

/-- The writer comes to its end with a text, or fails. -/
def EndsIn (h : Heap) (w : Writer) : Except Numeral.DigitLimit String → Prop
  | .ok t => ∃ n w', run h n w = .ok w' ∧ w'.frames = [] ∧ textOf w'.fragments = t
  | .error e => ∃ n, run h n w = .error e

section Steps

variable {h : Heap} {w w' : Writer} {outcome : Except Numeral.DigitLimit String}

theorem endsIn_of_step (hstep : step h w = .ok w') (hend : EndsIn h w' outcome) :
    EndsIn h w outcome := by
  cases outcome with
  | ok t =>
      obtain ⟨n, w'', hrun, hend⟩ := hend
      exact ⟨n + 1, w'', by rw [run, hstep]; exact hrun, hend⟩
  | error e =>
      obtain ⟨n, hrun⟩ := hend
      exact ⟨n + 1, by rw [run, hstep]; exact hrun⟩

theorem endsIn_of_step_error {e : Numeral.DigitLimit} (hstep : step h w = .error e) :
    EndsIn h w (.error e) :=
  ⟨1, by rw [run, hstep]; rfl⟩

end Steps

section Separators

variable {fragments : List String} {t : String}

/-- The comma that comes before the next item, if there is one. -/
def owed (fragments : List String) (frames : List Frame) : String :=
  if fragments.head? = some "[" then "" else afterList frames

theorem textOf_cons (t : String) (fragments : List String) :
    textOf (t :: fragments) = textOf fragments ++ t := by
  rw [textOf, textOf, List.reverse_cons, String.join_append]
  simp [String.join]

theorem textOf_separated (r : Ref) (v : Value) (rest : List Value) (outer : List Frame) :
    textOf (separated fragments) =
      textOf fragments ++ owed fragments (⟨r, v :: rest⟩ :: outer) := by
  rw [separated, owed]
  split
  · rw [String.append_empty]
  · rw [textOf_cons]
    rfl

theorem owed_cons (ht : t ≠ "[") (frames : List Frame) :
    owed (t :: fragments) frames = afterList frames := by
  rw [owed, if_neg (by simpa using ht)]

theorem owed_opened (frames : List Frame) : owed ("[" :: fragments) frames = "" := by
  rw [owed, if_pos (by simp)]

theorem owed_finished (r : Ref) (outer : List Frame) :
    owed fragments (⟨r, []⟩ :: outer) = "" := by
  rw [owed]
  split <;> rfl

/-- The text of an integer is never taken for an opened list. -/
theorem text_ne_opening {n : Int} (ht : Numeral.text n = .ok t) : t ≠ "[" := by
  rintro rfl
  rw [Numeral.text] at ht
  split at ht
  · have hchars : (if n < 0 then ['-'] else []) ++ Nat.toDigits 10 n.natAbs = ['['] :=
      String.ofList_injective (Except.ok.inj ht)
    have hlast : '[' ∈ Nat.toDigits 10 n.natAbs := by
      split at hchars
      · cases hchars
      · rw [List.nil_append] at hchars
        rw [hchars]
        exact List.mem_singleton_self '['
    exact absurd (Nat.isDigit_of_mem_toDigits (by decide) (by decide) hlast) (by decide)
  · cases ht

end Separators

/-- **The fragments make up the text that is written with the stack.** -/
theorem endsIn_renderFrames {h : Heap} (out : String) (frames : List Frame)
    (fragments : List String) (hout : out = textOf fragments ++ owed fragments frames)
    (hdistinct : (frames.map Frame.ref).Nodup) :
    EndsIn h ⟨fragments, pathOf frames, frames⟩ (h.renderFrames out frames) := by
  fun_induction h.renderFrames out frames generalizing fragments with
  | case1 out =>
      refine ⟨0, _, rfl, rfl, ?_⟩
      subst hout
      rw [owed]
      split <;> exact (String.append_empty).symm
  | case2 out r outer ih =>
      obtain ⟨hr, houter⟩ := List.nodup_cons.mp hdistinct
      have herase : (pathOf (⟨r, []⟩ :: outer)).erase r = pathOf outer := by
        rw [pathOf_cons, Finset.erase_insert]
        simpa [pathOf] using hr
      have hstep : step h ⟨fragments, pathOf (⟨r, []⟩ :: outer), ⟨r, []⟩ :: outer⟩ =
          .ok ⟨"]" :: fragments, pathOf outer, outer⟩ := by
        rw [step, herase]
      refine endsIn_of_step hstep (ih _ ?_ houter)
      rw [hout, owed_finished, String.append_empty, textOf_cons, owed_cons (by decide)]
  | case3 out r n rest outer ih =>
      rw [pathOf_next]
      cases htext : Numeral.text n with
      | error e =>
          refine endsIn_of_step_error ?_
          rw [step, htext]
          rfl
      | ok t =>
          have hstep : step h ⟨fragments, pathOf (⟨r, rest⟩ :: outer),
              ⟨r, .int n :: rest⟩ :: outer⟩ =
                .ok ⟨t :: separated fragments, pathOf (⟨r, rest⟩ :: outer),
                  ⟨r, rest⟩ :: outer⟩ := by
            rw [step, htext]
            rfl
          refine endsIn_of_step hstep (ih t _ ?_ hdistinct)
          rw [hout, textOf_cons, textOf_separated r (.int n) rest outer,
            owed_cons (text_ne_opening htext)]
          rfl
  | case4 out r q rest outer hopen ih =>
      rw [pathOf_next]
      have hstep : step h ⟨fragments, pathOf (⟨r, rest⟩ :: outer),
          ⟨r, .list q :: rest⟩ :: outer⟩ =
            .ok ⟨"[...]" :: separated fragments, pathOf (⟨r, rest⟩ :: outer),
              ⟨r, rest⟩ :: outer⟩ := by
        rw [step, if_pos (mem_pathOf.mpr hopen)]
      refine endsIn_of_step hstep (ih _ ?_ hdistinct)
      rw [hout, textOf_cons, textOf_separated r (.list q) rest outer, owed_cons (by decide)]
      rfl
  | case5 out r q rest outer hopen ih =>
      rw [pathOf_next]
      have hnew : q ∉ pathOf (⟨r, rest⟩ :: outer) := fun hmem => hopen (mem_pathOf.mp hmem)
      have hstep : step h ⟨fragments, pathOf (⟨r, rest⟩ :: outer),
          ⟨r, .list q :: rest⟩ :: outer⟩ =
            .ok ⟨"[" :: separated fragments, pathOf (⟨q, h.items q⟩ :: ⟨r, rest⟩ :: outer),
              ⟨q, h.items q⟩ :: ⟨r, rest⟩ :: outer⟩ := by
        rw [step, if_neg hnew, pathOf_cons q]
      refine endsIn_of_step hstep (ih _ ?_ ?_)
      · rw [hout, textOf_cons, textOf_separated r (.list q) rest outer, owed_opened,
          String.append_empty]
      · refine List.nodup_cons.mpr ⟨fun hmem => hnew ?_, hdistinct⟩
        exact List.mem_toFinset.mpr hmem

/-- The fragments that are written of a list make up its text. -/
theorem endsIn_text (h : Heap) (r : Ref) : EndsIn h (start h r) (h.text (.list r)) := by
  have hpath : start h r = ⟨["["], pathOf [⟨r, h.items r⟩], [⟨r, h.items r⟩]⟩ := rfl
  rw [hpath, text]
  refine endsIn_renderFrames "[" _ _ ?_ (List.nodup_singleton r)
  rw [owed_opened, String.append_empty]
  decide

end Writer

/-- **The text of a list is told by recursion**, for shared lists and for lists that
contain themselves: written with a stack, or in fragments with a set of open lists, it
comes to the recursive text.  There is none exactly if an integer that the list holds,
however deep, cannot be written; the failure is that of the integer. -/
theorem writing_is_recursive (h : Heap) (r : Ref) :
    h.text (.list r) = h.listText {r} r ∧
      Writer.EndsIn h (Writer.start h r) (h.listText {r} r) ∧
      ∀ e, h.text (.list r) = .error e ↔
        ∃ n, h.Holds (.list r) n ∧ Numeral.text n = .error e := by
  refine ⟨text_list_eq h r, ?_, fun e => ?_⟩
  · rw [← text_list_eq]
    exact Writer.endsIn_text h r
  · exact text_eq_error_iff

-- A list that is met twice side by side is written twice; one that is open is not.
example : (⟨#[[.list 1, .list 1, .list 0], [.int 5]]⟩ : Heap).text (.list 0) =
    .ok "[[5], [5], [...]]" := by
  cbv

end Heap
end LineMachine
