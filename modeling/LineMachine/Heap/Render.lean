import LineMachine.Heap.Basic

/-!
# The text of a value

An integer is written in decimal; a list is written between brackets with a
comma and a space between its items.  A list that is met while it is being
written, because it contains itself, is shown as three dots between brackets.

**Input.**  A heap and a value.

**Algorithm.**  The lists being written form a stack, innermost first, each with
the items still to come; lists may be nested more deeply than any recursion
should go.

**Termination.**  What an item can still cost depends on how many lists are not
on the stack: with none left an item takes two steps, and with one more it takes
as many steps as the longest list has items of the former cost, and two.

**Results.**
* `renderFrames`: the text from a state of the stack to the end.
* `text`: the text of a value; it fails if an integer in it exceeds the digit
  limit.
* `describe`: the text of a value with its kind around it.
-/

namespace LineMachine

/-- A list being written, with the items still to come. -/
structure Frame where
  ref : Ref
  rest : List Value
deriving DecidableEq, Repr

namespace Heap

/-- What separates an item from those still to come. -/
def separator (rest : List Value) : String :=
  if rest.isEmpty then "" else ", "

/-- What follows a finished list, which is an item of the list around it. -/
def afterList : List Frame → String
  | [] => ""
  | outer :: _ => separator outer.rest

def isOpen (frames : List Frame) (r : Ref) : Bool :=
  frames.any fun f => f.ref == r

def longest (h : Heap) : Nat :=
  h.lists.toList.foldr (fun xs n => max xs.length n) 0

/-- How many lists are not being written. -/
def unopened (h : Heap) (frames : List Frame) : Nat :=
  (List.range h.size).countP fun r => !isOpen frames r

/-- A bound on the steps that one item takes when `n` lists are not on the stack. -/
def itemCost (h : Heap) : Nat → Nat
  | 0 => 2
  | n + 1 => h.longest * itemCost h n + 2

/-- A bound on the steps from a state of the stack to the end. -/
def framesCost (h : Heap) : List Frame → Nat
  | [] => 0
  | f :: outer => f.rest.length * h.itemCost (h.unopened (f :: outer)) + 1 + framesCost h outer

theorem two_le_itemCost (h : Heap) (n : Nat) : 2 ≤ h.itemCost n := by
  cases n <;> simp [itemCost]

theorem itemCost_mono (h : Heap) {m n : Nat} (hmn : m ≤ n) (hne : 0 < h.longest) :
    h.itemCost m ≤ h.itemCost n := by
  induction hmn with
  | refl => exact Nat.le_refl _
  | @step k _ ih =>
    refine Nat.le_trans ih ?_
    simp only [itemCost]
    have := Nat.le_mul_of_pos_left (h.itemCost k) hne
    omega

theorem length_le_foldr_max {ls : List (List Value)} {xs : List Value} (hx : xs ∈ ls) :
    xs.length ≤ ls.foldr (fun xs n => max xs.length n) 0 := by
  induction ls with
  | nil => cases hx
  | cons y ys ih =>
    rcases List.mem_cons.1 hx with rfl | hx
    · exact Nat.le_max_left _ _
    · exact Nat.le_trans (ih hx) (Nat.le_max_right _ _)

theorem length_items_le (h : Heap) (r : Ref) : (h.items r).length ≤ h.longest := by
  unfold items
  cases hr : h.lists[r]? with
  | none => exact Nat.zero_le _
  | some xs => exact length_le_foldr_max (Array.mem_toList_iff.2 (Array.mem_of_getElem? hr))

/-- Opening an existing list leaves one list less to open. -/
theorem unopened_push_lt {h : Heap} {f : Frame} {frames : List Frame}
    (hf : f.ref < h.size) (hnew : isOpen frames f.ref = false) :
    h.unopened (f :: frames) < h.unopened frames := by
  refine countP_lt (List.mem_range.2 hf) ?_ ?_ ?_
  · simp [hnew]
  · simp [isOpen]
  · intro r
    simp [isOpen]

/-- What is open depends on the lists of the frames, not on their items. -/
@[simp] theorem isOpen_cons (r : Ref) (rest : List Value) (frames : List Frame) :
    isOpen (⟨r, rest⟩ :: frames) = fun s => r == s || isOpen frames s := by
  funext s
  simp [isOpen]

/-- Opening a list costs less than its place in the list around it. -/
theorem cost_push_lt {h : Heap} {frames : List Frame} {s : Ref}
    (hnew : isOpen frames s = false) :
    (h.items s).length * h.itemCost (h.unopened (⟨s, h.items s⟩ :: frames)) + 1 <
      h.itemCost (h.unopened frames) := by
  by_cases hs : h.items s = []
  · have := two_le_itemCost h (h.unopened frames)
    simp only [hs, List.length_nil, Nat.zero_mul]
    omega
  · have hlt : h.unopened (⟨s, h.items s⟩ :: frames) < h.unopened frames :=
      unopened_push_lt (lt_size_of_items_ne_nil hs) hnew
    have hpos : 0 < h.longest :=
      Nat.lt_of_lt_of_le (List.length_pos_iff.2 hs) (length_items_le h s)
    obtain ⟨k, hk⟩ : ∃ k, h.unopened frames = k + 1 := ⟨h.unopened frames - 1, by omega⟩
    rw [hk] at hlt ⊢
    have hcost := itemCost_mono h (Nat.le_of_lt_succ hlt) hpos
    have := Nat.mul_le_mul (length_items_le h s) hcost
    simp only [itemCost]
    omega

/-- The text from a state of the stack to the end, after the text `out`. -/
def renderFrames (h : Heap) (out : String) : List Frame → Except Numeral.DigitLimit String
  | [] => .ok out
  | ⟨_, []⟩ :: outer => renderFrames h (out ++ "]" ++ afterList outer) outer
  | ⟨r, .int n :: rest⟩ :: outer =>
    (Numeral.text n).bind fun t =>
      renderFrames h (out ++ t ++ separator rest) (⟨r, rest⟩ :: outer)
  | ⟨r, .list s :: rest⟩ :: outer =>
    if _hopen : isOpen (⟨r, rest⟩ :: outer) s then
      renderFrames h (out ++ "[...]" ++ separator rest) (⟨r, rest⟩ :: outer)
    else
      renderFrames h (out ++ "[") (⟨s, h.items s⟩ :: ⟨r, rest⟩ :: outer)
termination_by frames => h.framesCost frames
decreasing_by
  · simp only [framesCost]
    omega
  · have := two_le_itemCost h (h.unopened (⟨r, rest⟩ :: outer))
    simp only [framesCost, unopened, isOpen_cons, List.length_cons, Nat.add_mul] at this ⊢
    omega
  · have := two_le_itemCost h (h.unopened (⟨r, rest⟩ :: outer))
    simp only [framesCost, unopened, isOpen_cons, List.length_cons, Nat.add_mul] at this ⊢
    omega
  · have := cost_push_lt (h := h) (Bool.eq_false_iff.2 _hopen)
    simp only [framesCost, unopened, isOpen_cons, List.length_cons, Nat.add_mul] at this ⊢
    omega

def text (h : Heap) : Value → Except Numeral.DigitLimit String
  | .int n => Numeral.text n
  | .list r => h.renderFrames "[" [⟨r, h.items r⟩]

def describe (h : Heap) (v : Value) : Except Numeral.DigitLimit String :=
  (h.text v).map fun t =>
    match v with
    | .int _ => "Integer(value=" ++ t ++ ")"
    | .list _ => "List(" ++ t ++ ")"

end Heap
end LineMachine
