import LineMachine.Proofs.Instruction.Failing
import LineMachine.Proofs.Numeral.Margin

/-!
# Which instructions fail, and with which failure

An instruction checks its operands one after the other before it takes effect.  The checks
of each opcode are listed in order; the first one that does not pass decides the failure,
and the instruction succeeds if all pass.

**Input.**  Any store and any instruction, also one whose words are no words of a line.

**Invariant.**  A computation makes a list of checks: it fails like the first of them that
does not pass, or has a result.  What follows on a result makes further checks.

**Results.**
* `Check.Fails`: how each check fails.
* `Instruction.checks`: what is checked, in order.
* `Execution.Checked.bind`: one computation after another makes the checks of both.
* `Instruction.first_failing_check_decides`: an instruction fails like its first check that
  fails, and succeeds if there is none.
-/

namespace LineMachine

/-- What is checked of an operand. -/
inductive Check where
  /-- The token is a variable or a literal. -/
  | resolvable (token : String)
  /-- The variable exists. -/
  | defined (name : String)
  /-- The variable does not hold an integer. -/
  | noInteger (name : String)
  /-- The variable does not hold a list. -/
  | noList (name : String)
  /-- The index is inside the list that the variable holds. -/
  | inside (index : Int) (name : String)
deriving DecidableEq, Repr

/-- How a check fails. -/
inductive Check.Fails (s : Store) : Check → Failure → Prop
  | unresolvable {token : String} (hname : s.memory.get? token = none)
      (hliteral : ¬ Numeral.IsMarginedLiteral token)
      (hsize : ∀ n, ¬ Numeral.StartsOversized token n) :
      Fails s (.resolvable token) (.fault (.undefinedVariable token))
  | oversized {token : String} {n : Nat} (hname : s.memory.get? token = none)
      (hsize : Numeral.StartsOversized token n) :
      Fails s (.resolvable token) (.limit (.reading n))
  | undefined {name : String} (hname : s.memory.get? name = none) :
      Fails s (.defined name) (.fault (.undefinedVariable name))
  | integer {name : String} {n : Int} (hname : s.memory.get? name = some (.int n)) :
      Fails s (.noInteger name) (.fault (.typeMismatch .list .int))
  | list {name : String} {r : Ref} (hname : s.memory.get? name = some (.list r)) :
      Fails s (.noList name) (.fault (.typeMismatch .int .list))
  | outside {index : Int} {name : String} {r : Ref}
      (hname : s.memory.get? name = some (.list r))
      (hindex : ¬ (0 ≤ index ∧ index < (s.heap.items r).length))
      (hwritable : Numeral.writable index = true) :
      Fails s (.inside index name) (.fault (.indexOutOfRange index (s.heap.items r).length))
  | unwritable {index : Int} {name : String} {r : Ref}
      (hname : s.memory.get? name = some (.list r))
      (hindex : ¬ (0 ≤ index ∧ index < (s.heap.items r).length))
      (hlong : Numeral.writable index = false) :
      Fails s (.inside index name) (.limit .writing)

def Check.Passes (s : Store) (c : Check) : Prop :=
  ∀ e, ¬ c.Fails s e

/-- The first of some checks that does not pass fails like this. -/
inductive FirstFailure (s : Store) : List Check → Failure → Prop
  | here {c : Check} {cs : List Check} {e : Failure} (hc : c.Fails s e) :
      FirstFailure s (c :: cs) e
  | later {c : Check} {cs : List Check} {e : Failure} (hc : c.Passes s)
      (h : FirstFailure s cs e) : FirstFailure s (c :: cs) e

/-- The words that are a variable or a literal, which shows only when they are needed. -/
def Instruction.tokens : Instruction → List String
  | varList _ elements => elements
  | set source _ _ => [source]
  | _ => []

/-- What is checked of the operands of an instruction, in order. -/
def Instruction.checks : Instruction → List Check
  | varInt _ _ | combine _ _ | halt => []
  | varList _ elements => elements.map .resolvable
  | get _ index seq => [.defined seq, .noInteger seq, .inside index seq]
  | set source index seq =>
    [.resolvable source, .defined seq, .noInteger seq, .inside index seq]
  | copy _ source => [.defined source]
  | branch var _ => [.defined var]
  | changeSign var => [.defined var, .noList var]
  | add var operand => [.defined var, .noList var, .noList operand]

section Failures

variable {s : Store} {c : Check} {cs cs' : List Check} {e e' : Failure} {name : String}

theorem Check.Fails.unique (he : c.Fails s e) (he' : c.Fails s e') : e = e' := by
  cases he with
  | unresolvable _ _ hsize =>
      cases he' with
      | unresolvable => rfl
      | oversized _ hover => exact absurd hover (hsize _)
  | @oversized token n hname hover =>
      cases he' with
      | unresolvable _ _ hsize => exact absurd hover (hsize _)
      | oversized _ hover' =>
          have hread := Numeral.readMargined_eq_error_iff.mpr ⟨n, hover, rfl⟩
          rw [Numeral.readMargined_eq_error_iff.mpr ⟨_, hover', rfl⟩] at hread
          cases hread
          rfl
  | undefined => cases he'; rfl
  | integer => cases he'; rfl
  | list => cases he'; rfl
  | outside hname _ hwritable =>
      cases he' with
      | outside hname' =>
          rw [hname] at hname'
          cases hname'
          rfl
      | unwritable _ _ hlong =>
          rw [hwritable] at hlong
          cases hlong
  | unwritable _ _ hlong =>
      cases he' with
      | outside _ _ hwritable =>
          rw [hwritable] at hlong
          cases hlong
      | unwritable => rfl

theorem FirstFailure.not_all_pass (h : FirstFailure s cs e) : ¬ ∀ c, c ∈ cs → c.Passes s := by
  induction h with
  | here hc => exact fun hall => hall _ List.mem_cons_self _ hc
  | later _ _ ih => exact fun hall => ih fun c hc => hall c (List.mem_cons_of_mem _ hc)

/-- There is only one first failure. -/
theorem FirstFailure.unique (h : FirstFailure s cs e) (h' : FirstFailure s cs e') : e = e' := by
  induction h with
  | here hc =>
      cases h' with
      | here hc' => exact hc.unique hc'
      | later hpass _ => exact absurd hc (hpass _)
  | later hpass _ ih =>
      cases h' with
      | here hc' => exact absurd hc' (hpass _)
      | later _ h' => exact ih h'

theorem FirstFailure.append (h : FirstFailure s cs e) (cs' : List Check) :
    FirstFailure s (cs ++ cs') e := by
  induction h with
  | here hc => exact .here hc
  | later hpass _ ih => exact .later hpass ih

theorem firstFailure_append (hall : ∀ c, c ∈ cs → c.Passes s) (h : FirstFailure s cs' e) :
    FirstFailure s (cs ++ cs') e := by
  induction cs with
  | nil => exact h
  | cons c cs ih =>
      obtain ⟨hc, hcs⟩ := List.forall_mem_cons.mp hall
      exact .later hc (ih hcs)

theorem Check.passes_defined {v : Value} (hname : s.memory.get? name = some v) :
    Passes s (.defined name) := by
  rintro e ⟨⟩
  simp_all

theorem Check.passes_noInteger {r : Ref} (hname : s.memory.get? name = some (.list r)) :
    Passes s (.noInteger name) := by
  rintro e ⟨⟩
  simp_all

theorem Check.passes_noList (hname : ∀ r, s.memory.get? name ≠ some (.list r)) :
    Passes s (.noList name) := by
  rintro e ⟨⟩
  simp_all

theorem Check.passes_inside {r : Ref} {index : Int} (hname : s.memory.get? name = some (.list r))
    (hindex : 0 ≤ index ∧ index < (s.heap.items r).length) :
    Passes s (.inside index name) := by
  rintro e ⟨⟩ <;> simp_all

/-- Outside a list the check fails as the access does. -/
theorem Check.fails_inside {r : Ref} {index : Int} (hname : s.memory.get? name = some (.list r))
    (hindex : ¬ (0 ≤ index ∧ index < (s.heap.items r).length)) :
    Fails s (.inside index name) (Heap.outOfRange index (s.heap.items r).length) := by
  cases hwritable : Numeral.writable index with
  | true =>
      rw [Heap.outOfRange_of_writable hwritable]
      exact .outside hname hindex hwritable
  | false =>
      rw [Heap.outOfRange_of_not_writable hwritable]
      exact .unwritable hname hindex hwritable

theorem Check.passes_resolvable {token : String} {v : Value} (hv : Resolves s token v) :
    Passes s (.resolvable token) := by
  intro e he
  cases hv with
  | bound hname => cases he <;> simp_all
  | literal _ hread =>
      cases he with
      | unresolvable _ hliteral _ =>
          exact hliteral (Numeral.isMarginedLiteral_of_readMargined hread)
      | oversized _ hsize =>
          rw [Numeral.readMargined_eq_error_iff.mpr ⟨_, hsize, rfl⟩] at hread
          cases hread

end Failures

namespace Execution

variable {α β : Type} {s : Store} {cs cs' : List Check} {name : String} {v : Value}

/-- The computation makes these checks: it has a result for which `P` holds if all pass,
and fails like the first that does not pass, leaving the store as it is. -/
def Checked (x : Execution α) (s : Store) (cs : List Check) (P : α → Store → Prop) : Prop :=
  ((∀ c, c ∈ cs → c.Passes s) ∧ ∃ a s', x s = .ok a s' ∧ P a s') ∨
    ∃ e, x s = .error e s ∧ FirstFailure s cs e

/-- **What follows makes further checks.** -/
theorem Checked.bind {x : Execution α} {f : α → Execution β} {Q : α → Prop}
    {P : β → Store → Prop} (hx : Checked x s cs fun a s' => s' = s ∧ Q a)
    (hf : ∀ a, Q a → Checked (f a) s cs' P) : Checked (x >>= f) s (cs ++ cs') P := by
  rcases hx with ⟨hall, a, _, hok, rfl, ha⟩ | ⟨e, herror, hfirst⟩
  · rcases hf a ha with ⟨hall', b, s', hok', hb⟩ | ⟨e, herror, hfirst⟩
    · refine Or.inl ⟨fun c hc => ?_, b, s', (bind_of_ok hok).trans hok', hb⟩
      exact (List.mem_append.mp hc).elim (hall c) (hall' c)
    · exact Or.inr ⟨e, (bind_of_ok hok).trans herror, firstFailure_append hall hfirst⟩
  · exact Or.inr ⟨e, bind_of_error herror, hfirst.append cs'⟩

/-- What cannot fail makes no further check. -/
theorem Checked.bind_total {x : Execution α} {f : α → Execution β} {P : α → Store → Prop}
    (hx : Checked x s cs P) (hf : ∀ a, Total (f a)) :
    Checked (x >>= f) s cs fun _ _ => True := by
  rcases hx with ⟨hall, a, s₁, hok, _⟩ | ⟨e, herror, hfirst⟩
  · obtain ⟨b, s', hb⟩ := hf a s₁
    exact Or.inl ⟨hall, b, s', (bind_of_ok hok).trans hb, trivial⟩
  · exact Or.inr ⟨e, bind_of_error herror, hfirst⟩

theorem Total.checked {x : Execution α} (hx : Total x) (s : Store) :
    Checked x s [] fun _ _ => True := by
  obtain ⟨a, s', ha⟩ := hx s
  exact Or.inl ⟨by simp, a, s', ha, trivial⟩

theorem checked_find? (s : Store) (name : String) :
    Checked (find? name) s [] fun o s' => s' = s ∧ s.memory.get? name = o :=
  Or.inl ⟨by simp, _, s, rfl, rfl, rfl⟩

/-- A computation that passes its only check. -/
theorem checked_of_passes {x : Execution α} {c : Check} {P : α → Store → Prop} {a : α}
    {s' : Store} (hc : c.Passes s) (hok : x s = .ok a s') (ha : P a s') :
    Checked x s [c] P :=
  Or.inl ⟨by simpa using hc, a, s', hok, ha⟩

/-- A computation that fails its only check. -/
theorem checked_of_fails {x : Execution α} {c : Check} {P : α → Store → Prop} {e : Failure}
    (hc : c.Fails s e) (herror : x s = .error e s) : Checked x s [c] P :=
  Or.inr ⟨e, herror, .here hc⟩

theorem checked_lookup (s : Store) (name : String) :
    Checked (lookup name) s [.defined name]
      fun v s' => s' = s ∧ s.memory.get? name = some v := by
  refine (checked_find? s name).bind fun o ho => ?_
  cases o with
  | none => exact checked_of_fails (.undefined ho) rfl
  | some v => exact checked_of_passes (Check.passes_defined ho) rfl ⟨rfl, ho⟩

theorem checked_asList (hname : s.memory.get? name = some v) :
    Checked (ofExcept v.asList) s [.noInteger name]
      fun r s' => s' = s ∧ s.memory.get? name = some (.list r) := by
  cases v with
  | int n => exact checked_of_fails (.integer hname) rfl
  | list r => exact checked_of_passes (Check.passes_noInteger hname) rfl ⟨rfl, hname⟩

/-- A variable that does not exist passes for zero. -/
theorem checked_asInteger {o : Option Value} (hname : s.memory.get? name = o) :
    Checked (ofExcept (o.getD (.int 0)).asInteger) s [.noList name]
      fun _ s' => s' = s ∧ True := by
  rcases o with _ | (n | r)
  · exact checked_of_passes (Check.passes_noList (by simp [hname])) rfl ⟨rfl, trivial⟩
  · exact checked_of_passes (Check.passes_noList (by simp [hname])) rfl ⟨rfl, trivial⟩
  · exact checked_of_fails (.list hname) rfl

theorem checked_negate (hname : s.memory.get? name = some v) :
    Checked (ofExcept v.negate) s [.noList name] fun _ s' => s' = s ∧ True := by
  cases v with
  | int n => exact checked_of_passes (Check.passes_noList (by simp [hname])) rfl ⟨rfl, trivial⟩
  | list r => exact checked_of_fails (.list hname) rfl

theorem checked_lookupList (s : Store) (name : String) :
    Checked (lookupList name) s [.defined name, .noInteger name]
      fun r s' => s' = s ∧ s.memory.get? name = some (.list r) :=
  (checked_lookup s name).bind fun _ hv => checked_asList hv

theorem checked_lookupInteger (s : Store) (name : String) :
    Checked (lookupInteger name) s [.defined name, .noList name] fun _ s' => s' = s ∧ True :=
  (checked_lookup s name).bind fun _ hv => checked_asInteger hv

theorem checked_resolve (s : Store) (token : String) :
    Checked (resolve token) s [.resolvable token] fun v s' => s' = s ∧ Resolves s token v := by
  refine (checked_find? s token).bind fun o ho => ?_
  cases o with
  | some v =>
      have hv : Resolves s token v := .bound ho
      exact checked_of_passes (Check.passes_resolvable hv) rfl ⟨rfl, hv⟩
  | none =>
      dsimp only
      split
      · rename_i e hread
        obtain ⟨n, hsize, rfl⟩ := Numeral.readMargined_eq_error_iff.mp hread
        exact checked_of_fails (.oversized ho hsize) rfl
      · rename_i hread
        obtain ⟨hliteral, hsize⟩ := Numeral.readMargined_eq_none_iff.mp hread
        exact checked_of_fails (.unresolvable ho hliteral hsize) rfl
      · rename_i n hread
        have hv : Resolves s token (.int n) := .literal ho hread
        exact checked_of_passes (Check.passes_resolvable hv) rfl ⟨rfl, hv⟩

/-- The elements of a list are checked from the left. -/
theorem checked_mapM_resolve (s : Store) (tokens : List String) :
    Checked (tokens.mapM resolve) s (tokens.map .resolvable) fun _ s' => s' = s ∧ True := by
  induction tokens with
  | nil => exact Or.inl ⟨by simp, [], s, rfl, rfl, trivial⟩
  | cons token tokens ih =>
      rw [List.mapM_cons, List.map_cons, ← List.singleton_append]
      refine (checked_resolve s token).bind fun v _ => ?_
      rw [← List.append_nil (tokens.map _)]
      exact ih.bind fun vs _ => Or.inl ⟨by simp, v :: vs, s, rfl, rfl, trivial⟩

theorem checked_itemAt {r : Ref} (index : Int) (hname : s.memory.get? name = some (.list r)) :
    Checked (itemAt r index) s [.inside index name] fun _ s' => s' = s ∧ True := by
  cases hitem : Heap.itemAt? (s.heap.items r) index with
  | none =>
      exact checked_of_fails (Check.fails_inside hname (Instruction.not_inside_of_itemAt? hitem))
        (by rw [itemAt, Heap.get, hitem])
  | some v =>
      refine checked_of_passes (Check.passes_inside hname ?_) (by rw [itemAt, Heap.get, hitem])
        ⟨rfl, trivial⟩
      rw [← Heap.isSome_itemAt?, hitem]
      rfl

theorem checked_replaceItem {r : Ref} (index : Int) (v : Value)
    (hname : s.memory.get? name = some (.list r)) :
    Checked (replaceItem r index v) s [.inside index name] fun _ _ => True := by
  by_cases hindex : 0 ≤ index ∧ index < (s.heap.items r).length
  · exact checked_of_passes (Check.passes_inside hname hindex)
      (replaceItem_eq_ok_iff.mpr ⟨hindex, rfl⟩) trivial
  · exact checked_of_fails (Check.fails_inside hname hindex) (replaceItem_eq_error hindex)

end Execution

namespace Instruction

open Execution

variable {inst : Instruction} {s : Store}

/-- An instruction makes its checks. -/
theorem checked_execute (inst : Instruction) (s : Store) :
    Checked inst.execute s inst.checks fun _ _ => True := by
  cases inst with
  | varInt var value => exact (total_assign_next var (.int value)).checked s
  | varList var elements =>
      refine (checked_mapM_resolve s elements).bind_total fun items => ?_
      exact (total_newList items).bind fun v => total_assign_next var v
  | combine first second => exact (total_combine first second).checked s
  | get dest index seq =>
      refine (checked_lookupList s seq).bind fun r hr => ?_
      exact (checked_itemAt index hr).bind_total fun v => total_assign_next dest v
  | set source index seq =>
      refine (checked_resolve s source).bind fun v _ => ?_
      refine (checked_lookupList s seq).bind fun r hr => ?_
      exact (checked_replaceItem index v hr).bind_total fun _ => total_pure _
  | copy dest source =>
      refine (checked_lookup s source).bind_total fun v => ?_
      exact (total_newCopy v).bind fun copy => total_assign_next dest copy
  | changeSign var =>
      refine (checked_lookup s var).bind fun v hv => ?_
      exact (checked_negate hv).bind_total fun w => total_assign_next var w
  | add var operand =>
      refine (checked_lookupInteger s var).bind fun augend _ => ?_
      refine (checked_find? s operand).bind fun o ho => ?_
      exact (checked_asInteger ho).bind_total fun addend => total_assign_next var _
  | branch var target =>
      exact (checked_lookup s var).bind_total fun v => total_branch v target
  | halt => exact (total_pure _).checked s

theorem execute_eq_error_iff_firstFailure {e : Failure} {s' : Store} :
    inst.execute s = .error e s' ↔ s' = s ∧ FirstFailure s inst.checks e := by
  rcases checked_execute inst s with ⟨hall, control, s₁, hok, _⟩ | ⟨e₁, herror, hfirst⟩
  · rw [hok]
    constructor
    · intro h
      cases h
    · rintro ⟨_, hfirst⟩
      exact absurd hall hfirst.not_all_pass
  · rw [herror]
    constructor
    · intro h
      cases h
      exact ⟨rfl, hfirst⟩
    · rintro ⟨rfl, hfirst'⟩
      rw [hfirst.unique hfirst']

theorem exists_execute_iff :
    (∃ control s', inst.execute s = .ok control s') ↔ ∀ c, c ∈ inst.checks → c.Passes s := by
  rcases checked_execute inst s with ⟨hall, control, s₁, hok, _⟩ | ⟨e, herror, hfirst⟩
  · exact ⟨fun _ => hall, fun _ => ⟨control, s₁, hok⟩⟩
  · refine ⟨fun ⟨control, s', hok⟩ => ?_, fun hall => absurd hall hfirst.not_all_pass⟩
    rw [herror] at hok
    cases hok

/-- Only a token can be refused for its size. -/
theorem mem_tokens_of_mem_checks {token : String} (h : .resolvable token ∈ inst.checks) :
    token ∈ inst.tokens := by
  cases inst <;> simp_all [checks, tokens]

/-- Only an index operand can be refused for its length. -/
theorem index?_of_mem_checks {index : Int} {name : String}
    (h : .inside index name ∈ inst.checks) : inst.index? = some index := by
  cases inst <;> simp_all [checks, index?]

theorem FirstFailure.exists_check {cs : List Check} {e : Failure} (h : FirstFailure s cs e) :
    ∃ c, c ∈ cs ∧ c.Fails s e := by
  induction h with
  | @here c cs e hc => exact ⟨c, List.mem_cons_self, hc⟩
  | later _ _ ih =>
      obtain ⟨c, hc, hfails⟩ := ih
      exact ⟨c, List.mem_cons_of_mem _ hc, hfails⟩

/-- Without oversized tokens a failure is a fault, if the index can be written. -/
theorem exists_fault_of_firstFailure {e : Failure} (h : FirstFailure s inst.checks e)
    (hsize : ∀ token, token ∈ inst.tokens → ∀ n, ¬ Numeral.StartsOversized token n)
    (hindex : ∀ index, inst.index? = some index → Numeral.writable index = true) :
    ∃ f, e = .fault f := by
  obtain ⟨c, hc, hfails⟩ := FirstFailure.exists_check h
  cases hfails with
  | oversized _ hover => exact absurd hover (hsize _ (mem_tokens_of_mem_checks hc) _)
  | unresolvable => exact ⟨_, rfl⟩
  | undefined => exact ⟨_, rfl⟩
  | integer => exact ⟨_, rfl⟩
  | list => exact ⟨_, rfl⟩
  | outside => exact ⟨_, rfl⟩
  | unwritable _ _ hlong =>
      rw [hindex _ (index?_of_mem_checks hc)] at hlong
      cases hlong

/-- **An instruction fails like its first check that fails**, with the store left as it
is, and succeeds exactly if all its checks pass.  Only a token that is no variable and
starts with an oversized literal, or an index with more digits than are written, makes it
fail with anything but a fault.  A variable that does not exist counts as zero when it is
added, also if its name is a literal. -/
theorem first_failing_check_decides (s : Store) :
    (∀ inst : Instruction,
      (∀ e s', inst.execute s = .error e s' ↔ s' = s ∧ FirstFailure s inst.checks e) ∧
      ((∃ control s', inst.execute s = .ok control s') ↔
        ∀ c, c ∈ inst.checks → c.Passes s) ∧
      ((∀ token, token ∈ inst.tokens → ∀ n, ¬ Numeral.StartsOversized token n) →
        (∀ index, inst.index? = some index → Numeral.writable index = true) →
        ∀ e s', inst.execute s = .error e s' → ∃ f, e = .fault f)) ∧
    ∀ var operand m, s.memory.get? var = some (.int m) → s.memory.get? operand = none →
      (add var operand).execute s = .ok .next (s.assign var (.int m)) := by
  refine ⟨fun inst => ⟨fun e s' => execute_eq_error_iff_firstFailure, exists_execute_iff,
    fun hsize hindex e s' h => ?_⟩, fun var operand m hvar hoperand => ?_⟩
  · exact exists_fault_of_firstFailure (execute_eq_error_iff_firstFailure.mp h).2 hsize hindex
  · have hzero : (s.memory.get? operand).getD (.int 0) = .int 0 := by rw [hoperand]; rfl
    have hsum := execute_of_effect (.add hvar hzero)
    rwa [Int.add_zero] at hsum

/-- An integer and a list of two. -/
def mixed : Store :=
  ⟨⟨[("x", .int 5), ("l", .list 0)]⟩, ⟨#[[.int 1, .int 2]]⟩⟩

/-- Of several checks that fail the first one counts: the source before the kind of the
list, and the third element before the fourth. -/
theorem first_failing_check_decides_mixed :
    (set "y" 7 "x").execute mixed = .error (.fault (.undefinedVariable "y")) mixed ∧
    (set "x" 2 "l").execute mixed = .error (.fault (.indexOutOfRange 2 2)) mixed ∧
    (∃ f, (varList "z" ["x", "-3", "+", "w"]).execute mixed = .error (.fault f) mixed) ∧
    (∃ f, (get "z" (-1) "l").execute mixed = .error (.fault f) mixed) ∧
    (∃ control s', (set "-3" 1 "l").execute mixed = .ok control s') ∧
    (add "x" "9").execute mixed = .ok .next (mixed.assign "x" (.int 5)) := by
  obtain ⟨hall, hadd⟩ := first_failing_check_decides mixed
  have hx : Check.Passes mixed (.resolvable "x") := Check.passes_resolvable (.bound rfl)
  have hthree : Check.Passes mixed (.resolvable "-3") :=
    Check.passes_resolvable (.literal rfl (n := -3) rfl)
  have hl : Check.Passes mixed (.defined "l") ∧ Check.Passes mixed (.noInteger "l") :=
    ⟨Check.passes_defined rfl, Check.passes_noInteger rfl⟩
  have hy := Numeral.readMargined_eq_none_iff.mp (rfl : Numeral.readMargined "y" = .ok none)
  have hplus := Numeral.readMargined_eq_none_iff.mp (rfl : Numeral.readMargined "+" = .ok none)
  refine ⟨?_, ?_, ?_, ?_, ?_, ?_⟩
  · exact ((hall _).1 _ _).mpr ⟨rfl, .here (.unresolvable rfl hy.1 hy.2)⟩
  · have hout : ¬ ((0 : Int) ≤ 2 ∧ (2 : Int) < (mixed.heap.items 0).length) := by decide
    exact ((hall _).1 _ _).mpr
      ⟨rfl, .later hx (.later hl.1 (.later hl.2 (.here (.outside rfl hout (by decide)))))⟩
  · have hfails := ((hall (varList "z" ["x", "-3", "+", "w"])).1 _ _).mpr
      ⟨rfl, .later hx (.later hthree (.here (.unresolvable rfl hplus.1 hplus.2)))⟩
    have hread : ∀ token, token ∈ ["x", "-3", "+", "w"] →
        ∃ number, Numeral.readMargined token = .ok number := by
      simp only [List.forall_mem_cons, List.not_mem_nil, false_implies, implies_true, and_true]
      exact ⟨⟨_, rfl⟩, ⟨_, rfl⟩, ⟨_, rfl⟩, ⟨_, rfl⟩⟩
    obtain ⟨f, hf⟩ := (hall (varList "z" ["x", "-3", "+", "w"])).2.2 (fun token ht =>
      (hread token ht).elim fun _ => Numeral.not_startsOversized)
      (fun _ hindex => nomatch hindex) _ _ hfails
    exact ⟨f, hf ▸ hfails⟩
  · have hout : ¬ ((0 : Int) ≤ -1 ∧ (-1 : Int) < (mixed.heap.items 0).length) := by decide
    have hfails := ((hall (get "z" (-1) "l")).1 _ _).mpr
      ⟨rfl, .later hl.1 (.later hl.2 (.here (.outside rfl hout (by decide))))⟩
    obtain ⟨f, hf⟩ := (hall (get "z" (-1) "l")).2.2 (fun _ ht => nomatch ht)
      (fun index hindex => by
        obtain rfl : -1 = index := Option.some.inj hindex
        decide) _ _ hfails
    exact ⟨f, hf ▸ hfails⟩
  · refine (hall _).2.1.mpr ?_
    have hinside : Check.Passes mixed (.inside 1 "l") := Check.passes_inside rfl (by decide)
    simp only [checks, List.forall_mem_cons, List.not_mem_nil, false_implies, implies_true]
    exact ⟨hthree, hl.1, hl.2, hinside, trivial⟩
  · exact hadd "x" "9" 5 rfl rfl

/-- A token that goes on after digits, and is no literal therefore. -/
def brokenToken (cs : List Char) : String :=
  String.ofList (cs ++ [' ', 'x'])

/-- The least index of more digits than are written. -/
def overlongIndex : Int :=
  Nat.pow 10 Numeral.digitLimit

theorem not_isMarginedLiteral_brokenToken (cs : List Char) :
    ¬ Numeral.IsMarginedLiteral (brokenToken cs) := by
  rintro ⟨front, w, back, hs, hfront, hback, sign, ds, hsplit, hsign, _, hdigits⟩
  have hx : 'x' ∈ front ++ (sign ++ ds ++ back) := by
    rw [← hsplit, ← hs, brokenToken, String.toList_ofList]
    exact List.mem_append_right _ (by decide)
  simp only [List.mem_append] at hx
  rcases hx with hx | (hx | hx) | hx
  · exact absurd (hfront _ hx) (by decide)
  · rcases hsign with rfl | rfl | rfl <;> exact absurd hx (by decide)
  · exact absurd (hdigits _ hx) (by decide)
  · exact absurd (hback _ hx) (by decide)

theorem startsOversized_brokenToken {cs : List Char} (hcs : Numeral.isDigitRun cs = true)
    (hlen : Numeral.digitLimit < cs.length) :
    Numeral.StartsOversized (brokenToken cs) cs.length := by
  refine ⟨[], String.ofList cs, [' ', 'x'], ?_, by simp, rfl, [], cs, ?_, Or.inl rfl,
    (Numeral.isDigitRun_iff.mp hcs).2, rfl, hlen⟩
  · rw [brokenToken, String.toList_ofList, String.toList_ofList, List.nil_append]
  · rw [String.toList_ofList, List.nil_append]

theorem writable_overlongIndex : Numeral.writable overlongIndex = false := by
  rw [Bool.eq_false_iff, ne_eq, Numeral.writable_iff, overlongIndex, Int.natAbs_natCast]
  exact Nat.lt_irrefl _

theorem not_lt_length_overlongIndex {xs : List Value} (hxs : xs.length ≤ Numeral.digitLimit) :
    ¬ overlongIndex < xs.length := by
  have hpow : ∀ limit, limit < Nat.pow 10 limit := fun limit => Nat.lt_pow_self (by decide)
  rw [overlongIndex, Int.ofNat_lt]
  exact Nat.not_lt_of_le (Nat.le_of_lt (Nat.lt_of_le_of_lt hxs (hpow Numeral.digitLimit)))

/-- The token of the first instruction is neither a variable nor a literal, and the index of
the second one is not inside its list; yet neither comes to the fault of its check. -/
theorem overlong_operands_are_refused :
    (¬ Numeral.IsMarginedLiteral (brokenToken (List.replicate 4301 '1')) ∧
      (varList "z" [brokenToken (List.replicate 4301 '1')]).execute ⟨.empty, .empty⟩ =
        .error (.limit (.reading 4301)) ⟨.empty, .empty⟩) ∧
    mixed.memory.get? "l" = some (.list 0) ∧ ¬ overlongIndex < (mixed.heap.items 0).length ∧
      (get "z" overlongIndex "l").execute mixed = .error (.limit .writing) mixed := by
  have hdigits : Numeral.isDigitRun (List.replicate 4301 '1') = true :=
    Numeral.isDigitRun_replicate rfl (by decide)
  have hstarts := startsOversized_brokenToken hdigits (by rw [List.length_replicate]; decide)
  rw [List.length_replicate] at hstarts
  have hout : ¬ overlongIndex < (mixed.heap.items 0).length :=
    not_lt_length_overlongIndex (by decide)
  have hl : Check.Passes mixed (.defined "l") ∧ Check.Passes mixed (.noInteger "l") :=
    ⟨Check.passes_defined rfl, Check.passes_noInteger rfl⟩
  refine ⟨⟨not_isMarginedLiteral_brokenToken _, ?_⟩, rfl, hout, ?_⟩
  · refine execute_eq_error_iff_firstFailure.mpr ⟨rfl, .here ?_⟩
    exact .oversized rfl hstarts
  · refine execute_eq_error_iff_firstFailure.mpr ⟨rfl, .later hl.1 (.later hl.2 (.here ?_))⟩
    exact .unwritable rfl (fun h => hout h.2) writable_overlongIndex

end Instruction
end LineMachine
