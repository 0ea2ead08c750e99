import LineMachine.CommandLine.FileTree
import LineMachine.CommandLine.Shell
import Mathlib.Data.List.Infix

/-!
# Files that are written and read

Writing replaces the bytes of a file that exists, or makes a file where there was nothing in
an existing directory.  What was written is read again, and every other file is as it was.

**Invariant.**  The path that is written to is no directory, and has one around it.  So the
ways that led to other files lead there still.

**Results.**
* `FileTree.placeable_of_place`: where a file can be written.
* `FileTree.find_writeAt_iff`: a name denotes the same file after writing.
* `FileTree.read_of_write`, `FileTree.read_of_write_iff`: what is read after writing.
* `FileTree.find_of_write`, `FileTree.read_of_write_of_ne`: the same for a file that existed.
-/

namespace LineMachine

theorem fromUTF8?_toUTF8 (text : String) : String.fromUTF8? text.toUTF8 = some text := by
  rw [String.fromUTF8?, dif_pos]
  rfl

namespace FileTree

/-- There is a file at the path, or nothing in a directory. -/
def Placeable (t : FileTree) (path : Path) : Prop :=
  t.entryAt path = .file ∨ t.entryAt path = .nothing ∧ t.entryAt path.dropLast = .directory

section Entries

variable {t : FileTree} {path other : Path}

theorem entryAt_eq_file_iff :
    t.entryAt path = .file ↔ t.files.any (fun f => f.1 == path) = true := by
  unfold entryAt
  split
  · simp [*]
  · split <;> simp [*]

theorem isDirectory_of_entryAt (h : t.entryAt path = .directory) : t.isDirectory path = true := by
  unfold entryAt at h
  split at h
  · cases h
  · split at h
    · assumption
    · cases h

theorem entryAt_ne_nothing (h : t.isDirectory path = true) : t.entryAt path ≠ .nothing := by
  rw [entryAt, if_pos h]
  split <;> exact nofun

/-- The directories around a directory are directories. -/
theorem isDirectory_of_beginning (hbegins : other <+: path) (h : t.isDirectory path = true) :
    t.isDirectory other = true := by
  simp only [isDirectory, Bool.or_eq_true, List.any_eq_true, List.isPrefixOf_iff_prefix] at h ⊢
  rcases h with (hcurrent | ⟨d, hd, hpath⟩) | ⟨f, hf, hpath⟩
  · exact Or.inl (Or.inl (hbegins.trans hcurrent))
  · exact Or.inl (Or.inr ⟨d, hd, hbegins.trans hpath⟩)
  · exact Or.inr ⟨f, hf, hbegins.trans hpath⟩

theorem isDirectory_nil (t : FileTree) : t.isDirectory [] = true := by
  simp [isDirectory]

theorem isDirectory_current (t : FileTree) : t.isDirectory t.current = true := by
  simp [isDirectory]

end Entries

section Walking

variable {t : FileTree} {access : Access} {path start : Path} {cs : List String}

/-- A way may end at a file, and for writing also at nothing. -/
theorem arrive_eq_ok_iff {q : Path} :
    t.arrive access path = .ok q ↔
      path = q ∧ (t.entryAt path = .file ∨ t.entryAt path = .nothing ∧ access = .writing) := by
  unfold arrive
  cases t.entryAt path <;> cases access <;> simp

/-- A way leads on through directories only. -/
theorem walk_cons_eq_ok {c : String} (h : t.walk access start (c :: cs) = .ok path) :
    ¬ (access = .writing ∧ (c :: cs).all String.isEmpty) ∧ t.entryAt start = .directory ∧
      t.walk access (enter c start) cs = .ok path := by
  rw [walk] at h
  split at h
  · cases h
  · rename_i hslash
    split at h
    · cases h
    · exact ⟨hslash, ‹_›, h⟩
    · cases h

theorem walk_cons {c : String} (hslash : ¬ (access = .writing ∧ (c :: cs).all String.isEmpty))
    (hstart : t.entryAt start = .directory) :
    t.walk access start (c :: cs) = t.walk access (enter c start) cs := by
  rw [walk, if_neg hslash, hstart]

/-- A way that is read leads to a file. -/
theorem entryAt_of_walk (h : t.walk .reading start cs = .ok path) : t.entryAt path = .file := by
  induction cs generalizing start with
  | nil =>
      obtain ⟨rfl, hfile | ⟨_, haccess⟩⟩ := arrive_eq_ok_iff.mp h
      · exact hfile
      · cases haccess
  | cons c cs ih => exact ih (walk_cons_eq_ok h).2.2

/-- A way to write leads to where a file can be. -/
theorem placeable_of_walk (hstart : t.Placeable start ∨ t.isDirectory start = true)
    (h : t.walk .writing start cs = .ok path) : t.Placeable path := by
  induction cs generalizing start with
  | nil =>
      obtain ⟨rfl, hfile | ⟨hnothing, _⟩⟩ := arrive_eq_ok_iff.mp h
      · exact Or.inl hfile
      · exact hstart.resolve_right fun hdirectory => entryAt_ne_nothing hdirectory hnothing
  | cons c cs ih =>
      obtain ⟨_, hdirectory, h⟩ := walk_cons_eq_ok h
      have hstart := isDirectory_of_entryAt hdirectory
      refine ih ?_ h
      unfold enter
      split
      · exact Or.inr hstart
      · split
        · exact Or.inr (isDirectory_of_beginning (List.dropLast_prefix start) hstart)
        · -- a component of its own may denote nothing, in the directory that it is looked up in
          by_cases hnew : t.isDirectory (start ++ [c]) = true
          · exact Or.inr hnew
          · left
            cases hentry : t.entryAt (start ++ [c]) with
            | file => exact Or.inl hentry
            | directory => exact absurd (isDirectory_of_entryAt hentry) hnew
            | nothing => exact Or.inr ⟨hentry, by rw [List.dropLast_concat]; exact hdirectory⟩

/-- A slash at the end leads to no file. -/
theorem not_all_isEmpty_of_walk (hstart : t.entryAt start = .directory)
    (h : t.walk .reading start cs = .ok path) : ¬ cs.all String.isEmpty = true := by
  induction cs generalizing start with
  | nil =>
      rw [walk, arrive, hstart] at h
      cases h
  | cons c cs ih =>
      obtain ⟨_, _, h⟩ := walk_cons_eq_ok h
      intro hall
      obtain ⟨hc, hall⟩ := (Bool.and_eq_true _ _).mp hall
      rw [enter, if_pos (Or.inl (String.isEmpty_iff.mp hc))] at h
      exact ih hstart h hall

/-- A file that is read can be written. -/
theorem walk_writing_of_reading (h : t.walk .reading start cs = .ok path) :
    t.walk .writing start cs = .ok path := by
  induction cs generalizing start with
  | nil =>
      obtain ⟨rfl, hfile | ⟨_, haccess⟩⟩ := arrive_eq_ok_iff.mp h
      · exact arrive_eq_ok_iff.mpr ⟨rfl, Or.inl hfile⟩
      · cases haccess
  | cons c cs ih =>
      obtain ⟨_, hdirectory, hrest⟩ := walk_cons_eq_ok h
      rw [walk_cons (fun hslash => not_all_isEmpty_of_walk hdirectory h hslash.2) hdirectory]
      exact ih hrest

end Walking

section Locating

variable {t : FileTree} {path : Path} {name : String}

/-- What holds of every way from the root and from the current directory holds of names. -/
theorem locate_eq_ok {access : Access} (h : t.locate access name = .ok path) :
    ∃ start cs, t.isDirectory start = true ∧ t.walk access start cs = .ok path ∧
      ∀ (t' : FileTree) access', t'.current = t.current →
        t'.locate access' name = t'.walk access' start cs := by
  unfold locate at h
  split at h
  · cases h
  · rename_i hname
    split at h
    · rename_i cs hcomponents
      refine ⟨[], cs, isDirectory_nil t, h, fun t' access' _ => ?_⟩
      rw [locate, if_neg hname, hcomponents]
      rfl
    · rename_i hcomponents
      refine ⟨t.current, components name, isDirectory_current t, h, fun t' access' hcurrent => ?_⟩
      rw [locate, if_neg hname, ← hcurrent]
      split
      · rename_i cs heq
        exact absurd heq (hcomponents cs)
      · rfl

theorem entryAt_of_find (h : t.find name = .ok path) : t.entryAt path = .file := by
  obtain ⟨_, _, _, hwalk, _⟩ := locate_eq_ok h
  exact entryAt_of_walk hwalk

/-- **Where a file can be written**: at a file, or where there is nothing in a directory. -/
theorem placeable_of_place (h : t.place name = .ok path) : t.Placeable path := by
  obtain ⟨_, _, hstart, hwalk, _⟩ := locate_eq_ok h
  exact placeable_of_walk (Or.inr hstart) hwalk

/-- A file that is denoted can be written. -/
theorem place_of_find (h : t.find name = .ok path) : t.place name = .ok path := by
  obtain ⟨_, _, _, hwalk, hlocate⟩ := locate_eq_ok h
  exact (hlocate t .writing rfl).trans (walk_writing_of_reading hwalk)

/-- A name without slashes that denotes nothing can be written in the current directory. -/
theorem place_of_component (hname : components name = [name])
    (hproper : name ≠ "" ∧ name ≠ "." ∧ name ≠ "..")
    (hcurrent : t.entryAt t.current = .directory)
    (hnothing : t.entryAt (t.current ++ [name]) = .nothing) :
    t.place name = .ok (t.current ++ [name]) := by
  obtain ⟨hempty, hdot, hdots⟩ := hproper
  have hslash : ¬ (Access.writing = .writing ∧ [name].all String.isEmpty) := by
    simpa [String.isEmpty_iff] using hempty
  have henter : enter name t.current = t.current ++ [name] := by
    rw [enter, if_neg (by simp [hempty, hdot]), if_neg hdots]
  have hlocate : t.locate .writing name = t.walk .writing t.current [name] := by
    rw [locate, if_neg hempty, hname]
    split
    · rename_i heq
      cases heq
      exact absurd rfl hempty
    · rfl
  rw [place, hlocate, walk_cons hslash hcurrent, henter, walk]
  exact arrive_eq_ok_iff.mpr ⟨rfl, Or.inr ⟨hnothing, rfl⟩⟩

end Locating

section Writing

variable {t t' : FileTree} {path other : Path} {bytes : ByteArray}

/-- Whether some file is at a path of a kind depends on the written path and the others. -/
theorem any_writeAt (t : FileTree) (path : Path) (bytes : ByteArray) (p : Path → Bool) :
    (t.writeAt path bytes).files.any (fun f => p f.1) =
      (p path || t.files.any fun f => p f.1) := by
  unfold writeAt
  split
  · rename_i hany
    obtain ⟨g, hg, hpath⟩ := List.any_eq_true.mp hany
    obtain rfl := eq_of_beq hpath
    have hmap : ∀ f : Path × ByteArray, (if f.1 = g.1 then (g.1, bytes) else f).1 = f.1 := by
      intro f
      split
      · rename_i h
        exact h.symm
      · rfl
    simp only [List.any_map, Function.comp_def, hmap]
    cases hp : p g.1 with
    | false => rfl
    | true => exact List.any_eq_true.mpr ⟨g, hg, hp⟩
  · simp [List.any_append, Bool.or_comm]

theorem current_writeAt (t : FileTree) (path : Path) (bytes : ByteArray) :
    (t.writeAt path bytes).current = t.current := by
  unfold writeAt
  split <;> rfl

theorem entryAt_writeAt_self (t : FileTree) (path : Path) (bytes : ByteArray) :
    (t.writeAt path bytes).entryAt path = .file := by
  rw [entryAt_eq_file_iff, any_writeAt t path bytes fun q => q == path]
  simp

theorem isDirectory_writeAt (t : FileTree) (path other : Path) (bytes : ByteArray) :
    (t.writeAt path bytes).isDirectory other =
      (t.isDirectory other || other.isPrefixOf path) := by
  have hdirectories : (t.writeAt path bytes).directories = t.directories := by
    unfold writeAt
    split <;> rfl
  rw [isDirectory, isDirectory, current_writeAt, hdirectories,
    any_writeAt t path bytes fun q => other.isPrefixOf q]
  generalize (other.isPrefixOf t.current || t.directories.any fun d => other.isPrefixOf d) = b
  cases b <;> simp [Bool.or_comm]

/-- **There is no change at other paths.** -/
theorem entryAt_writeAt_of_ne (hpath : t.Placeable path) (hne : other ≠ path)
    (bytes : ByteArray) : (t.writeAt path bytes).entryAt other = t.entryAt other := by
  have hfile : (t.writeAt path bytes).files.any (fun f => f.1 == other) =
      t.files.any fun f => f.1 == other := by
    have hother : (path == other) = false := beq_eq_false_iff_ne.mpr (Ne.symm hne)
    rw [any_writeAt t path bytes fun q => q == other, hother, Bool.false_or]
  have hdirectory : (t.writeAt path bytes).isDirectory other = t.isDirectory other := by
    rw [isDirectory_writeAt]
    cases hbegins : other.isPrefixOf path with
    | false => rw [Bool.or_false]
    | true =>
        rw [Bool.or_true]
        rw [List.isPrefixOf_iff_prefix] at hbegins
        rcases hpath with hfile | ⟨_, haround⟩
        · obtain ⟨f, hf, heq⟩ := List.any_eq_true.mp (entryAt_eq_file_iff.mp hfile)
          obtain rfl := eq_of_beq heq
          refine Eq.symm ?_
          simp only [isDirectory, Bool.or_eq_true, List.any_eq_true, List.isPrefixOf_iff_prefix]
          exact Or.inr ⟨f, hf, hbegins⟩
        · -- what is in front of the new file is the directory around it, or in front of that
          have hfront : other <+: path.dropLast := by
            rcases List.eq_nil_or_concat path with rfl | ⟨front, c, rfl⟩
            · exact hbegins
            · rw [List.concat_eq_append] at hbegins hne ⊢
              rw [List.dropLast_concat]
              exact (List.prefix_concat_iff.mp hbegins).resolve_left hne
          exact (isDirectory_of_beginning hfront (isDirectory_of_entryAt haround)).symm
  rw [entryAt, entryAt, hfile, hdirectory]

/-- A directory stays one. -/
theorem entryAt_writeAt_directory (hpath : t.Placeable path) (h : t.entryAt other = .directory)
    (bytes : ByteArray) : (t.writeAt path bytes).entryAt other = .directory := by
  have hne : other ≠ path := by
    rintro rfl
    rcases hpath with hfile | ⟨hnothing, _⟩
    · rw [hfile] at h
      cases h
    · rw [hnothing] at h
      cases h
  rw [entryAt_writeAt_of_ne hpath hne, h]

/-- A way to a file leads there still, and now leads to the file that was written. -/
theorem walk_writeAt (hpath : t.Placeable path) (bytes : ByteArray) {access : Access}
    {start : Path} {cs : List String} (h : t.walk access start cs = .ok other)
    (hfile : t.entryAt other = .file ∨ other = path) :
    (t.writeAt path bytes).walk .reading start cs = .ok other := by
  induction cs generalizing start with
  | nil =>
      obtain ⟨rfl, _⟩ := arrive_eq_ok_iff.mp h
      refine arrive_eq_ok_iff.mpr ⟨rfl, Or.inl ?_⟩
      by_cases heq : start = path
      · rw [heq, entryAt_writeAt_self]
      · rw [entryAt_writeAt_of_ne hpath heq]
        exact hfile.resolve_right heq
  | cons c cs ih =>
      obtain ⟨_, hdirectory, hrest⟩ := walk_cons_eq_ok h
      rw [walk_cons (by simp) (entryAt_writeAt_directory hpath hdirectory bytes)]
      exact ih hrest

/-- A way that leads to another file afterwards led there before. -/
theorem walk_of_writeAt (hpath : t.Placeable path) {start : Path} {cs : List String}
    (h : (t.writeAt path bytes).walk .reading start cs = .ok other) (hne : other ≠ path) :
    t.walk .reading start cs = .ok other := by
  induction cs generalizing start with
  | nil =>
      obtain ⟨rfl, hentry⟩ := arrive_eq_ok_iff.mp h
      rw [entryAt_writeAt_of_ne hpath hne] at hentry
      exact arrive_eq_ok_iff.mpr ⟨rfl, hentry⟩
  | cons c cs ih =>
      obtain ⟨_, hdirectory, hrest⟩ := walk_cons_eq_ok h
      have hstart : start ≠ path := by
        rintro rfl
        rw [entryAt_writeAt_self] at hdirectory
        cases hdirectory
      rw [entryAt_writeAt_of_ne hpath hstart] at hdirectory
      rw [walk_cons (by simp) hdirectory]
      exact ih hrest

/-- **A name denotes the same file after writing**, if it is another one. -/
theorem find_writeAt_iff (hpath : t.Placeable path) (hne : other ≠ path) {name : String} :
    (t.writeAt path bytes).find name = .ok other ↔ t.find name = .ok other := by
  constructor
  · intro h
    obtain ⟨_, _, _, hwalk, hlocate⟩ := locate_eq_ok h
    exact (hlocate t .reading (current_writeAt t path bytes).symm).trans
      (walk_of_writeAt hpath hwalk hne)
  · intro h
    obtain ⟨_, _, _, hwalk, hlocate⟩ := locate_eq_ok h
    exact (hlocate _ .reading (current_writeAt t path bytes)).trans
      (walk_writeAt hpath bytes hwalk (Or.inl (entryAt_of_find h)))

/-- The name that was written to denotes the file. -/
theorem find_writeAt_self {name : String} (h : t.place name = .ok path) (bytes : ByteArray) :
    (t.writeAt path bytes).find name = .ok path := by
  obtain ⟨_, _, _, hwalk, hlocate⟩ := locate_eq_ok h
  exact (hlocate _ .reading (current_writeAt t path bytes)).trans
    (walk_writeAt (placeable_of_place h) bytes hwalk (Or.inr rfl))

theorem bytesAt_writeAt_self (t : FileTree) (path : Path) (bytes : ByteArray) :
    (t.writeAt path bytes).bytesAt path = bytes := by
  unfold writeAt
  split
  · rename_i hany
    rw [bytesAt]
    dsimp only
    generalize t.files = files at hany
    induction files with
    | nil => cases hany
    | cons f files ih =>
        rw [List.map_cons]
        by_cases hf : f.1 = path
        · rw [if_pos hf, List.lookup_cons_self, Option.getD_some]
        · have hother : (path == f.1) = false := beq_eq_false_iff_ne.mpr fun heq => hf heq.symm
          rw [if_neg hf, List.lookup_cons, hother]
          refine ih ?_
          simpa [hf] using hany
  · rename_i hnone
    rw [bytesAt]
    dsimp only
    generalize t.files = files at hnone
    induction files with
    | nil => simp
    | cons f files ih =>
        simp only [List.any_cons, Bool.or_eq_true, not_or] at hnone
        have hother : (path == f.1) = false :=
          beq_eq_false_iff_ne.mpr fun heq => hnone.1 (by simp [heq])
        rw [List.cons_append, List.lookup_cons, hother]
        exact ih hnone.2

theorem bytesAt_writeAt_of_ne (hne : other ≠ path) (bytes : ByteArray) :
    (t.writeAt path bytes).bytesAt other = t.bytesAt other := by
  have hpath : (other == path) = false := beq_eq_false_iff_ne.mpr hne
  rw [bytesAt, bytesAt, writeAt]
  split
  · dsimp only
    congr 1
    induction t.files with
    | nil => rfl
    | cons f files ih =>
        rw [List.map_cons, List.lookup_cons, List.lookup_cons, ih]
        by_cases hf : f.1 = path
        · have hother : (other == f.1) = false :=
            beq_eq_false_iff_ne.mpr fun heq => hne (heq.trans hf)
          simp only [if_pos hf, hother, hpath]
        · rw [if_neg hf]
  · dsimp only
    rw [List.lookup_append, List.lookup_cons, hpath]
    simp

theorem write_eq_ok_iff {name : String} :
    t.write name bytes = .ok t' ↔ ∃ path, t.place name = .ok path ∧ t.writeAt path bytes = t' := by
  rw [write]
  cases t.place name with
  | error e => simp [Except.map]
  | ok path => simp [Except.map]

theorem read_eq_ok_iff {name : String} :
    t.read name = .ok bytes ↔ ∃ path, t.find name = .ok path ∧ t.bytesAt path = bytes := by
  rw [read]
  cases t.find name with
  | error e => simp [Except.map]
  | ok path => simp [Except.map]

/-- A file that is read can be written. -/
theorem exists_write {name : String} {old : ByteArray} (hread : t.read name = .ok old)
    (bytes : ByteArray) : ∃ t', t.write name bytes = .ok t' := by
  obtain ⟨path, hfind, _⟩ := read_eq_ok_iff.mp hread
  exact ⟨_, write_eq_ok_iff.mpr ⟨path, place_of_find hfind, rfl⟩⟩

/-- **What was written is read again.** -/
theorem read_of_write {name : String} (h : t.write name bytes = .ok t') :
    t'.read name = .ok bytes := by
  obtain ⟨path, hplace, rfl⟩ := write_eq_ok_iff.mp h
  exact read_eq_ok_iff.mpr ⟨path, find_writeAt_self hplace bytes, bytesAt_writeAt_self t path bytes⟩

/-- **Every other file is as it was**, and there is no other file more. -/
theorem read_of_write_iff {name other : String} (h : t.write name bytes = .ok t')
    (hne : t'.find other ≠ t'.find name) (old : ByteArray) :
    t'.read other = .ok old ↔ t.read other = .ok old := by
  obtain ⟨path, hplace, rfl⟩ := write_eq_ok_iff.mp h
  have hpath := placeable_of_place hplace
  rw [find_writeAt_self hplace] at hne
  rw [read_eq_ok_iff, read_eq_ok_iff]
  have hother : ∀ q, t.find other = .ok q → q ≠ path := by
    rintro q hq rfl
    obtain ⟨_, _, _, hwalk, hlocate⟩ := locate_eq_ok hq
    exact hne ((hlocate _ .reading (current_writeAt t q bytes)).trans
      (walk_writeAt hpath bytes hwalk (Or.inr rfl)))
  constructor
  · rintro ⟨q, hq, hbytes⟩
    have hqne : q ≠ path := fun heq => hne (heq ▸ hq)
    exact ⟨q, (find_writeAt_iff hpath hqne).mp hq,
      (bytesAt_writeAt_of_ne hqne bytes).symm.trans hbytes⟩
  · rintro ⟨q, hq, hbytes⟩
    have hqne := hother q hq
    exact ⟨q, (find_writeAt_iff hpath hqne).mpr hq, (bytesAt_writeAt_of_ne hqne bytes).trans hbytes⟩

end Writing

section Overwriting

variable {t t' : FileTree} {path : Path} {bytes old : ByteArray} {name : String}

/-- Where a file is overwritten nothing changes but its bytes. -/
theorem entryAt_overwrite (hfile : t.entryAt path = .file) (other : Path) (bytes : ByteArray) :
    (t.writeAt path bytes).entryAt other = t.entryAt other := by
  by_cases hne : other = path
  · rw [hne, entryAt_writeAt_self, hfile]
  · exact entryAt_writeAt_of_ne (Or.inl hfile) hne bytes

theorem walk_overwrite (hfile : t.entryAt path = .file) (access : Access) (start : Path)
    (cs : List String) :
    (t.writeAt path bytes).walk access start cs = t.walk access start cs := by
  induction cs generalizing start with
  | nil => rw [walk, walk, arrive, arrive, entryAt_overwrite hfile]
  | cons c cs ih => rw [walk, walk, entryAt_overwrite hfile, ih]

/-- **A name denotes what it did** after a file that existed has been written. -/
theorem find_of_write (hread : t.read name = .ok old) (h : t.write name bytes = .ok t')
    (other : String) : t'.find other = t.find other := by
  obtain ⟨path, hplace, rfl⟩ := write_eq_ok_iff.mp h
  obtain ⟨q, hfind, _⟩ := read_eq_ok_iff.mp hread
  obtain rfl : q = path := Except.ok.inj ((place_of_find hfind).symm.trans hplace)
  have hfile := entryAt_of_find hfind
  unfold find locate
  rw [current_writeAt]
  simp only [walk_overwrite hfile]

theorem read_of_write_of_ne {other : String} (hread : t.read name = .ok old)
    (h : t.write name bytes = .ok t') (hne : t.find other ≠ t.find name) :
    t'.read other = t.read other := by
  have hsame := find_of_write hread h
  obtain ⟨path, hplace, rfl⟩ := write_eq_ok_iff.mp h
  obtain ⟨q, hfind, _⟩ := read_eq_ok_iff.mp hread
  obtain rfl : q = path := Except.ok.inj ((place_of_find hfind).symm.trans hplace)
  rw [read, read, hsame]
  cases hother : t.find other with
  | error e => rfl
  | ok path' =>
      have hpath : path' ≠ q := by
        rintro rfl
        exact hne (hother.trans hfind.symm)
      exact congrArg Except.ok (bytesAt_writeAt_of_ne hpath bytes)

end Overwriting

end FileTree
end LineMachine
