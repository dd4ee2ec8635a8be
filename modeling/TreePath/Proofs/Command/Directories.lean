/-
**What a write keeps.**

A file is made or replaced in a directory that was there before, and never in the place of a
directory.  So a write makes no directory and takes none away, and every name leads where it led
before: all that a write changes is the text in one place.

That the directory of a file exists does not yet say that those above it do, and the new file would
make all of them exist.  But a name is followed from the root or from the working directory, one
part at a time.  Wherever one stands on the way, one has come through the directories above, or has
gone up to them (`Files.Standing`).

Main definitions:

* `Files.Standing` — a directory that exists with all those above it.

Main results:

* `Files.Standing.followFrom` — **a name leads to such a directory, or to a place in one**;
* `Files.hasDirectory_of_write?` — **the directories are the same after a write**;
* `Files.follow?_of_write?`, `Files.locate?_of_write?` — so every name leads where it led;
* `Files.read?_of_write?`, `Files.read?_of_write?_of_ne` — what is read after a write.
-/

import TreePath.Command.Files

set_option relaxedAutoImplicit false
set_option autoImplicit false

namespace TreePath

namespace Files

/-! ### Names and places -/

theorem not_mem_of_mem_splitOn {s part : List Char} (h : part ∈ s.splitOn '/') : '/' ∉ part := by
  induction s generalizing part with
  | nil =>
      obtain rfl := List.mem_singleton.1 h
      exact List.not_mem_nil
  | cons c s ih =>
      obtain ⟨first, rest, hsplit⟩ := List.exists_cons_of_ne_nil (List.splitOn_ne_nil '/' s)
      rw [List.splitOn_cons_eq_if_modifyHead, hsplit, List.modifyHead_cons] at h
      rw [hsplit] at ih
      split at h
      · rcases List.mem_cons.1 h with rfl | h
        · exact List.not_mem_nil
        · exact ih h
      · next hc =>
          rcases List.mem_cons.1 h with rfl | h
          · simp only [List.mem_cons, not_or]
            exact ⟨fun heq => hc (beq_iff_eq.2 heq.symm), ih List.mem_cons_self⟩
          · exact ih (List.mem_cons_of_mem _ h)

/-- The name of a place has the parts of the place. -/
theorem splitName_placeName {place : Place} (hne : place ≠ []) (h : ∀ part ∈ place, '/' ∉ part) :
    splitName (placeName place) = place := by
  rw [splitName, placeName, String.toList_ofList]
  exact List.splitOn_intercalate '/' h hne

/-! ### Standing in a directory -/

section Standing

variable {files : Files} {directory place : Place} {part : List Char} {name : String}

theorem hasDirectory_iff : files.hasDirectory place = true ↔
    files.listsDirectory place = true ∨ ∃ e ∈ files.texts, place <+: (splitName e.1).dropLast := by
  simp [hasDirectory]

/-- **A directory in which one can stand**: it exists, and so do all those above it. -/
structure Standing (files : Files) (directory : Place) : Prop where
  /-- The directory and those above it exist. -/
  above : ∀ q, q <+: directory → files.hasDirectory q = true
  /-- Its parts can be told apart in its name. -/
  parts : ∀ part ∈ directory, '/' ∉ part

theorem standing_start : files.Standing (startOf name) := by
  have hfront : ∀ q, q <+: startOf name → q = [] ∨ q = [[]] := fun q hq => by
    rw [startOf] at hq
    split at hq
    · exact List.prefix_concat_iff.1 hq |>.symm.imp List.prefix_nil.1 id
    · exact .inl (List.prefix_nil.1 hq)
  refine ⟨fun q hq => hasDirectory_iff.2 (.inl ?_), fun part hpart => ?_⟩
  · rcases hfront q hq with rfl | rfl <;> rfl
  · rw [startOf] at hpart
    split at hpart
    · rw [List.mem_singleton.1 hpart]
      exact List.not_mem_nil
    · cases hpart

/-- From a directory one goes on to one that exists. -/
theorem Standing.concat (h : files.Standing directory) (hpart : '/' ∉ part)
    (hthere : files.hasDirectory (directory ++ [part]) = true) :
    files.Standing (directory ++ [part]) := by
  refine ⟨fun q hq => ?_, ?_⟩
  · rcases List.prefix_concat_iff.1 hq with rfl | hq
    · exact hthere
    · exact h.above q hq
  · exact List.forall_mem_append.2 ⟨h.parts, List.forall_mem_singleton.2 hpart⟩

/-- From a directory one goes up. -/
theorem Standing.parent (h : files.Standing directory) : files.Standing (parent directory) := by
  rw [Files.parent]
  split
  · exact h
  · split
    · exact h.concat (by decide) (hasDirectory_iff.2 (.inl (by simp [listsDirectory])))
    · exact ⟨fun q hq => h.above q (hq.trans (List.dropLast_prefix _)),
        fun part hpart => h.parts part (List.dropLast_subset _ hpart)⟩

/-- A part of a name leads to a directory in which one can stand, or to a place in this one. -/
theorem Standing.enter (h : files.Standing directory) (part : List Char) :
    files.Standing (enter directory part) ∨ Files.enter directory part = directory ++ [part] := by
  rw [Files.enter]
  split
  · exact .inl h
  · split
    · exact .inl h.parent
    · exact .inr rfl

/-- **A name leads to a directory in which one can stand, or to a place in one.** -/
theorem Standing.followFrom (h : files.Standing directory) {parts : List (List Char)}
    (hparts : ∀ part ∈ parts, '/' ∉ part)
    (hplace : files.followFrom directory parts = some place) :
    files.Standing place ∨ ∃ above part, files.Standing above ∧ '/' ∉ part ∧
      place = above ++ [part] := by
  induction parts generalizing directory with
  | nil =>
      cases hplace
      exact .inl h
  | cons part rest ih =>
      obtain ⟨hpart, hrest⟩ := List.forall_mem_cons.1 hparts
      have hentered := h.enter part
      cases rest with
      | nil =>
          cases hplace
          exact hentered.imp_right fun heq => ⟨directory, part, h, hpart, heq⟩
      | cons next rest =>
          rw [followFrom_cons_cons, Option.ite_none_right_eq_some] at hplace
          obtain ⟨hthere, hplace⟩ := hplace
          refine ih (hentered.elim id fun heq => ?_) hrest hplace
          rw [heq] at hthere ⊢
          exact h.concat hpart hthere

/-- The file of a name stands in a directory in which one can stand. -/
theorem exists_standing_of_locate? {target : String} (h : files.locate? name = some target) :
    ∃ directory part, files.Standing directory ∧ '/' ∉ part ∧
      target = placeName (directory ++ [part]) := by
  obtain ⟨place, hplace, rfl⟩ := Option.map_eq_some_iff.1 h
  obtain ⟨hplace, hfree⟩ := Option.filter_eq_some_iff.1 hplace
  rw [follow?, Option.ite_none_left_eq_some] at hplace
  rcases standing_start.followFrom (fun _ => not_mem_of_mem_splitOn) hplace.2 with
    hstanding | ⟨directory, part, hstanding, hpart, rfl⟩
  · rw [hstanding.above place (List.prefix_refl _)] at hfree
    cases hfree
  · exact ⟨directory, part, hstanding, hpart, rfl⟩

end Standing

/-! ### What a write keeps -/

section Write

variable {files written : Files} {name text : String}

/-- **The directories are the same after a write.** -/
theorem hasDirectory_of_write? (h : files.write? name text = some written) :
    written.hasDirectory = files.hasDirectory := by
  obtain ⟨target, htarget, rfl⟩ := Option.map_eq_some_iff.1 h
  obtain ⟨directory, part, hstanding, hpart, rfl⟩ :=
    exists_standing_of_locate? (locate?_of_createAt? htarget)
  have hparts : splitName (placeName (directory ++ [part])) = directory ++ [part] :=
    splitName_placeName (by simp) (List.forall_mem_append.2
      ⟨hstanding.parts, List.forall_mem_singleton.2 hpart⟩)
  funext place
  rw [Bool.eq_iff_iff]
  constructor
  · intro hthere
    rcases hasDirectory_iff.1 hthere with hlisted | ⟨e, he, hbelow⟩
    · exact hasDirectory_iff.2 (.inl hlisted)
    · rcases Entries.eq_or_mem_of_mem_insert he with rfl | he
      · rw [hparts, List.dropLast_concat] at hbelow
        exact hstanding.above place hbelow
      · exact hasDirectory_iff.2 (.inr ⟨e, he, hbelow⟩)
  · intro hthere
    refine hasDirectory_iff.2 ((hasDirectory_iff.1 hthere).imp_right ?_)
    rintro ⟨e, he, hbelow⟩
    obtain ⟨e', he', hkey⟩ := Entries.exists_mem_insert _ text he
    exact ⟨e', he', hkey ▸ hbelow⟩

theorem followFrom_of_write? (h : files.write? name text = some written) (directory : Place)
    (parts : List (List Char)) :
    written.followFrom directory parts = files.followFrom directory parts := by
  induction parts generalizing directory with
  | nil => rfl
  | cons part rest ih =>
      cases rest with
      | nil => rfl
      | cons next rest =>
          rw [followFrom_cons_cons, followFrom_cons_cons, hasDirectory_of_write? h, ih]

/-- A name leads to the same place after a write as before. -/
theorem follow?_of_write? (h : files.write? name text = some written) (other : String) :
    written.follow? other = files.follow? other := by
  rw [follow?, follow?, followFrom_of_write? h]

/-- The file of a name has the same place after a write as before. -/
theorem locate?_of_write? (h : files.write? name text = some written) (other : String) :
    written.locate? other = files.locate? other := by
  rw [locate?, locate?, follow?_of_write? h, hasDirectory_of_write? h]

/-- After a write, the file of the name holds what was written. -/
theorem read?_of_write? (h : files.write? name text = some written) :
    written.read? name = some text := by
  obtain ⟨place, hplace, -⟩ := Option.map_eq_some_iff.1 h
  rw [read?, locate?_of_write? h, locate?_of_createAt? hplace, Option.bind_some,
    find?_write? hplace h, if_pos rfl]

/-- After a write, the file of a name that stands for another place holds what it held before. -/
theorem read?_of_write?_of_ne (h : files.write? name text = some written) {other : String}
    (hne : files.locate? other ≠ files.locate? name) :
    written.read? other = files.read? other := by
  obtain ⟨place, hplace, -⟩ := Option.map_eq_some_iff.1 h
  rw [read?, read?, locate?_of_write? h]
  cases hthere : files.locate? other with
  | none => rfl
  | some there =>
      have hother : place ≠ there := fun heq => hne (by
        rw [hthere, locate?_of_createAt? hplace, heq])
      rw [Option.bind_some, Option.bind_some, find?_write? hplace h, if_neg hother]

end Write

end Files

end TreePath
