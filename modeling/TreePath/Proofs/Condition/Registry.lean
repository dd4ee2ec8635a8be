/-
**A context is what it finds.**

The conditions of a context are kept in ascending order of their names, so there is one list only
for what is found under each name.  Contexts that find the same conditions and agree on descendant
steps are equal, and so is everything that is compiled in them, errors with lists of names included.

Main results:

* `Entries.eq_of_find?_eq` — entries in order are determined by what is found;
* `Context.mem_names_iff` — the names are those under which something is found;
* `Context.eq_of_find?_eq` — **contexts that find the same are equal**;
* `Context.names_register` — where a registered name is put among the others.
-/

import Mathlib.Data.List.Sort
import TreePath.Condition.Context

set_option relaxedAutoImplicit false
set_option autoImplicit false

namespace TreePath

/-- Entries in ascending order are determined by what is found under each key. -/
theorem Entries.eq_of_find?_eq {α : Type} {es fs : Entries α} (hes : Ascending es)
    (hfs : Ascending fs) (h : ∀ k, find? es k = find? fs k) : es = fs := by
  have : Std.Irrefl fun a b : String × α => a.1 < b.1 := ⟨fun a => String.lt_irrefl a.1⟩
  have : Std.Antisymm fun a b : String × α => a.1 < b.1 :=
    ⟨fun _ _ hab hba => absurd hba (String.lt_asymm hab)⟩
  refine List.Pairwise.eq_of_mem_iff (List.pairwise_map.1 hes) (List.pairwise_map.1 hfs) ?_
  rintro ⟨k, a⟩
  rw [← find?_eq_some_iff hes, ← find?_eq_some_iff hfs, h]

/-- Inserting under a key that is there changes no keys. -/
theorem Entries.keys_insert_of_mem {α : Type} {key : String} (a : α) {es : Entries α}
    (hes : Ascending es) (h : key ∈ es.map Prod.fst) :
    (insert key a es).map Prod.fst = es.map Prod.fst := by
  induction es with
  | nil => cases h
  | cons e es ih =>
      obtain ⟨hfirst, hes⟩ := List.pairwise_cons.1 hes
      simp only [insert]
      split
      · next hlt =>
          rcases List.mem_cons.1 h with rfl | h
          · exact absurd hlt (String.lt_irrefl _)
          · exact absurd (hfirst key h) (String.lt_asymm hlt)
      · split
        · next heq => simp [heq]
        · next hne =>
            simp only [List.map_cons, ih hes ((List.mem_cons.1 h).resolve_left hne)]

/-- Inserting under a key that is not there puts it somewhere among the others. -/
theorem Entries.exists_keys_insert {α : Type} {key : String} (a : α) {es : Entries α}
    (h : key ∉ es.map Prod.fst) : ∃ before after, es.map Prod.fst = before ++ after ∧
      (insert key a es).map Prod.fst = before ++ key :: after := by
  induction es with
  | nil => exact ⟨[], [], rfl, rfl⟩
  | cons e es ih =>
      obtain ⟨hne, h⟩ := not_or.1 (List.mem_cons.not.1 h)
      simp only [insert, if_neg hne]
      split
      · exact ⟨[], _, rfl, rfl⟩
      · obtain ⟨before, after, hkeys, hinsert⟩ := ih h
        exact ⟨e.1 :: before, after, by simp [hkeys], by simp [hinsert]⟩

namespace Context

/-- The names of a context are those under which a condition is found. -/
theorem mem_names_iff {ctx : Context} {name : String} :
    name ∈ ctx.names ↔ ∃ c, ctx.find? name = some c := by
  simp only [names, List.mem_map, find?, Entries.find?_eq_some_iff ctx.ascending]
  constructor
  · rintro ⟨⟨k, c⟩, hmem, rfl⟩
    exact ⟨c, hmem⟩
  · rintro ⟨c, hmem⟩
    exact ⟨(name, c), hmem, rfl⟩

/-- **Contexts that find the same conditions**, and agree on descendant steps, are equal. -/
theorem eq_of_find?_eq {ctx ctx' : Context} (hfind : ∀ name, ctx.find? name = ctx'.find? name)
    (hdescendants : ctx.descendants = ctx'.descendants) : ctx = ctx' := by
  obtain ⟨conditions, descendants, ascending, named⟩ := ctx
  obtain ⟨conditions', descendants', ascending', named'⟩ := ctx'
  obtain rfl : conditions = conditions' := Entries.eq_of_find?_eq ascending ascending' hfind
  obtain rfl : descendants = descendants' := hdescendants
  rfl

/-- **Where a registered name is put among the others**: the names stay the same if it was there,
and otherwise it is put between those that come before it and those that come after it. -/
theorem names_register (ctx : Context) (c : Condition) :
    (c.name ∈ ctx.names → (ctx.register c).names = ctx.names) ∧
      (c.name ∉ ctx.names → ∃ before after, ctx.names = before ++ after ∧
        (ctx.register c).names = before ++ c.name :: after ∧
        (∀ name ∈ before, name < c.name) ∧ ∀ name ∈ after, c.name < name) := by
  refine ⟨fun h => Entries.keys_insert_of_mem c ctx.ascending h, fun h => ?_⟩
  obtain ⟨before, after, hnames, hregister⟩ := Entries.exists_keys_insert c h
  have hascending := (ctx.register c).names_ascending
  rw [show (ctx.register c).names = _ from hregister, List.pairwise_append,
    List.pairwise_cons] at hascending
  obtain ⟨-, ⟨hafter, -⟩, hbefore⟩ := hascending
  exact ⟨before, after, hnames, hregister, fun name hname => hbefore name hname _
    List.mem_cons_self, hafter⟩

end Context

end TreePath
