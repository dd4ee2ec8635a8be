/-
**Values that follow one another in a text.**

A text is read as a stream value by value, until nothing but blanks is left or the next value cannot
be read.  This module states it as a relation, one rule for each thing that can come next, and shows
that the reader of streams is that relation: the count which bounds it is always enough, because
every value takes at least one character.  So every text is a stream of certain values and has one
certain end.

A document that was written on a line of its own is the next value of a stream, and after the line
the stream goes on.

Main definitions:

* `StreamOf` — the values that can be read of a text, and whether they are all of it.

Main results:

* `Document.length_first?_lt` — every value takes at least one character;
* `streamOf_iff_readAll` — **the reader of streams is the relation**;
* `Json.ReadAs.streamOf_value`, `Json.ReadAs.streamOf_refused` — a document on a line of its own;
* `streamOf_lines` — documents on lines of their own.
-/

import Mathlib.Data.List.DropRight
import TreePath.Proofs.Json.RoundTrip

set_option relaxedAutoImplicit false
set_option autoImplicit false

namespace TreePath

/-! ### Values take characters -/

namespace Document

theorem length_skipBlank_le (s : List Char) : (skipBlank s).length ≤ s.length :=
  (List.dropWhile_suffix _).length_le

theorem length_lt_of_skipBlank {s t : List Char} {c : Char} (h : skipBlank s = c :: t) :
    t.length < s.length := by
  have := length_skipBlank_le s
  rw [h, List.length_cons] at this
  exact this

theorem length_word?_le {word : String} {s rest : List Char} (h : word? word s = some rest) :
    rest.length ≤ s.length := by
  simp only [word?, Option.ite_none_right_eq_some, Option.some.injEq] at h
  rw [← h.2]
  exact (List.drop_suffix _ _).length_le

/-- A word takes at least the character that it was told by. -/
theorem length_lt_of_word? {word : String} {s t rest : List Char} {c : Char} {d e : Document}
    (ht : skipBlank s = c :: t) (h : ((word? word t).map fun rest => (e, rest)) = some (d, rest)) :
    rest.length < s.length := by
  obtain ⟨u, hu, heq⟩ := Option.map_eq_some_iff.1 h
  cases heq
  exact Nat.lt_of_le_of_lt (length_word?_le hu) (length_lt_of_skipBlank ht)

theorem length_pieces?_lt {s rest : List Char} {pieces : List Piece}
    (h : pieces? s = some (pieces, rest)) : rest.length < s.length := by
  fun_induction pieces? s generalizing pieces rest with
  | case1 => cases h
  | case2 s =>
      cases h
      exact Nat.lt_succ_self _
  | case3 a b c d s ih =>
      simp only [Option.bind_eq_bind, Option.bind_eq_some_iff, Prod.exists] at h
      obtain ⟨u, -, more, t, hmore, heq⟩ := h
      cases heq
      have := ih hmore
      simp only [List.length_cons]
      omega
  | case4 e s _ ih =>
      simp only [Option.bind_eq_bind, Option.bind_eq_some_iff, Prod.exists] at h
      obtain ⟨c, -, more, t, hmore, heq⟩ := h
      cases heq
      have := ih hmore
      simp only [List.length_cons]
      omega
  | case5 => cases h
  | case6 c s _ _ _ _ ih =>
      simp only [Option.bind_eq_bind, Option.bind_eq_some_iff, Prod.exists] at h
      obtain ⟨more, t, hmore, heq⟩ := h
      cases heq
      exact Nat.lt_succ_of_lt (ih hmore)

/-- What was read of a text is not changed by putting it into something else. -/
theorem exists_of_map_eq_some {α β : Type} {f : α → β} {o : Option (α × List Char)} {b : β}
    {rest : List Char} (h : (o.map fun (a, t) => (f a, t)) = some (b, rest)) :
    ∃ a, o = some (a, rest) := by
  obtain ⟨⟨a, t⟩, ho, heq⟩ := Option.map_eq_some_iff.1 h
  cases heq
  exact ⟨a, ho⟩

section Levels

variable {levels : Nat} {s rest : List Char}

theorem length_value?_lt
    (hitems : ∀ {s rest : List Char} {ds : List Document}, items? levels s = some (ds, rest) →
      rest.length < s.length)
    (hmembers : ∀ {s rest : List Char} {ms : List (List Piece × Document)},
      members? levels s = some (ms, rest) → rest.length < s.length)
    {d : Document} (h : value? (levels + 1) s = some (d, rest)) : rest.length < s.length := by
  rw [value?] at h
  split at h
  · cases h
  · next t ht =>
      split at h
      · next hu =>
          cases h
          exact Nat.lt_trans (length_lt_of_skipBlank hu) (length_lt_of_skipBlank ht)
      · obtain ⟨ds, hds⟩ := exists_of_map_eq_some h
        exact Nat.lt_trans (Nat.lt_of_lt_of_le (hitems hds) (length_skipBlank_le t))
          (length_lt_of_skipBlank ht)
  · next t ht =>
      split at h
      · next hu =>
          cases h
          exact Nat.lt_trans (length_lt_of_skipBlank hu) (length_lt_of_skipBlank ht)
      · obtain ⟨ms, hms⟩ := exists_of_map_eq_some h
        exact Nat.lt_trans (Nat.lt_of_lt_of_le (hmembers hms) (length_skipBlank_le t))
          (length_lt_of_skipBlank ht)
  · next ht =>
      obtain ⟨pieces, hpieces⟩ := exists_of_map_eq_some h
      exact Nat.lt_trans (length_pieces?_lt hpieces) (length_lt_of_skipBlank ht)
  · next ht => exact length_lt_of_word? ht h
  · next ht => exact length_lt_of_word? ht h
  · next ht => exact length_lt_of_word? ht h
  · obtain ⟨n, hn⟩ := exists_of_map_eq_some h
    exact Nat.lt_of_lt_of_le (number?_suffix hn).2 (length_skipBlank_le s)

variable (hvalue : ∀ {s rest : List Char} {d : Document}, value? levels s = some (d, rest) →
    rest.length < s.length)

include hvalue

theorem length_items?_lt
    (hitems : ∀ {s rest : List Char} {ds : List Document}, items? levels s = some (ds, rest) →
      rest.length < s.length)
    {ds : List Document} (h : items? (levels + 1) s = some (ds, rest)) :
    rest.length < s.length := by
  rw [items?] at h
  split at h
  · cases h
  · next ht =>
      split at h
      · next hu =>
          obtain ⟨more, hmore⟩ := exists_of_map_eq_some h
          exact Nat.lt_trans (hitems hmore) (Nat.lt_trans (length_lt_of_skipBlank hu) (hvalue ht))
      · next hu =>
          cases h
          exact Nat.lt_trans (length_lt_of_skipBlank hu) (hvalue ht)
      · cases h

theorem length_members?_lt
    (hmembers : ∀ {s rest : List Char} {ms : List (List Piece × Document)},
      members? levels s = some (ms, rest) → rest.length < s.length)
    {ms : List (List Piece × Document)} (h : members? (levels + 1) s = some (ms, rest)) :
    rest.length < s.length := by
  rw [members?] at h
  split at h
  · next hquote =>
      split at h
      · cases h
      · next hkey =>
          split at h
          · next hcolon =>
              -- The key and the colon after it come before the value.
              have hopen := Nat.lt_trans (length_lt_of_skipBlank hcolon)
                (Nat.lt_trans (length_pieces?_lt hkey) (length_lt_of_skipBlank hquote))
              split at h
              · cases h
              · next ht =>
                  have hmember := Nat.lt_trans (hvalue ht) hopen
                  split at h
                  · next hu =>
                      obtain ⟨more, hmore⟩ := exists_of_map_eq_some h
                      exact Nat.lt_trans (hmembers hmore)
                        (Nat.lt_trans (length_lt_of_skipBlank hu) hmember)
                  · next hu =>
                      cases h
                      exact Nat.lt_trans (length_lt_of_skipBlank hu) hmember
                  · cases h
          · cases h
  · cases h

end Levels

/-- Values, elements and members each take at least one character. -/
theorem length_lt (levels : Nat) :
    (∀ {s rest : List Char} {d : Document}, value? levels s = some (d, rest) →
      rest.length < s.length) ∧
    (∀ {s rest : List Char} {ds : List Document}, items? levels s = some (ds, rest) →
      rest.length < s.length) ∧
    ∀ {s rest : List Char} {ms : List (List Piece × Document)},
      members? levels s = some (ms, rest) → rest.length < s.length := by
  induction levels with
  | zero => simp [value?, items?, members?]
  | succ levels ih =>
      obtain ⟨hvalue, hitems, hmembers⟩ := ih
      exact ⟨length_value?_lt hitems hmembers, length_items?_lt hvalue hitems,
        length_members?_lt hvalue hmembers⟩

/-- **Every value takes at least one character.** -/
theorem length_first?_lt {s rest : List Char} {d : Document} (h : first? s = some (d, rest)) :
    rest.length < s.length := by
  unfold first? at h
  simp only at h
  split at h
  · next e t ht =>
      split at h
      · cases h
        exact Nat.lt_of_lt_of_le ((length_lt _).1 ht) (length_skipBlank_le s)
      · cases h
  · cases h

/-- Blanks in front of a value make no difference. -/
theorem first?_skipBlank (s : List Char) : first? (skipBlank s) = first? s := by
  have hblank : skipBlank (skipBlank s) = skipBlank s := List.dropWhile_idempotent _ _
  simp only [first?, hblank]

/-- There is no value where only blanks are. -/
theorem first?_of_blank {s : List Char} (h : skipBlank s = []) : first? s = none := by
  rw [← first?_skipBlank, h]
  rfl

end Document

/-! ### Streams -/

section Streams

variable {α : Type} {decode? : Document → Option α} {s rest : List Char} {d : Document} {a : α}
  {values : List α} {complete : Bool}

/-- **The values that can be read of a text**, one after the other, and whether they are all of
it. -/
inductive StreamOf (decode? : Document → Option α) : List Char → List α → Bool → Prop
  /-- Nothing but blanks is left. -/
  | finished {s : List Char} (h : Document.skipBlank s = []) : StreamOf decode? s [] true
  /-- What comes next has not the form of a value, or is not set off from what follows it. -/
  | malformed {s : List Char} (hs : Document.skipBlank s ≠ [])
      (h : Document.first? s = none) : StreamOf decode? s [] false
  /-- What comes next has the form of a value but no meaning. -/
  | refused {s rest : List Char} {d : Document} (h : Document.first? s = some (d, rest))
      (hd : decode? d = none) : StreamOf decode? s [] false
  /-- What comes next is a value, and then the stream goes on. -/
  | value {s rest : List Char} {d : Document} {a : α} {values : List α} {complete : Bool}
      (h : Document.first? s = some (d, rest)) (hd : decode? d = some a)
      (more : StreamOf decode? rest values complete) : StreamOf decode? s (a :: values) complete

theorem nextValue_of_blank (h : Document.skipBlank s = []) : nextValue decode? s = .finished := by
  rw [nextValue, h]
  rfl

theorem nextValue_of_malformed (hs : Document.skipBlank s ≠ []) (h : Document.first? s = none) :
    nextValue decode? s = .unreadable := by
  rw [nextValue, if_neg (by simpa using hs), h]

/-- Where a value comes next, there are not only blanks left. -/
theorem nextValue_of_first? (h : Document.first? s = some (d, rest)) : nextValue decode? s =
    match decode? d with
    | none => .unreadable
    | some a => .value a rest := by
  have hblank : Document.skipBlank s ≠ [] := fun hs => by
    rw [Document.first?_of_blank hs] at h
    cases h
  cases hd : decode? d <;> simp [nextValue, hblank, h, hd]

/-- The reader finds the values of a stream with any count that exceeds the length of the text. -/
theorem StreamOf.readUpTo_eq (h : StreamOf decode? s values complete) {count : Nat}
    (hcount : s.length < count) : readUpTo decode? count s = ⟨values, complete⟩ := by
  induction h generalizing count with
  | finished hs =>
      obtain ⟨k, rfl⟩ : ∃ k, count = k + 1 := ⟨count - 1, by omega⟩
      rw [readUpTo, nextValue_of_blank hs]
  | malformed hs hfirst =>
      obtain ⟨k, rfl⟩ : ∃ k, count = k + 1 := ⟨count - 1, by omega⟩
      rw [readUpTo, nextValue_of_malformed hs hfirst]
  | refused hfirst hd =>
      obtain ⟨k, rfl⟩ : ∃ k, count = k + 1 := ⟨count - 1, by omega⟩
      rw [readUpTo, nextValue_of_first? hfirst, hd]
  | value hfirst hd _ ih =>
      obtain ⟨k, rfl⟩ : ∃ k, count = k + 1 := ⟨count - 1, by omega⟩
      have := Document.length_first?_lt hfirst
      rw [readUpTo, nextValue_of_first? hfirst, hd]
      simp only [ih (show _ < k by omega)]

/-- Every text is a stream of some values. -/
theorem exists_streamOf (decode? : Document → Option α) (s : List Char) :
    ∃ values complete, StreamOf decode? s values complete := by
  -- The induction is on the length of what is left after each value.
  induction hlength : s.length using Nat.strongRecOn generalizing s with
  | ind length ih =>
      by_cases hblank : Document.skipBlank s = []
      · exact ⟨[], true, .finished hblank⟩
      cases hfirst : Document.first? s with
      | none => exact ⟨[], false, .malformed hblank hfirst⟩
      | some found =>
          obtain ⟨d, rest⟩ := found
          cases hd : decode? d with
          | none => exact ⟨[], false, .refused hfirst hd⟩
          | some a =>
              obtain ⟨values, complete, more⟩ :=
                ih rest.length (hlength ▸ Document.length_first?_lt hfirst) rest rfl
              exact ⟨a :: values, complete, .value hfirst hd more⟩

/-- **The reader of streams** gives the values of the text and says whether they are all of it. -/
theorem streamOf_iff_readAll {text : String} :
    StreamOf decode? text.toList values complete ↔ readAll decode? text = ⟨values, complete⟩ := by
  constructor
  · intro h
    exact h.readUpTo_eq (Nat.lt_succ_self _)
  · intro h
    obtain ⟨others, end?, hstream⟩ := exists_streamOf decode? text.toList
    have hread := hstream.readUpTo_eq (Nat.lt_succ_self _)
    rw [readAll, hread] at h
    cases h
    exact hstream

/-! ### Documents on lines -/

/-- A document is the first value of a text in front of which it stands on a line of its own. -/
theorem Json.ReadAs.first?_line {j : Json} (h : j.ReadAs d) (rest : List Char) :
    Document.first? (j.write ++ '\n' :: rest) = some (d, '\n' :: rest) := by
  obtain ⟨c, t, hwrite, hc, -⟩ := h.starts
  have hblank : Document.skipBlank (j.write ++ '\n' :: rest) = j.write ++ '\n' :: rest := by
    refine Document.skipBlank_of_stops ?_
    rw [hwrite]
    exact (stops_cons _ _ _).2 hc
  have hlevels : 2 * j.write.length ≤ Document.levels (j.write ++ '\n' :: rest) := by
    rw [Document.levels, List.length_append]
    omega
  have hvalue := h.reads ('\n' :: rest) _ (by simp [Document.EndsNumber]) hlevels
  simp only [Document.first?, hblank, hvalue]
  simp [Document.canFollow, Document.isBlank]

/-- The end of a line makes no difference to the stream after it. -/
theorem StreamOf.newline (h : StreamOf decode? s values complete) :
    StreamOf decode? ('\n' :: s) values complete := by
  have hskip : Document.skipBlank ('\n' :: s) = Document.skipBlank s := rfl
  have hfirst : Document.first? ('\n' :: s) = Document.first? s := by
    rw [← Document.first?_skipBlank, hskip, Document.first?_skipBlank]
  cases h with
  | finished h => exact .finished (hskip ▸ h)
  | malformed hs h => exact .malformed (hskip ▸ hs) (hfirst ▸ h)
  | refused h hd => exact .refused (hfirst ▸ h) hd
  | value h hd more => exact .value (hfirst ▸ h) hd more

/-- A document on a line of its own is the next value of a stream. -/
theorem Json.ReadAs.streamOf_value {j : Json} (h : j.ReadAs d) (hd : decode? d = some a)
    (more : StreamOf decode? rest values complete) :
    StreamOf decode? (j.write ++ '\n' :: rest) (a :: values) complete :=
  .value (h.first?_line rest) hd more.newline

/-- A document on a line of its own ends a stream in which it has no meaning. -/
theorem Json.ReadAs.streamOf_refused {j : Json} (h : j.ReadAs d) (hd : decode? d = none)
    (rest : List Char) : StreamOf decode? (j.write ++ '\n' :: rest) [] false :=
  .refused (h.first?_line rest) hd

/-- **Documents on lines of their own.**  A stream of what they stand for goes as far as the first
of them that has no meaning. -/
theorem streamOf_lines {form : α → Json} {means : α → Bool} {as : List α}
    (h : ∀ a ∈ as, ∃ d, (form a).ReadAs d ∧ decode? d = if means a then some a else none) :
    StreamOf decode? (as.flatMap fun a => (form a).write ++ ['\n']) (as.takeWhile means)
      (as.all means) := by
  induction as with
  | nil => exact .finished rfl
  | cons a as ih =>
      obtain ⟨d, hd, hdecode⟩ := h a List.mem_cons_self
      rw [List.flatMap_cons, List.append_assoc, List.singleton_append]
      cases hmeans : means a with
      | false =>
          rw [hmeans] at hdecode
          rw [List.takeWhile_cons_of_neg (by simp [hmeans]), List.all_cons, hmeans, Bool.false_and]
          exact hd.streamOf_refused hdecode _
      | true =>
          rw [hmeans] at hdecode
          rw [List.takeWhile_cons_of_pos hmeans, List.all_cons, hmeans, Bool.true_and]
          exact hd.streamOf_value hdecode (ih fun b hb => h b (List.mem_cons_of_mem a hb))

end Streams

end TreePath
