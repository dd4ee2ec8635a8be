/-
**The two modes of a filter run.**

A filter run writes the matches of its path either one on a line or all in one array at the end.
This module says for every path and every input what each mode writes and how the run ends.  Both
modes see the same documents, those that stand in front of the end of the input or of the first
place where it cannot be read (`StreamOf`), and write the same texts; they differ in what is put
between the texts, and in what has been written when the input breaks off.

A run deals with its input match by match.  What it has done at one moment is told by the documents
and matches that it has dealt with so far (`StreamState.dealt`), and that is all that the next match
is added to; so a run comes to what can be said of all its documents at once.

Main definitions:

* `Path.selectAll` — the matches of a path in documents;
* `textsOf` — the texts of values;
* `StreamState.dealt` — what a run has done after more documents and matches.

Main results:

* `Json.writeItems_eq_intercalate` — the elements of an array are joined by commas;
* `StreamQuery.run_search`, `StreamQuery.run_searchUpTo` — what one document adds, and what all of
  them do;
* `StreamQuery.run_of_error`, `StreamQuery.run_of_streamOf` — what a run writes, and how it ends;
* `StreamQuery.run_modes` — **the two modes agree**.
-/

import TreePath.Command.Line
import TreePath.Proofs.Json.Streams

set_option relaxedAutoImplicit false
set_option autoImplicit false

namespace TreePath

/-! ### What is written -/

/-- The elements of an array are written with commas between them. -/
theorem Json.writeItems_eq_intercalate (items : List Json) :
    writeItems items = [','].intercalate (items.map write) := by
  induction items with
  | nil => rfl
  | cons v rest ih =>
      cases rest with
      | nil => simp [writeItems]
      | cons w rest =>
          simp [writeItems, ih, List.intercalate_cons_cons]

/-- The matches of a path in documents, one document after the other. -/
def Path.selectAll (p : Path) (documents : List Json) : List Value :=
  documents.flatMap fun d => p.select (.ofJson d)

theorem Path.map_ofValue_selectAll (p : Path) (documents : List Json) :
    (p.selectAll documents).map Json.ofValue = documents.flatMap (queryResults p) := by
  rw [Path.selectAll, List.map_flatMap]
  rfl

/-- The texts of values, as documents. -/
def textsOf (values : List Value) : List String := values.map fun v => (Json.ofValue v).text

theorem textsOf_eq_map (values : List Value) :
    textsOf values = (values.map Json.ofValue).map Json.text := by
  rw [textsOf, List.map_map]
  rfl

/-- Documents on lines of their own are their texts on lines. -/
theorem ofList_flatMap_documentLine (js : List Json) :
    String.ofList (js.flatMap documentLine) = unlines (js.map Json.text) := by
  have hline : ∀ j, documentLine j = (j.text ++ "\n").toList := fun j => by
    rw [documentLine, Json.text, String.toList_append, String.toList_ofList]
    rfl
  rw [← String.toList_inj, String.toList_ofList, unlines, String.toList_join, List.flatMap_map,
    List.flatMap_map, List.flatMap_congr fun j _ => hline j]

/-- The line of an array holds the texts of its elements with commas between them. -/
theorem ofList_documentLine_array (js : List Json) :
    String.ofList (documentLine (.array js)) =
      "[" ++ String.intercalate "," (js.map Json.text) ++ "]\n" := by
  rw [← String.toList_inj, String.toList_ofList, documentLine, Json.write,
    Json.writeItems_eq_intercalate]
  simp [Json.text, Function.comp_def]

/-! ### Match by match -/

/-- What a run has done after so many more documents, with these matches in them: in batch mode the
matches are put by, and otherwise they are written. -/
def StreamState.dealt (s : StreamState) (batch : Bool) (documents : Nat) (found : List Json) :
    StreamState where
  output := if batch then s.output else s.output ++ String.ofList (found.flatMap documentLine)
  counts := ⟨s.counts.documents + documents, s.counts.results + found.length⟩
  batch := if batch then s.batch ++ found.toArray else s.batch

@[simp] theorem StreamState.dealt_nil (s : StreamState) (batch : Bool) :
    s.dealt batch 0 [] = s := by
  cases batch <;> simp [dealt]

/-- What is dealt with first and what is dealt with then are dealt with one after the other. -/
@[simp] theorem StreamState.dealt_dealt (s : StreamState) (batch : Bool) (m n : Nat)
    (found others : List Json) :
    (s.dealt batch m found).dealt batch n others = s.dealt batch (m + n) (found ++ others) := by
  cases batch <;> simp [dealt, String.append_assoc, Nat.add_assoc]

theorem run_writeLine (j : Json) (s : StreamState) : (writeLine j).run s =
    .ok () { s with output := s.output ++ String.ofList (documentLine j) } := rfl

namespace StreamQuery

variable {query : StreamQuery} {p : Path}

theorem run_emit (found : Value) (s : StreamState) :
    (query.emit found).run s = .ok () (s.dealt query.batch 0 [.ofValue found]) := by
  rw [emit]
  cases query.batch <;> simp [StreamState.dealt, run_writeLine]

theorem run_forM_emit (found : List Value) (s : StreamState) :
    (forM found query.emit).run s = .ok () (s.dealt query.batch 0 (found.map .ofValue)) := by
  induction found generalizing s with
  | nil => simp
  | cons v rest ih => simp [EStateM.run_bind, run_emit, ih]

/-- A document adds itself and its matches to what has been dealt with. -/
theorem run_search (document : Json) (s : StreamState) :
    (query.search p document).run s =
      .ok () (s.dealt query.batch 1 (queryResults p document)) := by
  have hcounted : { s with counts.documents := s.counts.documents + 1 } =
      s.dealt query.batch 1 [] := by
    cases query.batch <;> simp [StreamState.dealt]
  rw [search, EStateM.run_bind, EStateM.run_modify]
  simp only [hcounted, run_forM_emit, StreamState.dealt_dealt, List.nil_append, queryResults]

/-- **The documents of an input** add themselves and their matches to what has been dealt with, also
where the input cannot be read to its end. -/
theorem run_searchUpTo (count : Nat) (text : List Char) (s : StreamState) :
    (query.searchUpTo p count text).run s =
      let read := readUpTo (Json.ofDocument? Json.nestingLimit) count text
      let done := s.dealt query.batch read.values.length (read.values.flatMap (queryResults p))
      if read.complete then .ok () done else .error .decode done := by
  -- Reading and searching go through the text in the same way, also where the count runs out.
  induction count generalizing text s with
  | zero => simp [searchUpTo, readUpTo]
  | succ k ih =>
      rw [searchUpTo, readUpTo]
      cases nextValue (Json.ofDocument? Json.nestingLimit) text with
      | finished => simp
      | unreadable => simp
      | value document rest =>
          simp only [EStateM.run_bind, run_search, ih, StreamState.dealt_dealt, List.length_cons,
            List.flatMap_cons, Nat.add_comm]

/-! ### What a run does -/

/-- How a run ends that has read documents, and whether they were all of the input. -/
def ending (p : Path) (documents : List Json) (complete : Bool) :
    Except StreamError StreamCounts :=
  if complete then .ok ⟨documents.length, (p.selectAll documents).length⟩ else .error .decode

/-- A run with a path that does not compile looks at no input. -/
theorem run_of_error {path : String} {e : SyntaxError} (h : compile commandContext path = .error e)
    (batch : Bool) (input : String) : run ⟨path, batch⟩ input = ⟨"", .error (.compile e)⟩ := by
  rw [run, program, h]
  rfl

/-- What a run writes depends on its mode only. -/
theorem run_of_streamOf {path input : String} {p : Path} {documents : List Json}
    {complete : Bool} (hp : compile commandContext path = .ok p)
    (h : StreamOf (Json.ofDocument? Json.nestingLimit) input.toList documents complete)
    (batch : Bool) : run ⟨path, batch⟩ input =
      ⟨if !batch then unlines (textsOf (p.selectAll documents))
        else if complete then
          "[" ++ String.intercalate "," (textsOf (p.selectAll documents)) ++ "]\n"
        else "", ending p documents complete⟩ := by
  have hread := streamOf_iff_readAll.1 h
  rw [readAll] at hread
  rw [run, program]
  simp only [hp, EStateM.run_bind, run_searchUpTo, hread, ending, textsOf_eq_map,
    ← p.map_ofValue_selectAll, ← ofList_flatMap_documentLine, ← ofList_documentLine_array]
  cases complete <;> cases batch <;> simp [StreamState.dealt, StreamState.start, run_writeLine]

/-- **The two modes agree.**  If the path does not compile, both say so whatever the input holds,
and write nothing.  Otherwise the input holds certain documents before its end or the first place
where it cannot be read.  Both modes deal with these documents.  One after the other, their matches
have certain texts: the one mode writes each text on a line of its own, also when the input cannot
be read to its end; the other one writes the same texts between brackets and with commas, and
nothing when the input cannot be read to its end. -/
theorem run_modes (path input : String) :
    match compile commandContext path with
    | .error e => ∀ batch, run ⟨path, batch⟩ input = ⟨"", .error (.compile e)⟩
    | .ok p => ∃ documents complete,
        (∀ others whole, StreamOf (Json.ofDocument? Json.nestingLimit) input.toList others whole ↔
          others = documents ∧ whole = complete) ∧
        let matched := documents.flatMap fun d => p.select (.ofJson d)
        let texts := matched.map fun m => (Json.ofValue m).text
        let ending := if complete then .ok ⟨documents.length, matched.length⟩ else .error .decode
        run ⟨path, false⟩ input = ⟨String.join (texts.map (· ++ "\n")), ending⟩ ∧
        run ⟨path, true⟩ input =
          ⟨if complete then "[" ++ String.intercalate "," texts ++ "]\n" else "", ending⟩ := by
  cases hp : compile commandContext path with
  | error e => exact fun batch => run_of_error hp batch input
  | ok p =>
      obtain ⟨documents, complete, h⟩ :=
        exists_streamOf (Json.ofDocument? Json.nestingLimit) input.toList
      refine ⟨documents, complete, fun others whole => ⟨fun hothers => ?_, ?_⟩,
        run_of_streamOf hp h false, run_of_streamOf hp h true⟩
      · have hsame := (streamOf_iff_readAll.1 hothers).symm.trans (streamOf_iff_readAll.1 h)
        exact Readout.mk.inj hsame
      · rintro ⟨rfl, rfl⟩
        exact h

end StreamQuery

end TreePath
