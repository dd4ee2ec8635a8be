/-
**Records and filter runs agree.**

The records that a run generates are for those who follow paths with the filter: they say what the
filter finds as long as both answer queries alike.  But the two go different ways.  The filter
follows one path in each document of a stream and writes what it finds; a run that generates reads
one document from a file, follows all paths in it, and writes records.

On a text that holds one document both come to the same.  The stream of that text has this document
as its only one, so the matches are the same; they are written as the same documents; and the error
of a path that does not compile is passed on by both as it is.

Main definitions:

* `QueryRecord.AgreesWithFilter` — a record holds what the filter writes.

Main results:

* `StreamQuery.run_of_parse?` — the filter on a text that holds one document;
* `StreamQuery.result_eq_compile_iff`, `RecordTask.result_eq_compile_iff` — when a path is reported
  as one that does not compile;
* `RecordTask.run_agrees` — **both answer queries alike**.
-/

import TreePath.Proofs.Command.Generation
import TreePath.Proofs.Json.Levels

set_option relaxedAutoImplicit false
set_option autoImplicit false

namespace TreePath

/-! ### The filter on one document -/

namespace StreamQuery

variable {path text : String}

/-- On a text that holds one document, a filter run in batch mode writes the matches in this
document, and counts them. -/
theorem run_of_parse? {p : Path} {document : Json} (hp : compile commandContext path = .ok p)
    (h : Json.parse? text = some document) : run ⟨path, true⟩ text =
      ⟨(Json.array (queryResults p document)).text ++ "\n",
        .ok ⟨1, (queryResults p document).length⟩⟩ := by
  have hmatches : (p.selectAll [document]).map Json.ofValue = queryResults p document := by
    rw [p.map_ofValue_selectAll, List.flatMap_singleton]
  have hline : "[" ++ String.intercalate "," ((queryResults p document).map Json.text) ++ "]\n" =
      (Json.array (queryResults p document)).text ++ "\n" := by
    rw [← ofList_documentLine_array, documentLine, String.ofList_append]
    rfl
  rw [run_of_streamOf hp (Json.streamOf_of_parse? h) true, textsOf_eq_map, hmatches]
  simp only [Bool.not_true, Bool.false_eq_true, if_false, if_true, hline, ending,
    ← List.length_map Json.ofValue, hmatches, List.length_singleton]

/-- The filter reports a path that does not compile, in both modes and whatever the input is. -/
theorem result_eq_compile_iff {batch : Bool} {input : String} {e : SyntaxError} :
    (run ⟨path, batch⟩ input).result = .error (.compile e) ↔
      compile commandContext path = .error e := by
  cases hp : compile commandContext path with
  | error e => simp [run_of_error hp]
  | ok p =>
      obtain ⟨documents, complete, h⟩ :=
        exists_streamOf (Json.ofDocument? Json.nestingLimit) input.toList
      rw [run_of_streamOf hp h]
      cases complete <;> simp [ending]

end StreamQuery

/-! ### One query of a run that generates -/

namespace RecordTask

variable {task : RecordTask} {files : Files} {document : Json}

/-- A run that generates for one query reports a path that does not compile. -/
theorem result_eq_compile_iff (hgenerate : task.generate = true) {name path : String}
    (h : task.Asks files document [(name, path)]) {other : String} {e : SyntaxError} :
    (task.run files).result = .error (.compile other e) ↔
      name = other ∧ compile commandContext path = .error e := by
  rw [run_of_generate hgenerate, h.records_eq, List.mapM_cons, QueryRecord.ofQuery]
  cases compile commandContext path with
  | error e => simp [bind, Except.bind]
  | ok p =>
      simp only [bind, Except.bind, List.mapM_nil, pure, Except.pure]
      split <;> simp

end RecordTask

/-! ### Agreement -/

/-- A record holds what the filter writes for its query: the results are the array on the one line
of a batch run, and as many as this run counts. -/
structure QueryRecord.AgreesWithFilter (text : String) (query : String × String)
    (r : QueryRecord) : Prop where
  /-- The name is that of the query. -/
  name : r.name = query.1
  /-- The path is that of the query. -/
  path : r.path = query.2
  /-- The line holds the results. -/
  output : (StreamQuery.run ⟨query.2, true⟩ text).output = (Json.array r.results).text ++ "\n"
  /-- The count is that of the results. -/
  result : (StreamQuery.run ⟨query.2, true⟩ text).result = .ok ⟨1, r.results.length⟩

/-- The matches of a path are what the filter writes. -/
theorem QueryRecord.Answers.agreesWithFilter {text : String} {document : Json}
    (htext : Json.parse? text = some document) {query : String × String} {r : QueryRecord}
    (h : r.Answers document query) : r.AgreesWithFilter text query := by
  obtain ⟨hname, hpath, p, hp, hresults⟩ := h
  have hrun := StreamQuery.run_of_parse? hp htext
  rw [queryResults, ← hresults] at hrun
  exact ⟨hname, hpath, by rw [hrun], by rw [hrun]⟩

namespace RecordTask

variable {task : RecordTask} {files : Files}

/-- **Both answer queries alike.**  Take a run that generates, on a data file whose text holds one
document.  If the paths of all queries compile and the file of records can be made or replaced, it
then holds a record for each query, in order, with the results that the filter writes for its path
on the same text: in batch mode the line of the filter is the array of the results, and it counts as
many matches as there are results.  And for a query by itself, the run reports that its path does
not compile if and only if the filter does, in whatever mode and on whatever input, and both report
the same error. -/
theorem run_agrees (hgenerate : task.generate = true) {text : String} {document : Json}
    (hdata : files.read? task.data = some text) (htext : Json.parse? text = some document) :
    (∀ queries, files.Holds (Document.toList? namedQuery?) task.queries queries →
      (∀ q ∈ queries, ∃ p, compile commandContext q.2 = .ok p) →
      (files.createAt? task.expected).isSome = true →
      ∃ records, List.Forall₂ (QueryRecord.AgreesWithFilter text) queries records ∧
        (task.run files).result = .ok ⟨queries.length, 0, 0⟩ ∧
        (task.run files).files.read? task.expected =
          some (unlines (records.map fun r => r.toJson.text))) ∧
    ∀ name path, files.Holds (Document.toList? namedQuery?) task.queries [(name, path)] →
      ∀ batch input e,
        (StreamQuery.run ⟨path, batch⟩ input).result = .error (.compile e) ↔
          (task.run files).result = .error (.compile name e) := by
  have hholds : files.Holds (Json.ofDocument? Json.nestingLimit) task.data document :=
    ⟨text, hdata, htext⟩
  constructor
  · intro queries hqueries hcompile hplace
    obtain ⟨records, hanswers, hresult, hread⟩ :=
      run_of_asks hgenerate ⟨hholds, hqueries⟩ hcompile hplace
    have hagrees := hanswers.imp fun _ _ h => h.agreesWithFilter htext
    exact ⟨records, hagrees, hresult, hread⟩
  · intro name path hquery batch input e
    rw [StreamQuery.result_eq_compile_iff, result_eq_compile_iff hgenerate ⟨hholds, hquery⟩,
      and_iff_right rfl]

/-- A query that finds one value, and one that does not compile. -/
theorem run_agrees_null :
    let text := (Json.object [("a", .null)]).text
    let good := generatingFiles [("q", ".a")]
    let bad := generatingFiles [("r", ".a(")]
    nestedTask.generate = true ∧ Json.parse? text = some (.object [("a", .null)]) ∧
    good.read? nestedTask.data = some text ∧ bad.read? nestedTask.data = some text ∧
    (StreamQuery.run ⟨".a", true⟩ text).output = "[null]\n" ∧
    (∃ r, QueryRecord.AgreesWithFilter text ("q", ".a") r ∧
      (nestedTask.run good).result = .ok ⟨1, 0, 0⟩ ∧
      (nestedTask.run good).files.read? nestedTask.expected = some (r.toJson.text ++ "\n")) ∧
    ∃ e, (StreamQuery.run ⟨".a(", true⟩ text).result = .error (.compile e) ∧
      (nestedTask.run bad).result = .error (.compile "r" e) := by
  intro text good bad
  have htext : Json.parse? text = some (.object [("a", .null)]) := parse?_null
  have hp : compile commandContext ".a" = .ok ⟨".a", [⟨.child (.name "a"), none⟩]⟩ := rfl
  obtain ⟨e, he⟩ : ∃ e, compile commandContext ".a(" = .error e := ⟨_, rfl⟩
  have hfilter : (StreamQuery.run ⟨".a(", true⟩ text).result = .error (.compile e) :=
    StreamQuery.result_eq_compile_iff.2 he
  obtain ⟨hgood, -⟩ := @run_agrees nestedTask good rfl text _ rfl htext
  obtain ⟨-, hbad⟩ := @run_agrees nestedTask bad rfl text _ rfl htext
  obtain ⟨records, hagrees, hresult, hread⟩ := hgood _ (asks_generatingFiles _).queries
    (List.forall_mem_singleton.2 ⟨_, hp⟩) rfl
  obtain ⟨r, rest, hr, hrest, rfl⟩ := List.forall₂_cons_left_iff.1 hagrees
  obtain rfl := List.forall₂_nil_left_iff.1 hrest
  have hline : (StreamQuery.run ⟨".a", true⟩ text).output = "[null]\n" := by
    rw [StreamQuery.run_of_parse? hp htext, queryResults_child]
    rfl
  refine ⟨rfl, htext, rfl, rfl, hline, ⟨r, hr, hresult, ?_⟩, e, hfilter,
    (hbad _ _ (asks_generatingFiles _).queries true text e).1 hfilter⟩
  rw [hread]
  simp [unlines]

end RecordTask

end TreePath
