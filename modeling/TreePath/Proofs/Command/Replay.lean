/-
**Records and their verification.**

A run that writes records and a run that verifies them go different ways: the one writes documents
on lines, the other reads the forms of records from a stream, compiles the recorded paths again and
compares results.  This module says what verification makes of a file of records that has just been
written, for every document and all queries.

Each record that is read back is the one that was written, and its query finds the recorded results
again.  But a record puts its results two levels further down, and a reader of records goes no
deeper than a reader of documents.  So a file of records is accepted exactly when the results are
nested at least two levels less deep than the limit.  Results of a document that is nested as deep
as the limit allows need not be: they can be nested one level less deep than the document.

Main definitions:

* `QueryRecord.Fits` — a record that stays within the limit;
* `Json.nested` — nothing, inside as many arrays as one likes.

Main results:

* `QueryRecord.exists_readAs` — what is read of a record;
* `RecordTask.verify_of_written` — verification of records that were written;
* `RecordTask.verify_generated` — **what verification makes of generated records**.
-/

import TreePath.Proofs.Command.Directories
import TreePath.Proofs.Command.Pipes
import TreePath.Proofs.Json.Losses

set_option relaxedAutoImplicit false
set_option autoImplicit false

namespace TreePath

/-! ### Records as documents -/

namespace QueryRecord

/-- The results leave room for the two levels that a record puts around them. -/
def Fits (r : QueryRecord) : Prop := ∀ j ∈ r.results, j.depth ≤ Json.nestingLimit - 2

instance : DecidablePred Fits := fun r =>
  inferInstanceAs (Decidable (∀ j ∈ r.results, j.depth ≤ Json.nestingLimit - 2))

/-- What is read of a record is the record, if it fits. -/
theorem ofDocument?_fields (r : QueryRecord) {ds : List Document}
    (h : List.Forall₂ Json.ReadAs r.results ds) : ofDocument? (.object
      [("Name".toList.map Piece.ofChar, .string (r.name.toList.map Piece.ofChar)),
        ("Path".toList.map Piece.ofChar, .string (r.path.toList.map Piece.ofChar)),
        ("Results".toList.map Piece.ofChar, .array ds)]) = if r.Fits then some r else none := by
  have hresults : ofParts?.itemsOfResults? ds = if r.Fits then some r.results else none := by
    rw [ofParts?.itemsOfResults?, Json.itemsOfDocuments?_eq h]
    simp only [Json.depthItems_le_iff]
    rfl
  simp only [ofDocument?, List.mapM_cons, List.mapM_nil, textOfPieces?_map_ofChar, Option.map_some]
  simp only [member?, ofParts?, Document.toText?, Option.pure_def, Option.bind_eq_bind,
    Option.bind_some]
  by_cases hfits : r.Fits
  · simp [hfits, textOfPieces?_map_ofChar, hresults]
  · simp [hfits, hresults]

/-- **What is read of a record** that was written. -/
theorem exists_readAs {r : QueryRecord} (h : ∀ j ∈ r.results, j.Legible) :
    ∃ d, r.toJson.ReadAs d ∧ ofDocument? d = if r.Fits then some r else none := by
  obtain ⟨ds, hds⟩ := Json.exists_forall₂ fun j hj => (h j hj).exists_readAs
  have hkeys : ["Name", "Path", "Results"].Pairwise (· < ·) := by decide
  refine ⟨_, Json.readAs_object ?_ ?_, r.ofDocument?_fields hds⟩
  · exact hkeys
  · exact .cons ⟨rfl, Json.readAs_string r.name⟩ (.cons ⟨rfl, Json.readAs_string r.path⟩
      (.cons ⟨rfl, Json.readAs_array hds⟩ .nil))

/-- Records on lines are read up to the first that does not fit. -/
theorem streamOf_line {records : List QueryRecord}
    (h : ∀ r ∈ records, ∀ j ∈ r.results, j.Legible) : StreamOf ofDocument? (records.flatMap line)
      (records.takeWhile fun r => decide r.Fits) (records.all fun r => decide r.Fits) := by
  refine streamOf_lines fun r hr => ?_
  obtain ⟨d, hd, hmeans⟩ := exists_readAs (h r hr)
  exact ⟨d, hd, by simpa using hmeans⟩

end QueryRecord

/-! ### Queries that are run again -/

/-- What is done after something else succeeds when both do. -/
theorem bind_eq_ok_iff {ε α β : Type} {x : Except ε α} {f : α → Except ε β} {b : β} :
    x >>= f = .ok b ↔ ∃ a, x = .ok a ∧ f a = .ok b := by
  cases x with
  | error e => simp [bind, Except.bind]
  | ok a => simp [bind, Except.bind]

theorem mapM_eq_ok_iff {ε α β : Type} {f : α → Except ε β} {as : List α} {bs : List β} :
    as.mapM f = .ok bs ↔ List.Forall₂ (fun a b => f a = .ok b) as bs := by
  induction as generalizing bs with
  | nil => simp [pure, Except.pure, eq_comm]
  | cons a as ih =>
      simp only [List.mapM_cons, bind_eq_ok_iff, List.forall₂_cons_left_iff, ih]
      constructor
      · rintro ⟨b, hb, cs, hcs, heq⟩
        cases heq
        exact ⟨b, cs, hb, hcs, rfl⟩
      · rintro ⟨b, cs, hb, hcs, rfl⟩
        exact ⟨b, hb, cs, hcs, rfl⟩

theorem exists_of_mem_mapM {ε α β : Type} {f : α → Except ε β} {as : List α} {bs : List β}
    (h : as.mapM f = .ok bs) : ∀ b ∈ bs, ∃ a ∈ as, f a = .ok b := by
  replace h := mapM_eq_ok_iff.1 h
  induction h with
  | nil => exact List.forall_mem_nil _
  | cons hb _ ih =>
      refine List.forall_mem_cons.2 ⟨⟨_, List.mem_cons_self, hb⟩, fun c hc => ?_⟩
      obtain ⟨a, ha, hc⟩ := ih c hc
      exact ⟨a, List.mem_cons_of_mem _ ha, hc⟩

theorem forM_eq_ok {ε α : Type} {f : α → Except ε Unit} {as : List α}
    (h : ∀ a ∈ as, f a = .ok ()) : as.forM f = .ok () := by
  induction as with
  | nil => rfl
  | cons a as ih =>
      rw [List.forM, h a List.mem_cons_self]
      exact ih fun b hb => h b (List.mem_cons_of_mem a hb)

namespace QueryRecord

/-- A record of a query has its name and its path, and the results that the path leads to. -/
theorem exists_of_ofQuery {document : Json} {name path : String} {r : QueryRecord}
    (h : ofQuery document name path = .ok r) :
    ∃ p, compile commandContext path = .ok p ∧ r = ⟨name, path, queryResults p document⟩ := by
  rw [ofQuery] at h
  split at h
  · next p hp =>
      cases h
      exact ⟨p, hp, rfl⟩
  · cases h

/-- A record of a query is found again. -/
theorem verify_eq_ok {document : Json} {name path : String} {r : QueryRecord}
    (h : ofQuery document name path = .ok r) : r.verify document = .ok () := by
  obtain ⟨p, -, rfl⟩ := exists_of_ofQuery h
  rw [verify, h]
  simp [bind, Except.bind, pure, Except.pure, Json.sameItems_self]

/-- The results of a query on a document that was read can be read back if their numbers can. -/
theorem legible_of_ofQuery {limit : Nat} {document : Json} (hdocument : document.Expresses limit)
    {name path : String} {r : QueryRecord} (h : ofQuery document name path = .ok r)
    (hnumbers : ∀ j ∈ r.results, j.NumbersReadBack) : ∀ j ∈ r.results, j.Legible := by
  obtain ⟨p, hp, rfl⟩ := exists_of_ofQuery h
  intro j hj
  obtain ⟨m, hm, rfl⟩ := List.mem_map.1 hj
  have hsteps := (compile_eq_ok_iff.1 hp).steps_ne_nil
  exact (Path.expressible_of_mem_select hsteps hdocument hm).1.legible (hnumbers _ hj)

end QueryRecord

/-! ### Records that were written -/

/-- Where there is a file, there is no directory. -/
theorem Files.isDirectory_of_read? {files : Files} {file text : String}
    (h : files.read? file = some text) : files.isDirectory file = false := by
  obtain ⟨place, hplace, -⟩ := Option.bind_eq_some_iff.1 h
  refine Bool.eq_false_iff.2 fun hdirectory => ?_
  rw [locate?_eq_none_iff.2 (.inr hdirectory)] at hplace
  cases hplace

theorem openFile_eq_ok_iff {files : Files} {file text : String} :
    openFile files file = .ok text ↔ files.read? file = some text := by
  rw [openFile]
  constructor
  · intro h
    split at h
    · cases h
    · split at h
      · next hread =>
          cases h
          exact hread
      · cases h
  · intro h
    rw [Files.isDirectory_of_read? h, h]
    rfl

/-- A file that was read has a text. -/
theorem exists_text_of_readFile {α : Type} {decode? : Document → Option α} {files : Files}
    {file : String} {a : α} (h : readFile decode? files file = .ok a) :
    ∃ text, files.read? file = some text ∧ (Document.parse? text.toList).bind decode? = some a := by
  obtain ⟨text, htext, h⟩ := bind_eq_ok_iff.1 h
  split at h
  · next hmeans =>
      cases h
      exact ⟨text, openFile_eq_ok_iff.1 htext, hmeans⟩
  · cases h

/-- A file of a meaning is read. -/
theorem readFile_eq_ok {α : Type} {decode? : Document → Option α} {files : Files}
    {file text : String} {a : α} (hread : files.read? file = some text)
    (hmeans : (Document.parse? text.toList).bind decode? = some a) :
    readFile decode? files file = .ok a := by
  simp [readFile, openFile_eq_ok_iff.2 hread, hmeans, bind, Except.bind, pure, Except.pure]

/-- **Verification of records that were written.**  Each of them has been made by its own query on
the same document, and the document is still there. -/
theorem RecordTask.verify_of_written {task : RecordTask} {files : Files} {document : Json}
    {records : List QueryRecord} (hdata : readData files task.data = .ok document)
    (hexpected : files.read? task.expected =
      some (String.ofList (records.flatMap QueryRecord.line)))
    (hmade : ∀ r ∈ records, ∃ name path, QueryRecord.ofQuery document name path = .ok r)
    (hlegible : ∀ r ∈ records, ∀ j ∈ r.results, j.Legible) :
    task.verify files = if ∀ r ∈ records, r.Fits then .ok records.length
      else .error (.parse task.expected) := by
  have hstream := QueryRecord.streamOf_line hlegible
  rw [← String.toList_ofList (l := records.flatMap QueryRecord.line), streamOf_iff_readAll]
    at hstream
  have hverified : (records.takeWhile fun r => decide r.Fits).forM
      (QueryRecord.verify document) = .ok () := by
    refine forM_eq_ok fun r hr => ?_
    obtain ⟨name, path, hr⟩ := hmade r (List.takeWhile_subset _ hr)
    exact QueryRecord.verify_eq_ok hr
  have hrun : task.verify files = if (records.all fun r => decide r.Fits) = true
      then .ok (records.takeWhile fun r => decide r.Fits).length
      else .error (.parse task.expected) := by
    rw [RecordTask.verify, hdata, openFile_eq_ok_iff.2 hexpected]
    simp only [hstream, hverified, bind, Except.bind, pure, Except.pure]
    rfl
  by_cases hfits : ∀ r ∈ records, r.Fits
  · have hall : ∀ r ∈ records, decide r.Fits = true := fun r hr => decide_eq_true (hfits r hr)
    rw [hrun, if_pos hfits, if_pos (List.all_eq_true.2 hall), List.takeWhile_eq_self_iff.2 hall]
  · have hsome : ¬(records.all fun r => decide r.Fits) = true := by simpa using hfits
    rw [hrun, if_neg hfits, if_neg hsome]

/-! ### Records that were generated -/

/-- Records are made by queries on the document that was read. -/
theorem RecordTask.exists_of_records {task : RecordTask} {files : Files}
    {records : List QueryRecord} (h : task.records files = .ok records) :
    ∃ document, readData files task.data = .ok document ∧ document.Expresses Json.nestingLimit ∧
      ∀ r ∈ records, ∃ name path, QueryRecord.ofQuery document name path = .ok r := by
  obtain ⟨document, hdata, h⟩ := bind_eq_ok_iff.1 h
  obtain ⟨queries, -, h⟩ := bind_eq_ok_iff.1 h
  obtain ⟨text, -, hmeans⟩ := exists_text_of_readFile hdata
  obtain ⟨d, -, hd⟩ := Option.bind_eq_some_iff.1 hmeans
  refine ⟨document, hdata, Json.expresses_of_ofDocument? hd, fun r hr => ?_⟩
  obtain ⟨q, -, hq⟩ := exists_of_mem_mapM h r hr
  exact ⟨q.1, q.2, hq⟩

/-- A run that generates records succeeds exactly when there are records and a place for them. -/
theorem RecordTask.run_eq_ok_iff {task : RecordTask} (hgenerate : task.generate = true)
    {files after : Files} {counts : RecordCounts} : task.run files = ⟨.ok counts, after⟩ ↔
      ∃ records, task.records files = .ok records ∧ counts = ⟨records.length, 0, 0⟩ ∧
        files.write? task.expected (String.ofList (records.flatMap QueryRecord.line)) =
          some after := by
  rw [RecordTask.run, if_pos hgenerate]
  cases task.records files with
  | error e => simp [bind, Except.bind]
  | ok records =>
      cases hwrite : files.write? task.expected
          (String.ofList (records.flatMap QueryRecord.line)) with
      | none => simp [bind, Except.bind, writeRecords, hwrite]
      | some written =>
          simp [bind, Except.bind, pure, Except.pure, writeRecords, hwrite, eq_comm]

/-- Records of a document are verified against the document when they have been written in another
place. -/
theorem RecordTask.verify_of_write? {task : RecordTask} {files after : Files}
    {records : List QueryRecord} (hrecords : task.records files = .ok records)
    (hwrite : files.write? task.expected (String.ofList (records.flatMap QueryRecord.line)) =
      some after)
    (hplaces : files.locate? task.data ≠ files.locate? task.expected)
    (hnumbers : ∀ r ∈ records, ∀ j ∈ r.results, j.NumbersReadBack) :
    task.verify after = if ∀ r ∈ records, r.Fits then .ok records.length
      else .error (.parse task.expected) := by
  obtain ⟨document, hdata, hexpresses, hmade⟩ := exists_of_records hrecords
  obtain ⟨text, hread, hmeans⟩ := exists_text_of_readFile hdata
  have hstill := readFile_eq_ok ((Files.read?_of_write?_of_ne hwrite hplaces).trans hread) hmeans
  refine verify_of_written hstill (Files.read?_of_write? hwrite) hmade fun r hr => ?_
  obtain ⟨name, path, hquery⟩ := hmade r hr
  exact QueryRecord.legible_of_ofQuery hexpresses hquery (hnumbers r hr)

/-- **What verification makes of generated records.**  Say that a run has generated records, in
another place than that of the document, and that the numbers of the results are read back.  If all
results are nested at least two levels less deep than a document may be, verification accepts the
file and counts as many records as were generated.  Otherwise it refuses the file. -/
theorem RecordTask.verify_generated {task : RecordTask} (hgenerate : task.generate = true)
    {files after : Files} {counts : RecordCounts} (hrun : task.run files = ⟨.ok counts, after⟩)
    (hplaces : files.locate? task.data ≠ files.locate? task.expected)
    (hnumbers : ∀ records, task.records files = .ok records →
      ∀ r ∈ records, ∀ j ∈ r.results, j.NumbersReadBack) :
    ∃ records, task.records files = .ok records ∧ counts = ⟨records.length, 0, 0⟩ ∧
      task.verify after =
        if ∀ r ∈ records, ∀ j ∈ r.results, j.depth ≤ Json.nestingLimit - 2
        then .ok counts.generated else .error (.parse task.expected) := by
  obtain ⟨records, hrecords, rfl, hwrite⟩ := (run_eq_ok_iff hgenerate).1 hrun
  exact ⟨records, hrecords, rfl, verify_of_write? hrecords hwrite hplaces
    (hnumbers records hrecords)⟩

/-! ### Results at the limit -/

/-- Nothing, inside as many arrays as one likes. -/
def Json.nested : Nat → Json
  | 0 => .null
  | n + 1 => .array [nested n]

theorem Json.depth_nested (n : Nat) : (nested n).depth = n := by
  induction n with
  | zero => rfl
  | succ n ih => rw [nested, Json.depth, depthItems, depthItems, ih, Nat.max_zero]

theorem Json.legible_nested (n : Nat) : (nested n).Legible := by
  induction n with
  | zero => exact .null
  | succ n ih => exact .array (List.forall_mem_singleton.2 ih)

theorem Json.numbersReadBack_nested (n : Nat) : (nested n).NumbersReadBack := by
  induction n with
  | zero => exact List.forall_mem_nil _
  | succ n ih => exact numbersReadBack_array.2 (List.forall_mem_singleton.2 ih)

theorem Json.ofValue_ofJson_nested (n : Nat) : ofValue (.ofJson (nested n)) = nested n := by
  induction n with
  | zero => rfl
  | succ n ih =>
      rw [nested, Value.ofJson, Json.ofValue, valuesOfItems, valuesOfItems, itemsOfValues,
        itemsOfValues, ih]

/-- A task with one query, for what a document has under a key. -/
def nestedTask : RecordTask := ⟨"data.json", "queries.json", "expected.jsonl", "errors.json", true⟩

/-- Files for the task: under the key of the document there is nothing, inside of arrays. -/
def nestedFiles (n : Nat) : Files where
  texts := [("data.json", (Json.object [("a", .nested n)]).text),
    ("queries.json", "[[\"q\",\".a\"]]")]
  directories := []

/-- The path to what an object has under its only key. -/
theorem queryResults_child (expression key : String) (j : Json) :
    queryResults ⟨expression, [⟨.child (.name key), none⟩]⟩ (.object [(key, j)]) =
      [.ofValue (.ofJson j)] := by
  simp [queryResults, Value.ofJson, entriesOfMembers, Path.select_eq_follow, Path.hops_eq_map,
    Step.hop, follow_cons, Target.pick, Selector.pick, Value.get?, Entries.find?_cons,
    Target.isDescendant]

theorem records_nested {n : Nat} (hn : n + 1 ≤ Json.nestingLimit) :
    nestedTask.records (nestedFiles n) = .ok [⟨"q", ".a", [.nested n]⟩] := by
  have hdata : readData (nestedFiles n) "data.json" = .ok (.object [("a", .nested n)]) := by
    have hlegible : (Json.object [("a", .nested n)]).Legible :=
      .object (List.pairwise_singleton _ _) (List.forall_mem_singleton.2 (Json.legible_nested n))
    have hparse := hlegible.parse?_text
    rw [if_pos (by simpa [Json.depth, Json.depthMembers, Json.depth_nested] using hn)] at hparse
    exact readFile_eq_ok rfl hparse
  have hqueries : readFile (Document.toList? namedQuery?) (nestedFiles n) "queries.json" =
      .ok [("q", ".a")] := by
    have hread := Json.readAs_array (.cons (Json.readAs_array
      (.cons (Json.readAs_string "q") (.cons (Json.readAs_string ".a") .nil))) .nil)
    refine readFile_eq_ok rfl ?_
    rw [show "[[\"q\",\".a\"]]".toList = (Json.array [.array [.string "q", .string ".a"]]).write
      from rfl, hread.parse?_write]
    rfl
  have hquery : QueryRecord.ofQuery (.object [("a", .nested n)]) "q" ".a" =
      .ok ⟨"q", ".a", [.nested n]⟩ := by
    have hp : compile commandContext ".a" = .ok ⟨".a", [⟨.child (.name "a"), none⟩]⟩ := rfl
    simp only [QueryRecord.ofQuery, hp, queryResults_child, Json.ofValue_ofJson_nested]
  rw [RecordTask.records]
  simp only [nestedTask, hdata, hqueries, bind, Except.bind]
  rw [List.mapM_cons, hquery]
  rfl

theorem places_nested (n : Nat) : (nestedFiles n).locate? nestedTask.data ≠
    (nestedFiles n).locate? nestedTask.expected := by
  have hdata : (nestedFiles n).locate? nestedTask.data = some "data.json" := rfl
  have hexpected : (nestedFiles n).locate? nestedTask.expected = some "expected.jsonl" := rfl
  rw [hdata, hexpected]
  decide

/-- A run on the files writes the one record. -/
theorem exists_run_nested {n : Nat} (hn : n + 1 ≤ Json.nestingLimit) :
    ∃ after, (nestedFiles n).write? nestedTask.expected
        (String.ofList ([⟨"q", ".a", [.nested n]⟩].flatMap QueryRecord.line)) = some after ∧
      nestedTask.run (nestedFiles n) = ⟨.ok ⟨1, 0, 0⟩, after⟩ :=
  ⟨_, rfl, (RecordTask.run_eq_ok_iff rfl).2 ⟨_, records_nested hn, rfl, rfl⟩⟩

theorem numbersReadBack_of_records_nested {n : Nat} (hn : n + 1 ≤ Json.nestingLimit)
    {records : List QueryRecord} (h : nestedTask.records (nestedFiles n) = .ok records) :
    ∀ r ∈ records, ∀ j ∈ r.results, j.NumbersReadBack := by
  rw [records_nested hn] at h
  cases h
  exact List.forall_mem_singleton.2 (List.forall_mem_singleton.2 (Json.numbersReadBack_nested n))

/-- Results that are nested as deep as verification can go are accepted. -/
theorem verify_generated_nested :
    nestedTask.generate = true ∧ ∃ after,
      nestedTask.run (nestedFiles 125) = ⟨.ok ⟨1, 0, 0⟩, after⟩ ∧
      (nestedFiles 125).locate? nestedTask.data ≠ (nestedFiles 125).locate? nestedTask.expected ∧
      (∀ records, nestedTask.records (nestedFiles 125) = .ok records →
        ∀ r ∈ records, ∀ j ∈ r.results, j.NumbersReadBack) ∧
      nestedTask.verify after = .ok 1 := by
  have hn : 125 + 1 ≤ Json.nestingLimit := by decide
  obtain ⟨after, -, hrun⟩ := exists_run_nested hn
  obtain ⟨records, hrecords, -, hverify⟩ := RecordTask.verify_generated rfl hrun (places_nested 125)
    fun _ => numbersReadBack_of_records_nested hn
  refine ⟨rfl, after, hrun, places_nested 125,
    fun _ => numbersReadBack_of_records_nested hn, ?_⟩
  rw [records_nested hn] at hrecords
  cases hrecords
  rw [hverify, if_pos]
  simp [Json.depth_nested, Json.nestingLimit]

/-- **Results of a document at the limit are not accepted**, although they have been generated from
it: nested one level less deep than the document, they are nested two levels deeper in a record. -/
theorem nested_results_refused :
    ∃ after, nestedTask.run (nestedFiles 126) = ⟨.ok ⟨1, 0, 0⟩, after⟩ ∧
      (nestedFiles 126).locate? nestedTask.data ≠ (nestedFiles 126).locate? nestedTask.expected ∧
      (∀ records, nestedTask.records (nestedFiles 126) = .ok records →
        ∀ r ∈ records, ∀ j ∈ r.results, j.NumbersReadBack) ∧
      nestedTask.verify after = .error (.parse "expected.jsonl") := by
  have hn : 126 + 1 ≤ Json.nestingLimit := by decide
  obtain ⟨after, hafter, hrun⟩ := exists_run_nested hn
  refine ⟨after, hrun, places_nested 126, fun _ => numbersReadBack_of_records_nested hn, ?_⟩
  rw [RecordTask.verify_of_write? (records_nested hn) hafter (places_nested 126)
    (numbersReadBack_of_records_nested hn (records_nested hn)), if_neg]
  · rfl
  · simp [QueryRecord.Fits, Json.depth_nested, Json.nestingLimit]

end TreePath
