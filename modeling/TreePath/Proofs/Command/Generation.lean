/-
**Generation is all or nothing.**

A run that generates replaces the file of records, which may be all that is known of the right
results.  So nothing may be written before it is certain that there is something to write.  This
module spells the run out as a program of single operations on files, in which the file of records
is made empty first and then written piece by piece, and a failing operation leaves the files as
they are at that moment.  All operations that can fail come before the first that changes a file;
hence the program leaves what `RecordTask.run` says, and a run that fails leaves every file as it
was.

Main definitions:

* `FileProgram`, with `FileProgram.reading`, `FileProgram.create`, `FileProgram.append`;
* `RecordTask.program` — a run, operation by operation;
* `QueryRecord.Answers` — the record of a query on a document;
* `RecordTask.Blocked` — what keeps a run from generating records.

Main results:

* `FileProgram.run_forM_append` — pieces written one after the other;
* `RecordTask.run_of_generate`, `RecordTask.files_run_cases` — what a run that generates leaves;
* `RecordTask.program_eq` — **the program comes to the same as the run**;
* `RecordTask.records_eq_ok_iff` — when there are records, and which;
* `RecordTask.run_all_or_nothing` — **what a run leaves of the files**.
-/

import TreePath.Proofs.Command.Verification

set_option relaxedAutoImplicit false
set_option autoImplicit false

namespace TreePath

/-! ### Operations on files -/

/-- A program of operations on files.  Each starts from the files that the one before it left, and
where one fails they stay as they are. -/
abbrev FileProgram (α : Type) := EStateM RecordError Files α

/-- How a program ends that reports a result and leaves some files. -/
def FileProgram.ending {α : Type} (result : Except RecordError α) (files : Files) :
    EStateM.Result RecordError Files α :=
  match result with
  | .ok a => .ok a files
  | .error e => .error e files

namespace FileProgram

variable {α β : Type}

/-- Something that depends on files and changes none. -/
def reading (f : Files → Except RecordError α) : FileProgram α := fun files =>
  ending (f files) files

/-- Makes the file of a name empty, also where there was none, and gives its place. -/
def create (file : String) : FileProgram String := fun files =>
  match files.createAt? file with
  | some place => .ok place { files with texts := Entries.insert place "" files.texts }
  | none => .error (.openFile file) files

/-- Writes a text at the end of the file in a place. -/
def append (place text : String) : FileProgram Unit := fun files =>
  let before := (Entries.find? files.texts place).getD ""
  .ok () { files with texts := Entries.insert place (before ++ text) files.texts }

/-- Writes lines into the file of a name, instead of what was there before. -/
def writeLines (file : String) (lines : List String) : FileProgram Unit := do
  let place ← create file
  forM lines fun line => do
    append place line
    append place "\n"

theorem run_reading (f : Files → Except RecordError α) (files : Files) :
    (reading f).run files = ending (f files) files := rfl

/-- What is read decides how the program goes on, with the same files. -/
theorem run_reading_bind (f : Files → Except RecordError α) (next : α → FileProgram β)
    (files : Files) : (reading f >>= next).run files = match f files with
      | .ok a => (next a).run files
      | .error e => .error e files := by
  rw [EStateM.run_bind, run_reading]
  cases f files <;> rfl

/-- What is written at the end of a text stands behind it. -/
theorem run_append (place before text : String) (files : Files) :
    (append place text).run { files with texts := Entries.insert place before files.texts } =
      .ok () { files with texts := Entries.insert place (before ++ text) files.texts } := by
  simp only [EStateM.run, append, Entries.find?_insert, if_true, Option.getD_some,
    Entries.insert_insert]

/-- **Pieces written one after the other** stand behind one another. -/
theorem run_forM_append (place before : String) (lines : List String) (files : Files) :
    (forM lines fun line => do append place line; append place "\n").run
      { files with texts := Entries.insert place before files.texts } = .ok ()
        { files with texts := Entries.insert place (before ++ unlines lines) files.texts } := by
  induction lines generalizing before with
  | nil => simp [unlines]
  | cons line rest ih =>
      have hmore : before ++ unlines (line :: rest) = before ++ line ++ "\n" ++ unlines rest := by
        simp [unlines, String.append_assoc]
      simp only [List.forM_cons, EStateM.run_bind, run_append, ih, hmore]

/-- Lines are all that is in a file after they have been written into it. -/
theorem run_writeLines (file : String) (lines : List String) (files : Files) :
    (writeLines file lines).run files = match files.write? file (unlines lines) with
      | none => .error (.openFile file) files
      | some after => .ok () after := by
  rw [writeLines, EStateM.run_bind, Files.write?]
  cases hplace : files.createAt? file with
  | none => simp only [EStateM.run, create, hplace, Option.map_none]
  | some place =>
      have hcreate : (create file).run files =
          .ok place { files with texts := Entries.insert place "" files.texts } := by
        simp only [EStateM.run, create, hplace]
      simp only [hcreate, run_forM_append, String.empty_append, Option.map_some]

end FileProgram

/-! ### A run, operation by operation -/

open FileProgram in
/-- A run, operation by operation.  One that generates reads its files, makes all records, makes the
file for them empty, and writes each record and the end of its line.  One that verifies only
reads. -/
def RecordTask.program (task : RecordTask) : FileProgram RecordCounts :=
  if task.generate then do
    let document ← reading fun files => readData files task.data
    let queries ← reading fun files => readFile (Document.toList? namedQuery?) files task.queries
    let records ← reading fun _ => queries.mapM fun q => QueryRecord.ofQuery document q.1 q.2
    writeLines task.expected (records.map fun r => r.toJson.text)
    return ⟨records.length, 0, 0⟩
  else do
    let verified ← reading task.verify
    let rejected ← reading task.rejectMalformed
    return ⟨0, verified, rejected⟩

/-- Records on lines of their own are the texts of their documents on lines. -/
theorem QueryRecord.ofList_flatMap_line (records : List QueryRecord) :
    String.ofList (records.flatMap line) = unlines (records.map fun r => r.toJson.text) := by
  have h := ofList_flatMap_documentLine (records.map toJson)
  rw [List.flatMap_map, List.map_map] at h
  exact h

namespace RecordTask

variable {task : RecordTask} {files : Files}

/-- What a run that generates leaves. -/
theorem run_of_generate (hgenerate : task.generate = true) (files : Files) :
    task.run files = match task.records files with
      | .error e => ⟨.error e, files⟩
      | .ok records =>
        match files.write? task.expected (unlines (records.map fun r => r.toJson.text)) with
        | none => ⟨.error (.openFile task.expected), files⟩
        | some after => ⟨.ok ⟨records.length, 0, 0⟩, after⟩ := by
  rw [run, if_pos hgenerate]
  cases task.records files with
  | error e => rfl
  | ok records =>
      simp only [← QueryRecord.ofList_flatMap_line]
      cases hwrite : files.write? task.expected
          (String.ofList (records.flatMap QueryRecord.line)) with
      | none => simp [bind, Except.bind, writeRecords, hwrite]
      | some after => simp [bind, Except.bind, pure, Except.pure, writeRecords, hwrite]

/-- A run that generates leaves the files as they were, or with another text in the file of the
records. -/
theorem files_run_cases (hgenerate : task.generate = true) (files : Files) :
    (task.run files).files = files ∨
      ∃ text, files.write? task.expected text = some (task.run files).files := by
  rw [run_of_generate hgenerate]
  cases task.records files with
  | error e => exact .inl rfl
  | ok records =>
      dsimp only
      cases hwrite : files.write? task.expected
          (unlines (records.map fun r => r.toJson.text)) with
      | none => exact .inl rfl
      | some after => exact .inr ⟨_, hwrite⟩

/-- **The program comes to the same as the run**, in what it reports and in the files that it
leaves. -/
theorem program_eq (task : RecordTask) (files : Files) :
    task.program.run files = FileProgram.ending (task.run files).result (task.run files).files := by
  cases hgenerate : task.generate with
  | true =>
      rw [run_of_generate hgenerate, program, if_pos hgenerate, FileProgram.run_reading_bind]
      cases hdata : readData files task.data with
      | error e =>
          have hrecords : task.records files = .error e := by
            rw [records, hdata]
            rfl
          rw [hrecords]
          rfl
      | ok document =>
          simp only [FileProgram.run_reading_bind]
          cases hqueries : readFile (Document.toList? namedQuery?) files task.queries with
          | error e =>
              have hrecords : task.records files = .error e := by
                rw [records, hdata, hqueries]
                rfl
              rw [hrecords]
              rfl
          | ok queries =>
              have hrecords : task.records files =
                  queries.mapM fun q => QueryRecord.ofQuery document q.1 q.2 := by
                rw [records, hdata, hqueries]
                rfl
              simp only [hrecords]
              cases queries.mapM fun q => QueryRecord.ofQuery document q.1 q.2 with
              | error e => rfl
              | ok records =>
                  simp only [EStateM.run_bind, FileProgram.run_writeLines]
                  cases files.write? task.expected
                    (unlines (records.map fun r => r.toJson.text)) <;> rfl
  | false =>
      rw [run, program, if_neg (by rw [hgenerate]; decide), if_neg (by rw [hgenerate]; decide)]
      simp only [FileProgram.run_reading_bind]
      cases task.verify files with
      | error e => rfl
      | ok verified =>
          cases task.rejectMalformed files with
          | error e => rfl
          | ok rejected => rfl

end RecordTask

/-! ### The records of queries -/

/-- The record of a named query on a document: its name, its path, and the matches of the path, as
documents. -/
structure QueryRecord.Answers (document : Json) (query : String × String) (r : QueryRecord) :
    Prop where
  /-- The name is that of the query. -/
  name : r.name = query.1
  /-- The path is that of the query. -/
  path : r.path = query.2
  /-- The results are the matches. -/
  results : ∃ p, compile commandContext query.2 = .ok p ∧
    r.results = (p.select (.ofJson document)).map Json.ofValue

theorem QueryRecord.ofQuery_eq_ok_iff {document : Json} {query : String × String}
    {r : QueryRecord} : ofQuery document query.1 query.2 = .ok r ↔ r.Answers document query := by
  constructor
  · intro h
    obtain ⟨p, hp, rfl⟩ := exists_of_ofQuery h
    exact ⟨rfl, rfl, p, hp, rfl⟩
  · rintro ⟨hname, hpath, p, hp, hresults⟩
    obtain ⟨name, path, results⟩ := r
    cases hname
    cases hpath
    cases hresults
    rw [ofQuery, hp]
    rfl

/-- Where each query has a record, the path of each query compiles. -/
theorem QueryRecord.exists_compile_of_answers {document : Json} {queries : List (String × String)}
    {records : List QueryRecord} (h : List.Forall₂ (Answers document) queries records) :
    ∀ q ∈ queries, ∃ p, compile commandContext q.2 = .ok p := by
  induction h with
  | nil => exact List.forall_mem_nil _
  | cons hr _ ih => exact List.forall_mem_cons.2 ⟨hr.results.imp fun _ h => h.1, ih⟩

/-- Where the path of each query compiles, each query has a record. -/
theorem QueryRecord.exists_answers (document : Json) {queries : List (String × String)}
    (h : ∀ q ∈ queries, ∃ p, compile commandContext q.2 = .ok p) :
    ∃ records, List.Forall₂ (Answers document) queries records := by
  refine Json.exists_forall₂ fun q hq => ?_
  obtain ⟨p, hp⟩ := h q hq
  exact ⟨⟨q.1, q.2, _⟩, rfl, rfl, p, hp, rfl⟩

namespace RecordTask

variable {task : RecordTask} {files : Files}

/-- The document of a task, and its named queries. -/
structure Asks (task : RecordTask) (files : Files) (document : Json)
    (queries : List (String × String)) : Prop where
  /-- The document is what the data file holds. -/
  data : files.Holds (Json.ofDocument? Json.nestingLimit) task.data document
  /-- The queries are what their file holds. -/
  queries : files.Holds (Document.toList? namedQuery?) task.queries queries

/-- The records of a task are those of its queries on its document. -/
theorem Asks.records_eq {document : Json} {queries : List (String × String)}
    (h : task.Asks files document queries) : task.records files =
      queries.mapM fun q => QueryRecord.ofQuery document q.1 q.2 := by
  rw [records, readData, readFile_eq_ok_iff.2 h.data, readFile_eq_ok_iff.2 h.queries]
  rfl

/-- **When there are records, and which.** -/
theorem records_eq_ok_iff {records : List QueryRecord} : task.records files = .ok records ↔
    ∃ document queries, task.Asks files document queries ∧
      List.Forall₂ (QueryRecord.Answers document) queries records := by
  simp only [RecordTask.records, bind_eq_ok_iff, mapM_eq_ok_iff, QueryRecord.ofQuery_eq_ok_iff]
  constructor
  · rintro ⟨document, hdata, queries, hqueries, hrecords⟩
    exact ⟨document, queries, ⟨readFile_eq_ok_iff.1 hdata, readFile_eq_ok_iff.1 hqueries⟩, hrecords⟩
  · rintro ⟨document, queries, ⟨hdata, hqueries⟩, hrecords⟩
    exact ⟨document, readFile_eq_ok_iff.2 hdata, queries, readFile_eq_ok_iff.2 hqueries, hrecords⟩

/-! ### Queries as they are written -/

/-- A list of named queries as a text. -/
def queriesText (queries : List (String × String)) : String :=
  (Json.array (queries.map fun q => .array [.string q.1, .string q.2])).text

/-- The form of a named query. -/
def queryForm (q : String × String) : Document :=
  .array [.string (q.1.toList.map Piece.ofChar), .string (q.2.toList.map Piece.ofChar)]

theorem mapM_queryForm (queries : List (String × String)) :
    (queries.map queryForm).mapM namedQuery? = some queries := by
  induction queries with
  | nil => rfl
  | cons q rest ih =>
      have hquery : namedQuery? (queryForm q) = some q := by
        simp [namedQuery?, queryForm, Document.toText?, textOfPieces?_map_ofChar]
      simp [List.mapM_cons, hquery, ih]

/-- **Any list of named queries can be asked.** -/
theorem parse?_queriesText (queries : List (String × String)) :
    (Document.parse? (queriesText queries).toList).bind (Document.toList? namedQuery?) =
      some queries := by
  have hread : List.Forall₂ Json.ReadAs
      (queries.map fun q => .array [.string q.1, .string q.2]) (queries.map queryForm) := by
    rw [List.forall₂_map_left_iff, List.forall₂_map_right_iff, List.forall₂_same]
    intro q _
    exact Json.readAs_array (.cons (Json.readAs_string _) (.cons (Json.readAs_string _) .nil))
  rw [queriesText, Json.text, String.toList_ofList, (Json.readAs_array hread).parse?_write]
  exact mapM_queryForm queries

/-! ### What a run leaves -/

/-- What keeps a run from generating records. -/
inductive Blocked (task : RecordTask) (files : Files) : Prop
  /-- The data file is missing or does not hold a document. -/
  | data (h : ¬∃ document,
      files.Holds (Json.ofDocument? Json.nestingLimit) task.data document)
  /-- The file of queries is missing or does not hold a list of them. -/
  | queries (h : ¬∃ queries, files.Holds (Document.toList? namedQuery?) task.queries queries)
  /-- One of the queries, at any place among them, does not compile. -/
  | query {queries : List (String × String)} {q : String × String} {e : SyntaxError}
      (h : files.Holds (Document.toList? namedQuery?) task.queries queries) (hq : q ∈ queries)
      (he : compile commandContext q.2 = .error e)
  /-- The name of the file of records leads nowhere: a directory on the way does not exist. -/
  | missing (h : files.follow? task.expected = none)
  /-- A directory stands in the place of the file of records. -/
  | directory (h : files.isDirectory task.expected = true)
  /-- The system lets no file be made or replaced in the place of the file of records. -/
  | locked {place : String} (h : files.locate? task.expected = some place)
      (hlocked : place ∈ files.locked)

/-- There are no records for a task that is blocked, or no file can be made for them. -/
theorem Blocked.createAt?_eq_none (h : task.Blocked files) {records : List QueryRecord}
    (hrecords : task.records files = .ok records) : files.createAt? task.expected = none := by
  obtain ⟨document, queries, ⟨hdata, hqueries⟩, hanswers⟩ := records_eq_ok_iff.1 hrecords
  cases h with
  | data h => exact absurd ⟨document, hdata⟩ h
  | queries h => exact absurd ⟨queries, hqueries⟩ h
  | @query others q e hothers hq he =>
      obtain rfl := hothers.unique hqueries
      obtain ⟨p, hp⟩ := QueryRecord.exists_compile_of_answers hanswers q hq
      rw [hp] at he
      cases he
  | missing h => exact Files.createAt?_eq_none_iff.2 (.inl h)
  | directory h => exact Files.createAt?_eq_none_iff.2 (.inr (.inl h))
  | locked h hlocked => exact Files.createAt?_eq_none_iff.2 (.inr (.inr ⟨_, h, hlocked⟩))

/-- Where nothing keeps a run from generating records, it writes a line for each query. -/
theorem run_of_asks (hgenerate : task.generate = true) {document : Json}
    {queries : List (String × String)} (hasks : task.Asks files document queries)
    (hcompile : ∀ q ∈ queries, ∃ p, compile commandContext q.2 = .ok p)
    (hplace : (files.createAt? task.expected).isSome = true) :
    ∃ records, List.Forall₂ (QueryRecord.Answers document) queries records ∧
      (task.run files).result = .ok ⟨queries.length, 0, 0⟩ ∧
      (task.run files).files.read? task.expected =
        some (unlines (records.map fun r => r.toJson.text)) := by
  obtain ⟨records, hanswers⟩ := QueryRecord.exists_answers document hcompile
  obtain ⟨place, hplace⟩ := Option.isSome_iff_exists.1 hplace
  have hrecords := records_eq_ok_iff.2 ⟨document, queries, hasks, hanswers⟩
  obtain ⟨after, hwrite⟩ : ∃ after, files.write? task.expected
      (unlines (records.map fun r => r.toJson.text)) = some after :=
    ⟨_, by rw [Files.write?, hplace, Option.map_some]⟩
  rw [run_of_generate hgenerate]
  simp only [hrecords, hwrite]
  exact ⟨records, hanswers, by rw [hanswers.length_eq], Files.read?_of_write? hwrite⟩

/-- **What a run leaves of the files.**  Operation by operation it comes to what is said here.  A
run that verifies leaves all files as they were.  A run that generates leaves all directories as
they were, and all files but that of the records.  Where the document or the queries cannot be read,
or any of the queries does not compile, or the file of the records can be neither made nor replaced,
it fails and leaves that file as it was, too.  Otherwise it succeeds and counts the queries, and all
that is in the file then is a line for each query, in order: the document of a record with the name
of the query, its path and its matches. -/
theorem run_all_or_nothing (task : RecordTask) (files : Files) :
    let run := task.run files
    task.program.run files = FileProgram.ending run.result run.files ∧
    (task.generate = false → run.files = files) ∧
    (task.generate = true →
      run.files.hasDirectory = files.hasDirectory ∧
      (∀ place, files.locate? task.expected ≠ some place →
        Entries.find? run.files.texts place = Entries.find? files.texts place) ∧
      (task.Blocked files → (∃ e, run.result = .error e) ∧ run.files = files) ∧
      ∀ document queries, task.Asks files document queries →
        (∀ q ∈ queries, ∃ p, compile commandContext q.2 = .ok p) →
        (files.createAt? task.expected).isSome = true →
        ∃ records, List.Forall₂ (QueryRecord.Answers document) queries records ∧
          run.result = .ok ⟨queries.length, 0, 0⟩ ∧
          run.files.read? task.expected =
            some (unlines (records.map fun r => r.toJson.text))) := by
  refine ⟨program_eq task files, ?_, ?_⟩
  · intro hverify
    rw [run, if_neg (by rw [hverify]; decide)]
  intro hgenerate
  refine ⟨?_, ?_, ?_, ?_⟩
  · rcases files_run_cases hgenerate files with hsame | ⟨text, hwrite⟩
    · rw [hsame]
    · exact Files.hasDirectory_of_write? hwrite
  · intro other hother
    rcases files_run_cases hgenerate files with hsame | ⟨text, hwrite⟩
    · rw [hsame]
    · obtain ⟨place, hplace, -⟩ := Option.map_eq_some_iff.1 hwrite
      have hne : ¬place = other := fun heq =>
        hother (heq ▸ Files.locate?_of_createAt? hplace)
      rw [Files.find?_write? hplace hwrite, if_neg hne]
  · intro hblocked
    rw [run_of_generate hgenerate]
    cases hrecords : task.records files with
    | error e => exact ⟨⟨e, rfl⟩, rfl⟩
    | ok records =>
        have hwrite (text : String) : files.write? task.expected text = none := by
          rw [Files.write?, hblocked.createAt?_eq_none hrecords, Option.map_none]
        dsimp only
        rw [hwrite]
        exact ⟨⟨_, rfl⟩, rfl⟩
  · intro document queries hasks hcompile hplace
    exact run_of_asks hgenerate hasks hcompile hplace

/-- Files for a task of generation: nothing is under the key of the document, and there are other
records already. -/
def generatingFiles (queries : List (String × String)) : Files where
  texts := [("data.json", (Json.object [("a", .null)]).text), ("expected.jsonl", "old"),
    ("queries.json", queriesText queries)]
  directories := []

/-- Files for the same task, with a directory in the place of the file of records. -/
def occupiedFiles (queries : List (String × String)) : Files where
  texts := [("data.json", (Json.object [("a", .null)]).text), ("expected.jsonl/first", "old"),
    ("queries.json", queriesText queries)]
  directories := []

theorem parse?_null : Json.parse? (Json.object [("a", .null)]).text =
    some (.object [("a", .null)]) := by
  have hlegible : (Json.object [("a", .null)]).Legible :=
    .object (List.pairwise_singleton _ _) (List.forall_mem_singleton.2 .null)
  rw [hlegible.parse?_text, if_pos (by decide)]

theorem asks_generatingFiles (queries : List (String × String)) :
    nestedTask.Asks (generatingFiles queries) (.object [("a", .null)]) queries :=
  ⟨⟨_, rfl, parse?_null⟩, ⟨_, rfl, parse?_queriesText queries⟩⟩

theorem asks_occupiedFiles (queries : List (String × String)) :
    nestedTask.Asks (occupiedFiles queries) (.object [("a", .null)]) queries :=
  ⟨⟨_, rfl, parse?_null⟩, ⟨_, rfl, parse?_queriesText queries⟩⟩

/-- One query, and the same query before one that does not compile, and again by itself, but with a
directory in the place of the records. -/
theorem run_all_or_nothing_queries :
    let good := generatingFiles [("q", ".a")]
    let bad := generatingFiles [("q", ".a"), ("r", ".a(")]
    let occupied := occupiedFiles [("q", ".a")]
    (nestedTask.generate = true ∧ verifyingTask.generate = false) ∧
    (verifyingTask.run good).files = good ∧
    (good.locate? nestedTask.expected ≠ some "data.json" ∧
      Entries.find? (nestedTask.run good).files.texts "data.json" =
        Entries.find? good.texts "data.json") ∧
    (nestedTask.run good).result = .ok ⟨1, 0, 0⟩ ∧
    (nestedTask.run good).files.read? nestedTask.expected =
      some "\x7b\"Name\":\"q\",\"Path\":\".a\",\"Results\":[null]\x7d\n" ∧
    (nestedTask.Blocked bad ∧ (∃ e, (nestedTask.run bad).result = .error e) ∧
      (nestedTask.run bad).files = bad) ∧
    nestedTask.Asks occupied (.object [("a", .null)]) [("q", ".a")] ∧
    nestedTask.Blocked occupied ∧ (∃ e, (nestedTask.run occupied).result = .error e) ∧
    (nestedTask.run occupied).files = occupied := by
  intro good bad occupied
  have hp : compile commandContext ".a" = .ok ⟨".a", [⟨.child (.name "a"), none⟩]⟩ := rfl
  obtain ⟨e, he⟩ : ∃ e, compile commandContext ".a(" = .error e := ⟨_, rfl⟩
  have hplace : good.locate? nestedTask.expected = some "expected.jsonl" := rfl
  have hother : good.locate? nestedTask.expected ≠ some "data.json" := by
    rw [hplace]
    decide
  have hblocked : nestedTask.Blocked bad := .query (asks_generatingFiles _).queries
    (List.mem_cons_of_mem _ List.mem_cons_self) he
  have hdirectory : nestedTask.Blocked occupied := .directory rfl
  obtain ⟨-, hunchanged, -⟩ := run_all_or_nothing verifyingTask good
  obtain ⟨-, -, hgood⟩ := run_all_or_nothing nestedTask good
  obtain ⟨-, hkept, -, hwritten⟩ := hgood rfl
  obtain ⟨-, -, hbad⟩ := run_all_or_nothing nestedTask bad
  obtain ⟨-, -, hfailed, -⟩ := hbad rfl
  obtain ⟨-, -, hoccupied⟩ := run_all_or_nothing nestedTask occupied
  obtain ⟨-, -, hrefused, -⟩ := hoccupied rfl
  obtain ⟨records, hanswers, hcounts, htext⟩ := hwritten _ _ (asks_generatingFiles _)
    (List.forall_mem_singleton.2 ⟨_, hp⟩) rfl
  obtain ⟨⟨name, path, results⟩, rest, ⟨hname, hpath, p, hcompiled, hresults⟩, hrest, rfl⟩ :=
    List.forall₂_cons_left_iff.1 hanswers
  obtain rfl := List.forall₂_nil_left_iff.1 hrest
  cases hname
  cases hpath
  cases hp.symm.trans hcompiled
  obtain rfl : results = [.null] := hresults.trans (queryResults_child ".a" "a" .null)
  exact ⟨⟨rfl, rfl⟩, hunchanged rfl, ⟨hother, hkept _ hother⟩, hcounts, htext,
    ⟨hblocked, hfailed hblocked⟩, asks_occupiedFiles _, hdirectory, hrefused hdirectory⟩

end RecordTask

end TreePath
