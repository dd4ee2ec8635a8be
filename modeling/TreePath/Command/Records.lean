/-
**Recorded query results.**

A list of named queries is run against one document, and what each of them finds is recorded in a
file of its own, one record on a line.  Later the records are verified: every recorded query is run
again, and its results must be the recorded ones.  Verification also checks a list of expressions
that must not compile, without descendant steps.

Main definitions:

* `QueryRecord`, `QueryRecord.ofDocument?`, `QueryRecord.line` — a record, read and written;
* `RecordTask`, `RecordCounts`, `RecordError`;
* `RecordTask.records`, `RecordTask.verify`, `RecordTask.rejectMalformed` — what a run consists of;
* `RecordTask.run` — a run, with the files it leaves.
-/

import TreePath.Command.Stream
import TreePath.Command.Files

set_option autoImplicit false
set_option relaxedAutoImplicit false

namespace TreePath

/-! ### Records -/

/-- Every result of one named query. -/
structure QueryRecord where
  /-- The name of the query. -/
  name : String
  /-- The path it follows. -/
  path : String
  /-- What it found, in order. -/
  results : List Json

/-- A text as the meaning of a document. -/
def Document.toText? : Document → Option String
  | .string pieces => textOfPieces? pieces
  | _ => none

/-- The elements of an array, each of which `decode?` gives a meaning. -/
def Document.toList? {α : Type} (decode? : Document → Option α) : Document → Option (List α)
  | .array items => items.mapM decode?
  | _ => none

namespace QueryRecord

/-- The record of a name, a path and results.  The results lie inside two levels of nesting. -/
def ofParts? (name path results : Document) : Option QueryRecord := do
  let name ← name.toText?
  let path ← path.toText?
  let results ← match results with
    | .array items => itemsOfResults? items
    | _ => none
  return ⟨name, path, results⟩
where
  /-- The meanings of the results. -/
  itemsOfResults? (items : List Document) : Option (List Json) :=
    Json.itemsOfDocuments? (Json.nestingLimit - 2) items

/-- The only member of a name. -/
def member? (members : List (String × Document)) (name : String) : Option Document :=
  match members.filter fun m => m.1 == name with
  | [m] => some m.2
  | _ => none

/-- A record as a document: an object with the members `Name`, `Path` and `Results`, each once,
among any others, which are not looked into; or an array of the three. -/
def ofDocument? : Document → Option QueryRecord
  | .object members => do
    let members ← members.mapM fun m => (textOfPieces? m.1).map fun name => (name, m.2)
    ofParts? (← member? members "Name") (← member? members "Path") (← member? members "Results")
  | .array [name, path, results] => ofParts? name path results
  | _ => none

/-- A record as it is written. -/
def toJson (r : QueryRecord) : Json :=
  .object [("Name", .string r.name), ("Path", .string r.path), ("Results", .array r.results)]

/-- A record on a line of its own. -/
def line (r : QueryRecord) : List Char := documentLine r.toJson

end QueryRecord

/-! ### Runs -/

/-- What a run is asked to do. -/
structure RecordTask where
  /-- The file with the document that queries run against. -/
  data : String
  /-- The file with the list of named queries. -/
  queries : String
  /-- The file with the records. -/
  expected : String
  /-- The file with the list of expressions that must not compile. -/
  errors : String
  /-- Whether records are written instead of verified. -/
  generate : Bool
  deriving DecidableEq

/-- The files of a run for which none are named. -/
def RecordTask.standard : RecordTask :=
  ⟨"testdata/data.json", "testdata/queries.json", "testdata/expect.jsonstream",
    "testdata/syntax_errors.json", false⟩

/-- The counts of a run that succeeded. -/
structure RecordCounts where
  /-- The records written. -/
  generated : Nat
  /-- The records verified. -/
  verified : Nat
  /-- The expressions that did not compile. -/
  rejected : Nat
  deriving DecidableEq

/-- Why a run failed. -/
inductive RecordError where
  /-- A file is missing, or the file for the records can be neither made nor replaced. -/
  | openFile (file : String)
  /-- A file does not hold what it should. -/
  | parse (file : String)
  /-- The path of a query does not compile. -/
  | compile (name : String) (e : SyntaxError)
  /-- A query does not find what is recorded. -/
  | mismatch (name : String) (expected actual : List Json)
  /-- An expression compiles that should not. -/
  | compiled (expression : String)

/-- The reason in words. -/
def RecordError.message (remarks : Remarks) : RecordError → String
  | .openFile file => "could not open " ++ file ++ ": " ++ remarks.system
  | .parse file => "could not parse " ++ file ++ ": " ++ remarks.reader
  | .compile name e => "query " ++ quoted name ++ " does not compile: " ++ e.message
  | .mismatch name expected actual =>
    "did not get the expected results for " ++ quoted name ++ "\n  expected: " ++
      (Json.array expected).text ++ "\n  actual:   " ++ (Json.array actual).text
  | .compiled expression =>
    "expected path expression " ++ quoted expression ++ " to fail to compile"

/-- The text of a file.  A directory is opened like a file, but there is nothing to be understood in
it. -/
def openFile (files : Files) (file : String) : Except RecordError String :=
  if files.isDirectory file then .error (.parse file)
  else
    match files.read? file with
    | some text => .ok text
    | none => .error (.openFile file)

/-- The meaning of a file that holds one document. -/
def readFile {α : Type} (decode? : Document → Option α) (files : Files) (file : String) :
    Except RecordError α := do
  let text ← openFile files file
  match (Document.parse? text.toList).bind decode? with
  | some a => return a
  | none => throw (.parse file)

/-- The document that queries run against. -/
def readData (files : Files) (file : String) : Except RecordError Json :=
  readFile (Json.ofDocument? Json.nestingLimit) files file

/-- A named query: a name and a path. -/
def namedQuery? : Document → Option (String × String)
  | .array [name, path] => do return (← name.toText?, ← path.toText?)
  | _ => none

/-- The record of a query. -/
def QueryRecord.ofQuery (document : Json) (name path : String) : Except RecordError QueryRecord :=
  match compile commandContext path with
  | .ok p => .ok ⟨name, path, queryResults p document⟩
  | .error e => .error (.compile name e)

/-! ### Tasks -/

/-- The records of the queries of a run, in order.  Queries do not depend on one another and may be
run side by side.  Where several of them do not compile, any of these may then be the one that is
reported; here it is always the first. -/
def RecordTask.records (task : RecordTask) (files : Files) :
    Except RecordError (List QueryRecord) := do
  let document ← readData files task.data
  let queries ← readFile (Document.toList? namedQuery?) files task.queries
  queries.mapM fun q => QueryRecord.ofQuery document q.1 q.2

/-- Verifies a record. -/
def QueryRecord.verify (document : Json) (r : QueryRecord) : Except RecordError Unit := do
  let actual ← QueryRecord.ofQuery document r.name r.path
  if Json.sameItems actual.results r.results then return ()
  else throw (.mismatch r.name r.results actual.results)

/-- Verifies the records of a run, and counts them. -/
def RecordTask.verify (task : RecordTask) (files : Files) : Except RecordError Nat := do
  let document ← readData files task.data
  let text ← openFile files task.expected
  let records := readAll QueryRecord.ofDocument? text
  records.values.forM (QueryRecord.verify document)
  if records.complete then return records.values.length else throw (.parse task.expected)

/-- Checks that the expressions of a run do not compile, and counts them. -/
def RecordTask.rejectMalformed (task : RecordTask) (files : Files) : Except RecordError Nat := do
  let expressions ← readFile (Document.toList? Document.toText?) files task.errors
  expressions.forM fun expression =>
    match compile Context.standard expression with
    | .ok _ => throw (.compiled expression)
    | .error _ => return ()
  return expressions.length

/-- Puts records in place of the file for them. -/
def writeRecords (files : Files) (file : String) (records : List QueryRecord) :
    Except RecordError Files :=
  match files.write? file (String.ofList (records.flatMap QueryRecord.line)) with
  | some files => .ok files
  | none => .error (.openFile file)

/-- What a run reports, and the files it leaves. -/
structure RecordRun where
  /-- The report, or the reason why the run failed. -/
  result : Except RecordError RecordCounts
  /-- The files after the run. -/
  files : Files

/-- A run on files. -/
def RecordTask.run (task : RecordTask) (files : Files) : RecordRun :=
  if task.generate then
    let written := do
      let records ← task.records files
      let after ← writeRecords files task.expected records
      return (records.length, after)
    match written with
    | .ok (count, after) => ⟨.ok ⟨count, 0, 0⟩, after⟩
    | .error e => ⟨.error e, files⟩
  else
    let report := do
      let verified ← task.verify files
      let rejected ← task.rejectMalformed files
      return ⟨0, verified, rejected⟩
    ⟨report, files⟩

end TreePath
