/-
**Filtering a stream of documents.**

One path is followed in every document of a stream.  Its matches are written as documents again:
each on a line of its own as soon as it is found, or all together in one array after the end of
the stream.  A path that does not compile is reported before any input is looked at; a stream that
breaks off in the middle of a document is reported after the documents before that one have been
dealt with.

Main definitions:

* `commandContext` — the context in which the commands compile paths;
* `queryResults` — the matches of a path in a document, as documents;
* `StreamQuery`, `StreamCounts`, `StreamError`, `StreamRun`;
* `StreamQuery.program` — a run, match by match;
* `StreamQuery.run` — what a query writes for an input.
-/

import TreePath.Path.Compile
import TreePath.Condition.Builtin
import TreePath.Evaluation.Path
import TreePath.Json.Reading
import TreePath.Json.Writing
import TreePath.Json.Conversion

set_option autoImplicit false
set_option relaxedAutoImplicit false

namespace TreePath

/-! ### Queries -/

/-- The context in which the commands compile paths: the conditions of the language, with descendant
steps. -/
def commandContext : Context := Context.standard.withDescendants true

/-- The matches of a path in a document, as documents. -/
def queryResults (p : Path) (document : Json) : List Json :=
  (p.select (.ofJson document)).map .ofValue

/-! ### Runs -/

/-- What is asked of a stream. -/
structure StreamQuery where
  /-- The path to follow in every document. -/
  path : String
  /-- Whether all matches are written together at the end. -/
  batch : Bool
  deriving DecidableEq

/-- The query where none is given: every child of every document, one on a line. -/
def StreamQuery.standard : StreamQuery := ⟨".*", false⟩

/-- What a run has dealt with. -/
structure StreamCounts where
  /-- The number of documents. -/
  documents : Nat
  /-- The number of matches in all of them. -/
  results : Nat
  deriving DecidableEq

/-- Why a run failed. -/
inductive StreamError where
  /-- The path does not compile. -/
  | compile (e : SyntaxError)
  /-- The input is not a stream of documents. -/
  | decode
  deriving DecidableEq

/-- What others say about a failure, which the program repeats. -/
structure Remarks where
  /-- The words of the reader of documents, about a text that it does not understand. -/
  reader : String
  /-- The words of the system, about a file that it does not open. -/
  system : String

/-- The reason in words. -/
def StreamError.message (remarks : Remarks) : StreamError → String
  | .compile e => "could not compile path: " ++ e.message
  | .decode => "could not read JSON from input: " ++ remarks.reader

/-- What a run has written, and how it ended. -/
structure StreamRun where
  /-- The text written. -/
  output : String
  /-- The statistics of a run that succeeded, or the reason why it failed. -/
  result : Except StreamError StreamCounts

/-- A document on a line of its own. -/
def documentLine (j : Json) : List Char := j.write ++ ['\n']

/-! ### A run, match by match -/

/-- What a run has done so far. -/
structure StreamState where
  /-- The text written. -/
  output : String
  /-- What has been dealt with. -/
  counts : StreamCounts
  /-- The matches that are to be written together. -/
  batch : Array Json

/-- Nothing has been done. -/
def StreamState.start : StreamState := ⟨"", ⟨0, 0⟩, #[]⟩

/-- A part of a run.  Each starts from what has been done before it, and where one fails that is
what is left. -/
abbrev StreamProgram (α : Type) := EStateM StreamError StreamState α

/-- Writes a document on a line of its own. -/
def writeLine (j : Json) : StreamProgram Unit :=
  modify fun s => { s with output := s.output ++ String.ofList (documentLine j) }

namespace StreamQuery

/-- Deals with a match: it is counted, and then put by or written. -/
def emit (query : StreamQuery) (found : Value) : StreamProgram Unit := do
  modify fun s => { s with counts.results := s.counts.results + 1 }
  if query.batch then modify fun s => { s with batch := s.batch.push (.ofValue found) }
  else writeLine (.ofValue found)

/-- Deals with a document: it is counted, and then its matches are dealt with as they are found. -/
def search (query : StreamQuery) (p : Path) (document : Json) : StreamProgram Unit := do
  modify fun s => { s with counts.documents := s.counts.documents + 1 }
  forM (p.select (.ofJson document)) query.emit

/-- Deals with the documents that follow one another in a text, at most `count` of them. -/
def searchUpTo (query : StreamQuery) (p : Path) : (count : Nat) → List Char → StreamProgram Unit
  | 0, _ => throw .decode
  | count + 1, s =>
    match nextValue (Json.ofDocument? Json.nestingLimit) s with
    | .finished => return ()
    | .unreadable => throw .decode
    | .value document rest => do
      query.search p document
      query.searchUpTo p count rest

/-- Deals with an input: its documents one after the other, and then what has been put by.  Each
document takes at least one character. -/
def program (query : StreamQuery) (input : String) : StreamProgram Unit :=
  match compile commandContext query.path with
  | .error e => throw (.compile e)
  | .ok p => do
    query.searchUpTo p (input.toList.length + 1) input.toList
    if query.batch then writeLine (.array (← get).batch.toList)

/-- What a query writes for an input, and how that ends. -/
def run (query : StreamQuery) (input : String) : StreamRun :=
  match (query.program input).run .start with
  | .ok _ s => ⟨s.output, .ok s.counts⟩
  | .error e s => ⟨s.output, .error e⟩

end StreamQuery

end TreePath
