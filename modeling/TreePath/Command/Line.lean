/-
**The command line.**

The first argument names a command and the others are its options.  An invocation is understood
first; only then is anything read or written.  What a program run does is a function of its
arguments, its standard input and the files it finds.  Where a failure is reported that the reader
of documents or the system has noticed, their words about it are repeated (`Remarks`).

Main definitions:

* `Invocation`, `Invocation.ofArguments` — what a command line asks for;
* `StreamQuery.ofArguments`, `RecordTask.ofArguments` — the options of the two commands;
* `Exit`, `Invocation.run` — what the program answers, and the files it leaves.
-/

import TreePath.Command.Records

set_option autoImplicit false
set_option relaxedAutoImplicit false

namespace TreePath

/-! ### Options -/

/-- The text after a mark at the front of an argument. -/
def textAfter? (mark argument : String) : Option String :=
  if mark.toList.isPrefixOf argument.toList then
    some (String.ofList (argument.toList.drop mark.toList.length))
  else none

/-- The options of a filter run, or the first argument that is not understood.  The last choice
between batch and stream counts, and so does the last path given with its mark; a path without
mark is taken only where none has been given before. -/
def StreamQuery.ofArguments (batch : Bool) (path : Option String) :
    List String → Except String StreamQuery
  | [] => .ok ⟨path.getD StreamQuery.standard.path, batch⟩
  | a :: rest =>
    if a = "--batch" then ofArguments true path rest
    else if a = "--stream" then ofArguments false path rest
    else
      match textAfter? "--path=" a with
      | some expression => ofArguments batch (some expression) rest
      | none =>
        if a.toList.head? ≠ some '-' ∧ path = none then ofArguments batch (some a) rest
        else .error a

/-- The options of a golden run, or the first argument that is not understood. -/
def RecordTask.ofArguments (task : RecordTask) : List String → Except String RecordTask
  | [] => .ok task
  | a :: rest =>
    if a = "--generate" then ofArguments { task with generate := true } rest
    else
      match textAfter? "--data=" a, textAfter? "--queries=" a, textAfter? "--expected=" a,
        textAfter? "--errors=" a with
      | some file, _, _, _ => ofArguments { task with data := file } rest
      | _, some file, _, _ => ofArguments { task with queries := file } rest
      | _, _, some file, _ => ofArguments { task with expected := file } rest
      | _, _, _, some file => ofArguments { task with errors := file } rest
      | none, none, none, none => .error a

/-! ### Invocations -/

/-- What a command line asks for. -/
inductive Invocation where
  /-- To be told how the program is used. -/
  | usage
  /-- A command that there is not. -/
  | unknown (command : String)
  /-- A filter run. -/
  | filter (query : StreamQuery)
  /-- A filter run with an argument that is not understood. -/
  | filterMisuse (argument : String)
  /-- A golden run. -/
  | golden (task : RecordTask)
  /-- A golden run with an argument that is not understood. -/
  | goldenMisuse (argument : String)

/-- What the arguments of the program ask for. -/
def Invocation.ofArguments : List String → Invocation
  | [] => .usage
  | command :: arguments =>
    if command = "filter" then
      match StreamQuery.ofArguments StreamQuery.standard.batch none arguments with
      | .ok query => .filter query
      | .error a => .filterMisuse a
    else if command = "golden" then
      match RecordTask.standard.ofArguments arguments with
      | .ok task => .golden task
      | .error a => .goldenMisuse a
    else if command = "help" ∨ command = "--help" ∨ command = "-h" then .usage
    else .unknown command

/-! ### Texts -/

/-- Lines, each with its end. -/
def unlines (ls : List String) : String := String.join (ls.map (· ++ "\n"))

/-- How the program is used. -/
def usageText : String := unlines [
  "obp - query JSON documents with path expressions",
  "",
  "Usage: obp <command> [options]",
  "",
  "Commands:",
  "  filter <path> [--batch]   Evaluate <path> against each JSON document on stdin",
  "  golden [options]          Verify (or regenerate) expected query results",
  "  help                      Show this message",
  "",
  "Filter options:",
  "  --batch      Print one JSON array of all matches after the input ends",
  "  --stream     Print each match as a JSON line as soon as it is found (default)",
  "",
  "Set RUST_LOG (e.g. RUST_LOG=obpath=debug) to log to stderr."]

/-- How the filter command is used. -/
def filterUsageText : String := unlines ["Usage: obp filter <path> [--batch]"]

/-- How the golden command is used. -/
def goldenUsageText : String := unlines [
  "Usage: obp golden [options]",
  "",
  "Options:",
  "  --generate          Regenerate the expected results instead of verifying",
  "  --data=<file>       Data document (default: testdata/data.json)",
  "  --queries=<file>    [name, path] pairs (default: testdata/queries.json)",
  "  --expected=<file>   Expected results (default: testdata/expect.jsonstream)",
  "  --errors=<file>     Malformed paths (default: testdata/syntax_errors.json)"]

/-- The line that reports an error. -/
def errorLine (message : String) : String := unlines ["error: " ++ message]

/-- The line that reports an argument that is not understood. -/
def misuseLine (argument : String) : String :=
  errorLine ("unexpected argument '" ++ argument ++ "'")

/-- The line that reports a golden run that succeeded. -/
def RecordCounts.line (task : RecordTask) (report : RecordCounts) : String :=
  if task.generate then
    unlines ["Wrote " ++ countText report.generated ++ " expected results to " ++ task.expected]
  else
    unlines [countText report.verified ++ " queries passed, " ++ countText report.rejected ++
      " malformed expressions rejected"]

/-! ### Running -/

/-- What the program answers. -/
structure Exit where
  /-- The exit code. -/
  code : Nat
  /-- The text on standard output. -/
  stdout : String
  /-- The text on standard error. -/
  stderr : String
  /-- The files after the run. -/
  files : Files

/-- What the program does with an invocation, given its standard input, the files it finds, and what
others say about a failure of theirs. -/
def Invocation.run (remarks : Remarks) (stdin : String) (files : Files) : Invocation → Exit
  | .usage => ⟨0, usageText, "", files⟩
  | .unknown command => ⟨1, usageText, unlines ["Unknown command: " ++ command, ""], files⟩
  | .filter query =>
    let run := query.run stdin
    match run.result with
    | .ok _ => ⟨0, run.output, "", files⟩
    | .error e => ⟨1, run.output, errorLine (e.message remarks), files⟩
  | .filterMisuse a => ⟨1, "", misuseLine a ++ filterUsageText, files⟩
  | .golden task =>
    let run := task.run files
    match run.result with
    | .ok report => ⟨0, report.line task, "", run.files⟩
    | .error e => ⟨1, "", errorLine (e.message remarks), run.files⟩
  | .goldenMisuse a => ⟨1, "", misuseLine a ++ goldenUsageText, files⟩

end TreePath
