/-
**The program.**

Reads what the invocation needs, runs it, and writes what it answers.  Everything between reading
and writing is `TreePath.Invocation.run`.
-/

import TreePath.Command.Line

set_option autoImplicit false
set_option relaxedAutoImplicit false

namespace TreePath

/-- The names of the files that an invocation may look at. -/
def Invocation.fileNames : Invocation → List String
  | .golden task => [task.data, task.queries, task.expected, task.errors]
  | _ => []

/-- What is said about failures that the reader of documents or the system has noticed. -/
def Remarks.plain : Remarks where
  reader := "not JSON of the form that is expected"
  system := "no such file, or it cannot be opened"

/-- Whether an invocation reads standard input. -/
def Invocation.readsInput : Invocation → Bool
  | .filter _ => true
  | _ => false

end TreePath

open TreePath

/-- The text of a file of the system, if it can be read. -/
def readSystemFile (name : String) : IO (Option (String × String)) := do
  try
    return some (name, ← IO.FS.readFile name)
  catch _ =>
    return none

/-- Whether there is a directory of a name in the system. -/
def isSystemDirectory (name : String) : IO Bool := do
  try
    let _ ← IO.FS.realPath (name ++ "/.")
    return true
  catch _ =>
    return false

/-- Whether a file of the system cannot be written.  Opening it in this way changes nothing. -/
def isLocked (name : String) : IO Bool := do
  try
    let _ ← IO.FS.Handle.mk name .readWrite
    return false
  catch _ =>
    return true

/-- What an invocation may look at of the file system. -/
def readSystem (invocation : Invocation) : IO Files := do
  let names := invocation.fileNames
  let places := (names.flatMap Files.placesOf).map Files.placeName
  let directories ← places.eraseDups.filterM isSystemDirectory
  let empty := Files.ofList [] directories
  let files := (names.filterMap empty.locate?).eraseDups
  let texts ← files.filterMapM readSystemFile
  let locked ← (texts.map Prod.fst).filterM isLocked
  return { Files.ofList texts directories with locked }

/-- Runs the program. -/
def main (arguments : List String) : IO UInt32 := do
  let invocation := Invocation.ofArguments arguments
  let input ← if invocation.readsInput then (← IO.getStdin).readToEnd else pure ""
  let files ← readSystem invocation
  let exit := invocation.run .plain input files
  -- Only what the run has changed is written.
  for (place, text) in exit.files.texts do
    unless Entries.find? files.texts place == some text do
      IO.FS.writeFile place text
  (← IO.getStdout).putStr exit.stdout
  (← IO.getStderr).putStr exit.stderr
  return exit.code.toUInt32
