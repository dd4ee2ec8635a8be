/-
**Files by name.**

The commands see files as texts at places.  A name is made of parts between slashes: the last one
names a file or a directory and the others lead through directories, from the working directory or,
after a slash at the front, from the root.  A directory exists when it is listed, or when some file
or a listed directory lies below it, and where there is a directory there is no file.

What a system can do beyond that is left out.  Contents are texts, so there are no files that are
not UTF-8.  A file that is there can be read.  Each place is a file of its own: no links, no names
that lead back into the working directory from above it, and no devices.  Where a system does not
take every name, too long a one for example, the places of these names are locked.

Main definitions:

* `Files`, `Files.ofList`;
* `Files.follow?`, `Files.isDirectory` — the place that a name leads to, and what is there;
* `Files.locate?` — the place of the file of a name;
* `Files.createAt?` — that place, if a file can be made or replaced there;
* `Files.read?` — the text of a file, if there is one of that name;
* `Files.write?` — the files after a text has been put in place of a file, if it can be.

Main results:

* `Files.createAt?_eq_none_iff` — why a file can be neither made nor replaced;
* `Files.find?_write?` — writing a file changes the text in its place and in no other.
-/

import TreePath.Entries

set_option autoImplicit false
set_option relaxedAutoImplicit false

namespace TreePath

/-- A place in a file system: the parts that lead to it from the working directory, or from the root
if the first of them is empty.  Two dots stand only in front, where they lead out of the working
directory. -/
abbrev Place := List (List Char)

/-- What the commands see of a file system. -/
structure Files where
  /-- The texts of the files, each under its place written with single slashes. -/
  texts : Entries String
  /-- Directories that exist, files below them or not, written in the same way. -/
  directories : List String
  /-- Places where the system lets no file be made or replaced, written in the same way. -/
  locked : List String := []

namespace Files

/-! ### Names -/

/-- The parts of a name between its slashes. -/
def splitName (name : String) : Place := name.toList.splitOn '/'

/-- The part that leads to the directory above. -/
def upwards : List Char := ['.', '.']

/-- The name of a place. -/
def placeName (place : Place) : String := String.ofList (List.intercalate ['/'] place)

/-- The directory above a directory; above the root there is none but the root itself. -/
def parent (directory : Place) : Place :=
  if directory = [[]] then directory
  else if directory = [] ∨ directory.getLast? = some upwards then directory ++ [upwards]
  else directory.dropLast

/-- Whether there is a directory at a place whatever files there are.  The root, the working
directory and those above it are always there; a directory that is listed lies in others. -/
def listsDirectory (files : Files) (place : Place) : Bool :=
  place.isEmpty || place == [[]] || place.getLast? == some upwards ||
    files.directories.any fun directory => place.isPrefixOf (splitName directory)

/-- Whether there is a directory at a place. -/
def hasDirectory (files : Files) (place : Place) : Bool :=
  files.listsDirectory place ||
    files.texts.any fun (key, _) => place.isPrefixOf (splitName key).dropLast

/-- Where a part of a name leads from a directory: an empty part or a dot stays, two dots go up. -/
def enter (directory : Place) (part : List Char) : Place :=
  if part = [] ∨ part = ['.'] then directory
  else if part = upwards then parent directory
  else directory ++ [part]

/-- The places that a name leads through from a directory, each part being taken. -/
def placesFrom (directory : Place) : List (List Char) → List Place
  | [] => []
  | part :: rest => enter directory part :: placesFrom (enter directory part) rest

/-- Follows the parts of a name from a directory, all but the last through directories that
exist. -/
def followFrom (files : Files) (directory : Place) : List (List Char) → Option Place
  | [] => some directory
  | [part] => some (enter directory part)
  | part :: rest =>
    if files.hasDirectory (enter directory part) then followFrom files (enter directory part) rest
    else none

theorem followFrom_cons_cons (files : Files) (directory : Place) (part next : List Char)
    (rest : List (List Char)) : files.followFrom directory (part :: next :: rest) =
      if files.hasDirectory (enter directory part) then
        files.followFrom (enter directory part) (next :: rest)
      else none := rfl

/-- The directory from which the parts of a name are followed: the root after a slash at the front,
else the working directory. -/
def startOf (name : String) : Place := if name.toList.head? = some '/' then [[]] else []

/-- The place that a name stands for where every directory exists. -/
def place (name : String) : Place := (splitName name).foldl enter (startOf name)

/-- The places that a name leads through, and the one that it leads to. -/
def placesOf (name : String) : List Place := placesFrom (startOf name) (splitName name)

/-- The place that a name leads to, if the directories on the way exist.  An empty name leads
nowhere, and neither does one with a zero character in it. -/
def follow? (files : Files) (name : String) : Option Place :=
  if name = "" ∨ '\x00' ∈ name.toList then none
  else files.followFrom (startOf name) (splitName name)

/-- Whether a name stands for a directory. -/
def isDirectory (files : Files) (name : String) : Bool :=
  (files.follow? name).any files.hasDirectory

/-- The place of the file of a name, whether there is one or not, if no directory stands there. -/
def locate? (files : Files) (name : String) : Option String :=
  ((files.follow? name).filter fun place => !files.hasDirectory place).map placeName

/-- The place of the file of a name, if one can be made or replaced there. -/
def createAt? (files : Files) (name : String) : Option String :=
  (files.locate? name).filter fun place => !files.locked.contains place

theorem locate?_eq_none_iff {files : Files} {name : String} : files.locate? name = none ↔
    files.follow? name = none ∨ files.isDirectory name = true := by
  rw [locate?, isDirectory]
  cases files.follow? name with
  | none => simp
  | some place => simp [Option.filter]

/-- **Why a file can be neither made nor replaced**: the name leads nowhere, or to a directory, or
the system does not let it. -/
theorem createAt?_eq_none_iff {files : Files} {name : String} : files.createAt? name = none ↔
    files.follow? name = none ∨ files.isDirectory name = true ∨
      ∃ place, files.locate? name = some place ∧ place ∈ files.locked := by
  rw [← or_assoc, ← locate?_eq_none_iff, createAt?]
  cases files.locate? name with
  | none => simp
  | some place => simp [Option.filter]

/-! ### Texts -/

/-- Files with the given names and texts, and directories that exist besides those of the files. -/
def ofList (texts : List (String × String)) (directories : List String) : Files where
  texts := Entries.ofList (texts.map fun e => (placeName (place e.1), e.2))
  directories := directories

/-- The text of the file of a name. -/
def read? (files : Files) (name : String) : Option String :=
  (files.locate? name).bind (Entries.find? files.texts)

/-- The files after a text has been put in place of the file of a name, if it can be. -/
def write? (files : Files) (name text : String) : Option Files :=
  (files.createAt? name).map fun place =>
    { files with texts := Entries.insert place text files.texts }

/-- A file is made in its place. -/
theorem locate?_of_createAt? {files : Files} {name place : String}
    (h : files.createAt? name = some place) : files.locate? name = some place :=
  (Option.filter_eq_some_iff.1 h).1

/-- After a text has been put in one place, that is what is found there, and every other place holds
what it held before. -/
theorem find?_write? {files written : Files} {name place text : String}
    (hplace : files.createAt? name = some place) (h : files.write? name text = some written)
    (other : String) :
    Entries.find? written.texts other =
      if place = other then some text else Entries.find? files.texts other := by
  simp only [write?, hplace, Option.map_some, Option.some.injEq] at h
  subst h
  exact Entries.find?_insert place other text files.texts

end Files

end TreePath
