/-
**Texts of values.**

A value is shown on one line with its strings quoted, its lists in brackets and its maps in
braces.  A scalar has besides a text that can be searched: a string as it is, a truth value or
number as it is shown.

Main definitions:

* `Value.text` — a value on one line;
* `Value.searchText?` — the text that a search for a part looks at.
-/

import TreePath.Value.Basic
import TreePath.Binary64.Layout
import TreePath.Text.Quoted

set_option autoImplicit false
set_option relaxedAutoImplicit false

namespace TreePath.Value

/-- The words for the truth values. -/
def boolText (b : Bool) : List Char := (if b then "true" else "false").toList

mutual

/-- A value on one line. -/
def text : Value → List Char
  | .null => "null".toList
  | .bool b => boolText b
  | .int n => Numeral.ofInt n.toInt
  | .float x => x.text .plain
  | .string s => (quoted s).toList
  | .list items => '[' :: itemsText items ++ [']']
  | .map entries => '\x7b' :: entriesText entries ++ ['\x7d']

/-- The elements of a list, separated by commas. -/
def itemsText : List Value → List Char
  | [] => []
  | [v] => v.text
  | v :: w :: rest => v.text ++ ',' :: ' ' :: itemsText (w :: rest)

/-- The entries of a map, each key quoted and followed by its value, separated by commas. -/
def entriesText : List (String × Value) → List Char
  | [] => []
  | [(k, v)] => (quoted k).toList ++ ':' :: ' ' :: v.text
  | (k, v) :: e :: rest =>
    (quoted k).toList ++ ':' :: ' ' :: v.text ++ ',' :: ' ' :: entriesText (e :: rest)

end

/-- The text in which a part is searched for.  Null, lists and maps have none. -/
def searchText? : Value → Option (List Char)
  | .string s => some s.toList
  | .bool b => some (boolText b)
  | .int n => some (Numeral.ofInt n.toInt)
  | .float x => some (x.text .plain)
  | .null | .list _ | .map _ => none

end TreePath.Value
