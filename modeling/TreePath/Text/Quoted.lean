/-
**Quoted texts in messages.**

Messages quote texts and single characters so that every character can be seen: the quote itself,
the backslash and the usual control characters get a backslash, every other character that is not
printable is written by its code point, and all else stands as it is.

Main definitions:

* `Quoted.escape` — a character inside quotes;
* `quoted` — a text in double quotes;
* `quotedChar` — a character in single quotes.
-/

import TreePath.Text.Printable

set_option autoImplicit false
set_option relaxedAutoImplicit false

namespace TreePath

/-- A character by its code point, as in `\u{301}`. -/
def Quoted.codePoint (c : Char) : List Char :=
  '\\' :: 'u' :: '\x7b' :: Nat.toDigits 16 c.toNat ++ ['\x7d']

/-- A character as it is written between two marks `quote`. -/
def Quoted.escape (quote c : Char) : List Char :=
  if c = quote ∨ c = '\\' then ['\\', c]
  else if c = '\t' then ['\\', 't']
  else if c = '\n' then ['\\', 'n']
  else if c = '\r' then ['\\', 'r']
  else if c.toNat = 0 then ['\\', '0']
  else if isPrintable c then [c]
  else codePoint c

/-- A text between two marks `quote`. -/
def Quoted.enclose (quote : Char) (s : List Char) : String :=
  String.ofList (quote :: s.flatMap (escape quote) ++ [quote])

/-- A text in double quotes. -/
def quoted (s : String) : String := Quoted.enclose '\x22' s.toList

/-- A character in single quotes. -/
def quotedChar (c : Char) : String := Quoted.enclose '\'' [c]

end TreePath
