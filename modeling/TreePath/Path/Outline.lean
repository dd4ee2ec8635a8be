/-
**Outlines of compiled paths.**

An outline shows how a path, a context or a condition is put together, on one line.  A record is
its name and its fields in braces, an alternative its name and its content in parentheses, and a
list its elements in brackets.

Main definitions:

* `Outline.record`, `Outline.alternative`, `Outline.list` — the three shapes;
* `Path.outline`, `Context.outline`, `Condition.outline`, `KindSet.outline`.
-/

import TreePath.Path.Compile
import TreePath.Binary64.Layout

set_option autoImplicit false
set_option relaxedAutoImplicit false

namespace TreePath

namespace Outline

/-! ### Shapes -/

/-- Parts separated by commas. -/
def separated (parts : List String) : String := String.intercalate ", " parts

/-- A record: its name, and its fields with their names. -/
def record (name : String) (fields : List (String × String)) : String :=
  name ++ " \x7b " ++ separated (fields.map fun f => f.1 ++ ": " ++ f.2) ++ " \x7d"

/-- An alternative: its name, and its content. -/
def alternative (name content : String) : String := name ++ "(" ++ content ++ ")"

/-- A list of elements. -/
def list (parts : List String) : String := "[" ++ separated parts ++ "]"

/-- Something that may be missing. -/
def option : Option String → String
  | none => "None"
  | some s => alternative "Some" s

/-- A truth value. -/
def bool (b : Bool) : String := if b then "true" else "false"

/-- An integer. -/
def integer (n : Int64) : String := String.ofList (Numeral.ofInt n.toInt)

end Outline

/-! ### Targets -/

/-- The outline of a range. -/
def Slice.outline (s : Slice) : String :=
  Outline.record "Slice" [("start", Outline.integer s.start), ("end", Outline.integer s.stop)]

/-- The outline of a selector. -/
def Selector.outline : Selector → String
  | .wildcard => "Wildcard"
  | .name key => Outline.alternative "Name" (quoted key)

/-- The outline of a target. -/
def Target.outline : Target → String
  | .child s => Outline.alternative "Child" s.outline
  | .descendant s => Outline.alternative "Descendant" s.outline
  | .item range => Outline.alternative "Item" (Outline.option (range.map Slice.outline))

/-! ### Paths -/

mutual

/-- The outline of a path. -/
def Path.outline : Path → String
  | ⟨source, steps⟩ =>
    Outline.record "Path" [("source", quoted source), ("steps", Outline.list (stepOutlines steps))]

/-- The outlines of steps. -/
def stepOutlines : List Step → List String
  | [] => []
  | s :: rest => s.outline :: stepOutlines rest

/-- The outline of a step. -/
def Step.outline : Step → String
  | ⟨target, none⟩ =>
    Outline.record "Step" [("target", target.outline), ("condition", Outline.option none)]
  | ⟨target, some f⟩ =>
    Outline.record "Step"
      [("target", target.outline), ("condition", Outline.option (some f.outline))]

/-- The outline of a filter, which shows of its condition only the name. -/
def Filter.outline : Filter → String
  | ⟨c, negated, arguments⟩ =>
    Outline.record "Expression" [("condition", quoted c.name), ("inverse", Outline.bool negated),
      ("arguments", Outline.list (argumentOutlines arguments))]

/-- The outlines of arguments. -/
def argumentOutlines : List Argument → List String
  | [] => []
  | a :: rest => a.outline :: argumentOutlines rest

/-- The outline of an argument. -/
def Argument.outline : Argument → String
  | .path p => Outline.alternative "Path" p.outline
  | .string s => Outline.alternative "Str" (quoted s)
  | .integer n => Outline.alternative "Int" (Outline.integer n)
  | .float x => Outline.alternative "Float" (String.ofList (x.text .debug))

end

/-! ### Conditions and contexts -/

/-- The name of a kind in the outline of a set. -/
def Kind.mark : Kind → String
  | .path => "PATH"
  | .float => "FLOAT"
  | .integer => "INTEGER"
  | .string => "STRING"

/-- The outline of a set of kinds; the empty set is shown as a number. -/
def KindSet.outline (s : KindSet) : String :=
  Outline.alternative "ArgKind"
    (if s.toList.isEmpty then "0x0" else String.intercalate " | " (s.toList.map Kind.mark))

/-- The outline of a condition, which does not show the test. -/
def Condition.outline (c : Condition) : String :=
  "Condition \x7b name: " ++ quoted c.name ++ ", signature: " ++
    Outline.list (c.signature.map KindSet.outline) ++ ", .. \x7d"

/-- The outline of a context, which shows of its conditions only the names. -/
def Context.outline (ctx : Context) : String :=
  Outline.record "Context" [("conditions", Outline.list (ctx.names.map quoted)),
    ("allow_descendants", Outline.bool ctx.descendants)]

end TreePath
