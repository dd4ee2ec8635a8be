/-
**Compiling path expressions.**

```
path      = step+
step      = ("." | "..") selector filter?
          | "[" range? "]" filter?
selector  = "*" | name
range     = "*" | bound (":" bound?)? | ":" bound?
filter    = "(" "!"? name "(" (argument ("," argument)*)? ")" ")"
argument  = "@" path | text | number
```

Spaces may stand between the parts of a filter and nowhere else.  A path after `@` ends at the first
character that cannot start a step.  A filter is checked against the context while it is read: its
condition must be known, take that many arguments, and accept each of their kinds.

The readers of a step take the reader of paths after `@` as a parameter.  A path after `@` can hold
such paths itself, but fewer of them than there are marks `@` in the text, so a reader of that depth
is enough for every expression.

Main definitions:

* `Reading.argument`, `Reading.arguments`, `Reading.filter`, `Reading.step`, `Reading.steps` — the
  readers, given a reader of references;
* `Reading.reference` — the reader of references of a given depth;
* `compile` — the path that an expression denotes.
-/

import TreePath.Path.Token
import TreePath.Condition.Context
import TreePath.Total

set_option autoImplicit false
set_option relaxedAutoImplicit false

namespace TreePath

namespace Reading

/-- The part of a text before a rest of it. -/
def consumed (s rest : List Char) : List Char := s.take (s.length - rest.length)

@[simp] theorem consumed_append (s rest : List Char) : consumed (s ++ rest) rest = s := by
  simp [consumed]

/-! ### Arguments -/

/-- Reads one argument. -/
def argument (reference : List Char → Reading Path) (s : List Char) : Reading Argument :=
  match s with
  | [] => unexpected s .argument
  | c :: rest =>
    if c = '@' then (reference rest).map .path
    else if c = '\x22' ∨ c = '\'' ∨ c = '\x60' then (stringLiteral c rest).map .string
    else if c = '+' ∨ c = '-' ∨ c = '.' ∨ c.isDigit then numberLiteral s
    else unexpected s .argument

/-- Reads arguments separated by commas, at least one, of which the first stands at `place` and the
signature from there on is given. -/
def arguments (reference : List Char → Reading Path) (c : Condition) (place : Nat) :
    List KindSet → List Char → Reading (List Argument)
  | [], s => fault (skipSpaces s) (.tooManyArguments c.name c.arity)
  | accepted :: signature, s =>
    (argument reference (skipSpaces s)).andThen fun a rest =>
      if accepted.intersects (.only a.kind) then
        match skipSpaces rest with
        | ',' :: rest => (arguments reference c (place + 1) signature rest).map (a :: ·)
        | rest => found [a] rest
      else fault (skipSpaces s) (.argumentKind (place + 1) c.name accepted a.kind)

/-- Reads all the arguments of a call, up to the parenthesis that closes it. -/
def argumentList (reference : List Char → Reading Path) (c : Condition) (s : List Char) :
    Reading (List Argument) :=
  let given :=
    if (skipSpaces s).head? = some ')' then found [] (skipSpaces s)
    else arguments reference c 0 c.signature s
  given.andThen fun as rest =>
    if as.length < c.arity then fault rest (.tooFewArguments c.name c.arity as.length)
    else found as rest

/-! ### Filters -/

/-- Whether an exclamation mark stands at the front of a text, and the text after it. -/
def takeNegation : List Char → Bool × List Char
  | '!' :: rest => (true, rest)
  | s => (false, s)

/-- Reads the name of a condition. -/
def conditionName (ctx : Context) (s : List Char) : Reading Condition :=
  let (name, rest) := spanName s
  if name.isEmpty then unexpected s .conditionName
  else
    match ctx.find? (String.ofList name) with
    | some c => found c rest
    | none => fault s (.unknownCondition (String.ofList name) ctx.names)

/-- Reads a call of a condition, after the parenthesis that opens the filter. -/
def call (ctx : Context) (reference : List Char → Reading Path) (s : List Char) : Reading Filter :=
  let (negated, rest) := takeNegation (skipSpaces s)
  (conditionName ctx (skipSpaces rest)).andThen fun c rest =>
    (char '(' (skipSpaces rest)).andThen fun _ rest =>
      (argumentList reference c rest).andThen fun as rest =>
        (char ')' rest).andThen fun _ rest =>
          (char ')' (skipSpaces rest)).map fun _ => ⟨c, negated, as⟩

/-- Reads a filter, if one follows. -/
def filter (ctx : Context) (reference : List Char → Reading Path) :
    List Char → Reading (Option Filter)
  | '(' :: rest => (call ctx reference rest).map some
  | s => found none s

/-! ### Steps -/

/-- Reads the target of a step, given the text from the mark that starts it on. -/
def target (ctx : Context) (s : List Char) : Reading Target :=
  match s with
  | '[' :: rest =>
    (range rest).andThen fun items rest => (char ']' rest).map fun _ => .item items
  | '.' :: '.' :: rest =>
    if ctx.descendants then (selector rest).map .descendant else fault s .descendantStep
  -- The text starts with a point here: a step starts with nothing else.
  | s => (selector (s.drop 1)).map .child

/-- Reads a step, given the text from the mark that starts it on. -/
def step (ctx : Context) (reference : List Char → Reading Path) (s : List Char) : Reading Step :=
  (target ctx s).andThen fun t rest => (filter ctx reference rest).map fun f => ⟨t, f⟩

/-- Whether a step follows. -/
def startsStep (s : List Char) : Bool := s.head? == some '.' || s.head? == some '['

/-- Reads steps as long as they follow, at most `count` of them. -/
def steps (ctx : Context) (reference : List Char → Reading Path) :
    (count : Nat) → List Char → Reading (List Step)
  | 0, s => found [] s
  | count + 1, s =>
    if startsStep s then
      (step ctx reference s).andThen fun st rest => (steps ctx reference count rest).map (st :: ·)
    else found [] s

/-! ### Paths -/

/-- Reads the path after the mark of a reference, inside which references are nested less than
`depth` deep. -/
def reference (ctx : Context) : (depth : Nat) → List Char → Reading Path
  | 0, s => unexpected s .reference
  | depth + 1, s =>
    (steps ctx (reference ctx depth) s.length s).andThen fun sts rest =>
      if sts.isEmpty then unexpected rest .reference
      else found ⟨String.ofList (consumed s rest), sts⟩ rest

/-- Reads a path that is the whole of a text. -/
def whole (ctx : Context) (s : List Char) : Reading Path :=
  (steps ctx (reference ctx (s.count '@')) s.length s).andThen fun sts rest =>
    if rest.isEmpty then found ⟨String.ofList s, sts⟩ [] else unexpected rest .step

end Reading

/-! ### Expressions -/

/-- The length of a text in UTF-8. -/
def byteLength (s : List Char) : Nat := total Char.utf8Size s

/-- The path that an expression denotes in a context. -/
def compile (ctx : Context) (expression : String) : Except SyntaxError Path :=
  let s := expression.toList
  if s.isEmpty then .error ⟨expression, 0, .empty⟩
  else
    match Reading.whole ctx s with
    | .found p _ => .ok p
    | .fault rest cause => .error ⟨expression, byteLength s - byteLength rest, cause⟩

end TreePath
