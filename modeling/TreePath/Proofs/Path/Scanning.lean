/-
**Reading an expression byte by byte.**

The grammar of path expressions, read with a cursor over the bytes of the whole expression and one
byte of lookahead.  Faults are told with the place of the cursor, or with a place that it had when a
part of the expression began.  The loop over steps and the nesting of references are given a number
of rounds and levels, and a scan that needs more of them ends without an answer.

Main definitions:

* `Scan.name`, `Scan.selector`, `Scan.bound`, `Scan.range`, `Scan.stringLiteral`,
  `Scan.numberLiteral` — the parts that do not contain one another;
* `Scan.argument`, `Scan.arguments`, `Scan.filter`, `Scan.memberStep`, `Scan.itemStep`, `Scan.steps`
  — the parts that contain references, given how these are read;
* `Scan.reference`, `Scan.whole` — the path of a reference, and a whole expression;
* `scan` — what an expression comes to, and all that was done with the cursor;
* `SyntaxError.placed` — an error, the place of which is kept inside of the expression.
-/

import TreePath.Proofs.Path.Cursor
import TreePath.Proofs.Path.Lookahead

set_option relaxedAutoImplicit false
set_option autoImplicit false

namespace TreePath

/-- The integer that the whole of a text denotes: an optional sign, and digits. -/
def Numeral.integer? (s : List Char) : Option Int64 :=
  let (negative, digits) := takeSign s
  if digits.all Char.isDigit then int64? negative digits else none

/-- Marks that open a text, as bytes. -/
def isQuoteByte (b : UInt8) : Bool :=
  b == '\x22'.toUInt8 || b == '\''.toUInt8 || b == '\x60'.toUInt8

/-- Bytes with which a number could start. -/
def startsNumberByte (b : UInt8) : Bool :=
  b == '+'.toUInt8 || b == '-'.toUInt8 || b == '.'.toUInt8 || isDigitByte b

theorem byteClass_isQuoteByte : ByteClass isQuoteByte isQuote :=
  ((byteClass_mark (by decide)).or (byteClass_mark (by decide))).or (byteClass_mark (by decide))

theorem byteClass_startsNumberByte : ByteClass startsNumberByte startsNumber :=
  (((byteClass_mark (by decide)).or (byteClass_mark (by decide))).or
    (byteClass_mark (by decide))).or byteClass_isDigitByte

namespace Scan

/-! ### Words -/

section Words

variable (text : List Char)

/-- Moves over a mark, which has to come next. -/
def expect (mark : Char) : Scan Unit := do
  if ← eat text mark then return ()
  else unexpected text (.char mark)

/-- Reads a name, which must not be empty. -/
def name (expected : Expected) : Scan String := do
  let start ← place
  eatWhile text isNameByte
  let characters ← cutFrom text start
  if characters.isEmpty then unexpected text expected
  else return String.ofList characters

/-- Reads the mark for all children, or the key of one. -/
def selector : Scan Selector := do
  if ← eat text '*' then return .wildcard
  else return .name (← name text .selector)

/-- Reads a bound of a range, if there is one. -/
def bound : Scan (Option Int64) := do
  let start ← place
  let _ ← eatSign text
  eatWhile text isDigitByte
  if (← place) = start then return none
  else
    match Numeral.integer? (← cutFrom text start) with
    | some n => return some n
    | none => faultAt start .bound

/-- Reads what follows the first bound of a range, which there need not be. -/
def rangeFrom : Option Int64 → Scan (Option Slice)
  | some first => do
    if ← eat text ':' then
      let last ← bound text
      return some ⟨first, last.getD Slice.full.stop⟩
    else return some (Slice.index first)
  | none => do
    if ← eat text ':' then
      let last ← bound text
      return some ⟨0, last.getD Slice.full.stop⟩
    else return none

/-- Reads what stands between the brackets of an item step. -/
def range : Scan (Option Slice) := do
  if ← eat text '*' then return some Slice.full
  else rangeFrom text (← bound text)

/-- Reads a text from the mark that opens it on, up to the next such mark. -/
def stringLiteral (mark : Char) : Scan String := do
  let opened ← place
  advance text
  let start ← place
  if ← eatUntil text mark then
    let content ← cutFrom text start
    advance text
    return String.ofList content
  else faultAt opened (.unclosed mark)

/-- Reads a number, which is a floating point number if there is a point in it. -/
def numberLiteral : Scan Argument := do
  let start ← place
  let _ ← eatSign text
  eatWhile text isDigitByte
  if ← eat text '.' then
    eatWhile text isDigitByte
    match Binary64.ofText? (← cutFrom text start) with
    | some x => return .float x
    | none => faultAt start .float
  else
    match Numeral.integer? (← cutFrom text start) with
    | some n => return .integer n
    | none => faultAt start .integer

end Words

/-! ### Filters -/

section Filters

variable (ctx : Context) (text : List Char) (reference : Scan Path)

/-- Reads one argument. -/
def argument : Scan Argument := do
  let b ← current text
  if b = '@'.toUInt8 then
    advance text
    return .path (← reference)
  else if isQuoteByte b then return .string (← stringLiteral text (Char.ofUInt8 b))
  else if startsNumberByte b then numberLiteral text
  else unexpected text .argument

/-- Reads arguments separated by commas, at least one, of which the first stands at `place` and the
signature from there on is given. -/
def arguments (c : Condition) : (place : Nat) → List KindSet → Scan (List Argument)
  | _, [] => do
    eatSpaces text
    faultAt (← Scan.place) (.tooManyArguments c.name c.arity)
  | place, accepted :: signature => do
    eatSpaces text
    let offset ← Scan.place
    let a ← argument text reference
    if accepted.intersects (.only a.kind) then
      eatSpaces text
      if ← eat text ',' then
        let more ← arguments c (place + 1) signature
        return a :: more
      else return [a]
    else faultAt offset (.argumentKind (place + 1) c.name accepted a.kind)

/-- Reads the arguments of a call, of which there are none before a closing parenthesis. -/
def givenArguments (c : Condition) : Scan (List Argument) := do
  if (← current text) = ')'.toUInt8 then return []
  else arguments text reference c 0 c.signature

/-- Reads all the arguments of a call, up to the parenthesis that closes it. -/
def argumentList (c : Condition) : Scan (List Argument) := do
  eatSpaces text
  let given ← givenArguments text reference c
  if given.length < c.arity then
    faultAt (← place) (.tooFewArguments c.name c.arity given.length)
  else return given

/-- Reads the name of a condition. -/
def conditionName : Scan Condition := do
  let start ← place
  let key ← name text .conditionName
  match ctx.find? key with
  | some c => return c
  | none => faultAt start (.unknownCondition key ctx.names)

/-- Reads a call of a condition, after the parenthesis that opens the filter. -/
def call : Scan Filter := do
  eatSpaces text
  let negated ← eat text '!'
  eatSpaces text
  let c ← conditionName ctx text
  eatSpaces text
  expect text '('
  let given ← argumentList text reference c
  expect text ')'
  eatSpaces text
  expect text ')'
  return ⟨c, negated, given⟩

/-- Reads a filter, if one follows. -/
def filter : Scan (Option Filter) := do
  if ← eat text '(' then return some (← call ctx text reference)
  else return none

/-! ### Steps -/

/-- Reads a step to the children or the descendants of a node. -/
def memberStep : Scan Step := do
  let start ← place
  advance text
  let descendant ← eat text '.'
  if descendant && !ctx.descendants then faultAt start .descendantStep
  else
    let sel ← selector text
    let f ← filter ctx text reference
    return ⟨if descendant then .descendant sel else .child sel, f⟩

/-- Reads a step to elements of a list. -/
def itemStep : Scan Step := do
  advance text
  let items ← range text
  expect text ']'
  let f ← filter ctx text reference
  return ⟨.item items, f⟩

/-- Reads a step, if one follows. -/
def step : Scan (Option Step) := do
  let b ← current text
  if b = '.'.toUInt8 then return some (← memberStep ctx text reference)
  else if b = '['.toUInt8 then return some (← itemStep ctx text reference)
  else return none

/-- Reads steps as long as they follow. -/
def steps : (rounds : Nat) → Scan (List Step)
  | 0 => throw .exhausted
  | rounds + 1 => do
    match ← step ctx text reference with
    | some st => do
      let more ← steps rounds
      return st :: more
    | none => return []

end Filters

/-! ### Paths -/

section Paths

variable (ctx : Context) (text : List Char)

/-- Reads the path after the mark of a reference. -/
def reference : (levels : Nat) → Scan Path
  | 0 => throw .exhausted
  | levels + 1 => do
    let start ← place
    let sts ← steps ctx text (reference levels) (byteLength text + 1)
    if sts.isEmpty then unexpected text .reference
    else return ⟨String.ofList (← cutFrom text start), sts⟩

/-- Reads a path that is the whole of a text. -/
def whole : Scan Path := do
  let start ← place
  let sts ← steps ctx text (reference ctx text (text.count '@')) (byteLength text + 1)
  if ← atEnd text then return ⟨String.ofList (← cutFrom text start), sts⟩
  else unexpected text .step

end Paths

end Scan

/-- **What an expression comes to**, read from its beginning. -/
def scan (ctx : Context) (text : List Char) : EStateM.Result Halt Cursor Path :=
  (if text.isEmpty then Scan.faultAt 0 .empty else Scan.whole ctx text) Cursor.start

/-- An error, the place of which is not beyond the end of the expression. -/
def SyntaxError.placed (expression : String) (offset : Nat) (cause : Cause) : SyntaxError :=
  ⟨expression, min offset (byteLength expression.toList), cause⟩

/-! ### Scans and readings -/

/-- **A scan comes to the same as a reading** of the text before which it began: it finds the same,
and leaves the cursor before the same rest, or it faults for the same cause where the same rest
begins; and it did nothing that is not sound. -/
inductive Agrees (text rest : List Char) {α : Type} :
    EStateM.Result Halt Cursor α → Reading α → Prop
  | found {a : α} {c : Cursor} {left : List Char} (h : c.Before text left) (hleft : left <:+ rest) :
      Agrees text rest (.ok a c) (.found a left)
  | fault {offset : Nat} {cause : Cause} {c : Cursor} {left : List Char}
      (hoffset : offset + byteLength left = byteLength text) (hleft : left <:+ rest)
      (sound : ∀ a ∈ c.acts, a.Sound text) :
      Agrees text rest (.error (.fault offset cause) c) (.fault left cause)

namespace Agrees

variable {α β : Type} {text rest left : List Char} {c : Cursor}

theorem mono {x : EStateM.Result Halt Cursor α} {r : Reading α} (h : Agrees text left x r)
    (hleft : left <:+ rest) : Agrees text rest x r := by
  cases h with
  | found h hleft' => exact .found h (hleft'.trans hleft)
  | fault hoffset hleft' sound => exact .fault hoffset (hleft'.trans hleft) sound

/-- Scanning on after what was found agrees with reading on. -/
theorem bind {x : Scan α} {f : α → Scan β} {r : Reading α} {next : α → List Char → Reading β}
    (hx : Agrees text rest (x c) r)
    (hf : ∀ a left c', r = .found a left → c'.Before text left → left <:+ rest →
      Agrees text rest (f a c') (next a left)) :
    Agrees text rest ((x >>= f) c) (r.andThen next) := by
  simp only [Bind.bind, EStateM.bind]
  generalize x c = result at hx
  cases hx with
  | found h hleft => exact hf _ _ _ rfl h hleft
  | fault hoffset hleft sound => exact .fault hoffset hleft sound

/-- Scanning on after something that is known to be found. -/
theorem bind_found {x : Scan α} {f : α → Scan β} {a : α} {r : Reading β}
    (hx : Agrees text rest (x c) (.found a left))
    (hf : ∀ c', c'.Before text left → left <:+ rest → Agrees text rest (f a c') r) :
    Agrees text rest ((x >>= f) c) r := by
  simp only [Bind.bind, EStateM.bind]
  generalize x c = result at hx
  cases hx with
  | found h hleft => exact hf _ h hleft

/-- Scanning on after something that might not have been there. -/
theorem bind_some {x : Scan (Option α)} {f : Option α → Scan β} {r : Reading α}
    {next : α → List Char → Reading β} (hx : Agrees text rest (x c) (r.map some))
    (hf : ∀ a left c', r = .found a left → c'.Before text left → left <:+ rest →
      Agrees text rest (f (some a) c') (next a left)) :
    Agrees text rest ((x >>= f) c) (r.andThen next) := by
  simp only [Bind.bind, EStateM.bind]
  generalize x c = result at hx
  cases r with
  | found a left =>
      cases hx with
      | found h hleft => exact hf a left _ rfl h hleft
  | fault left cause =>
      cases hx with
      | fault hoffset hleft sound => exact .fault hoffset hleft sound

theorem map {x : Scan α} {r : Reading α} (hx : Agrees text rest (x c) r) (f : α → β) :
    Agrees text rest ((x >>= fun a => pure (f a)) c) (r.map f) :=
  hx.bind fun _ _ _ _ h hleft => .found h hleft

end Agrees

/-! ### Numbers -/

/-- Digits do not start with a sign, unless there are none and what follows starts with one. -/
theorem IsDigits.stops_sign {digits rest : List Char} (h : IsDigits digits)
    (hrest : Stops (fun c => c == '-' || c == '+') rest) :
    Stops (fun c => c == '-' || c == '+') (digits ++ rest) := by
  cases digits with
  | nil => exact hrest
  | cons d ds => exact (stops_cons _ d _).2 (isSign_eq_false_of_isDigit d (h d List.mem_cons_self))

theorem Numeral.integer?_append {sign digits : List Char} {negative : Bool}
    (hsign : SignText sign negative) (hdigits : IsDigits digits) :
    integer? (sign ++ digits) = int64? negative digits := by
  have hstops := hdigits.stops_sign (stops_nil _)
  rw [List.append_nil] at hstops
  rw [integer?, hsign.takeSign_append hstops]
  exact if_pos (List.all_eq_true.2 hdigits)

/-- A text with a point in it is no word. -/
theorem Binary64.ofWord?_eq_none {s : List Char} (h : '.' ∈ (Numeral.takeSign s).2) :
    ofWord? s = none := by
  have hmem : '.' ∈ (Numeral.takeSign s).2.map Char.toLower := List.mem_map.2 ⟨'.', h, rfl⟩
  simp only [ofWord?]
  rw [if_neg, if_neg]
  · intro hnan
    rw [hnan] at hmem
    exact absurd hmem (by decide)
  · rintro (hinf | hinf) <;> rw [hinf] at hmem <;> exact absurd hmem (by decide)

/-- What digits on both sides of a point denote. -/
theorem Binary64.ofText?_append {sign whole fraction : List Char} {negative : Bool}
    (hsign : SignText sign negative) (hwhole : IsDigits whole) (hfraction : IsDigits fraction) :
    ofText? (sign ++ (whole ++ '.' :: fraction)) =
      if whole.isEmpty && fraction.isEmpty then none
      else some (DecimalText.ofParts negative whole fraction).toBinary64 := by
  have hsigned := hsign.takeSign_append (s := whole ++ '.' :: fraction)
    (hwhole.stops_sign (by simp))
  have hword : ofWord? (sign ++ (whole ++ '.' :: fraction)) = none :=
    ofWord?_eq_none (by rw [hsigned]; simp)
  have hspan : Numeral.spanDigits (whole ++ '.' :: fraction) = (whole, '.' :: fraction) :=
    hwhole.spanDigits_append (by simp [Char.isDigit])
  have hspan' : Numeral.spanDigits fraction = (fraction, []) := by
    simpa using hfraction.spanDigits_append (stops_nil _)
  rw [ofText?, hword, Option.none_or]
  simp only [DecimalText.read?, hsigned, hspan, hspan', DecimalText.readExponent?]
  split
  · rfl
  · simp

theorem Reading.char_of_stops {mark : Char} {s : List Char} (h : Stops (· == mark) s) :
    char mark s = unexpected s (.char mark) := by
  cases s with
  | nil => rfl
  | cons d s => exact if_neg (by simpa using h)

namespace Scan

section Words

variable {text rest piece : List Char} {c c' : Cursor}

theorem agrees_unexpected {α : Type} (h : c.Before text rest) (expected : Expected) :
    Agrees text rest (unexpected text expected c)
      (Reading.unexpected rest expected : Reading α) := by
  obtain ⟨c', hquote, hplace, h'⟩ := h.quote
  rw [unexpected, bind_of_ok hquote]
  exact .fault (hplace ▸ h.place_add) List.suffix_rfl h'.sound

theorem agrees_expect (h : c.Before text rest) {mark : Char} (hmark : mark.toNat < 128)
    (hne : mark.toUInt8 ≠ 0) : Agrees text rest (expect text mark c) (Reading.char mark rest) := by
  rw [expect]
  rcases h.eat mark hmark hne with ⟨rest, c', rfl, heat, h'⟩ | ⟨hstops, heat⟩
  · rw [bind_of_ok heat, Reading.char, if_pos rfl, if_pos rfl]
    exact .found h' (List.suffix_cons mark rest)
  · rw [bind_of_ok heat, Reading.char_of_stops hstops]
    exact agrees_unexpected h _

theorem agrees_name (h : c.Before text rest) (expected : Expected) :
    Agrees text rest (name text expected c) (Reading.named expected rest) := by
  obtain ⟨c', heat, h'⟩ := h.eatWhile byteClass_isNameByte
  have hspan := spanName_append rest
  obtain ⟨c'', hcut, h''⟩ := (hspan.symm ▸ h).cutFrom h'
  rw [name, bind_of_ok (Cursor.Before.place c), bind_of_ok heat, bind_of_ok hcut, Reading.named]
  split
  · next hnil =>
      rw [List.isEmpty_iff.1 hnil, List.nil_append] at hspan
      rw [hspan] at h''
      exact agrees_unexpected h'' _
  · exact .found h'' (List.dropWhile_suffix _)

theorem agrees_selector (h : c.Before text rest) :
    Agrees text rest (selector text c) (Reading.selector rest) := by
  rw [selector]
  rcases h.eat '*' (by decide) (by decide) with ⟨rest, c', rfl, heat, h'⟩ | ⟨hstops, heat⟩
  · rw [bind_of_ok heat]
    exact .found h' (List.suffix_cons _ rest)
  · rw [bind_of_ok heat, if_neg Bool.false_ne_true, Reading.selector_of_stops hstops]
    exact (agrees_name h .selector).map _

/-- The start of a number: a sign and digits, of which there may be none. -/
theorem exists_signedDigits (h : c.Before text rest) : ∃ signed c₁ c₂ sign,
    eatSign text c = .ok signed c₁ ∧ eatWhile text isDigitByte c₁ = .ok () c₂ ∧
      SignText sign (Numeral.takeSign rest).1 ∧
      rest = sign ++ (Numeral.spanDigits (Numeral.takeSign rest).2).1 ++
        (Numeral.spanDigits (Numeral.takeSign rest).2).2 ∧
      c₂.Before text (Numeral.spanDigits (Numeral.takeSign rest).2).2 := by
  obtain ⟨signed, c₁, hsigned, h₁⟩ := h.eatSign
  obtain ⟨c₂, heat, h₂⟩ := h₁.eatWhile byteClass_isDigitByte
  obtain ⟨sign, hsign, hrest⟩ := exists_takeSign rest
  refine ⟨signed, c₁, c₂, sign, hsigned, heat, hsign, ?_, h₂⟩
  rw [List.append_assoc, Numeral.spanDigits_append]
  exact hrest

theorem agrees_bound (h : c.Before text rest) :
    Agrees text rest (bound text c) (Reading.bound rest) := by
  obtain ⟨signed, c₁, c₂, sign, hsigned, heat, hsign, hrest, h₂⟩ := exists_signedDigits h
  have hdigits := isDigits_spanDigits (Numeral.takeSign rest).2
  rw [bound, bind_of_ok (Cursor.Before.place c), bind_of_ok hsigned, bind_of_ok heat,
    bind_of_ok (Cursor.Before.place c₂), Reading.bound_eq, Reading.andThen_found,
    Reading.andThen_found, Reading.boundOf]
  generalize Numeral.spanDigits (Numeral.takeSign rest).2 = span at hrest hdigits h₂ ⊢
  generalize (Numeral.takeSign rest).1 = negative at hsign ⊢
  subst hrest
  by_cases hnone : sign ++ span.1 = []
  · rw [if_pos ((h.place_eq_iff h₂).2 hnone), if_pos (by rw [hnone]; rfl)]
    exact .found h₂ (List.suffix_append _ _)
  · have hlength : span.2.length ≠ (sign ++ span.1 ++ span.2).length := by
      have := List.length_pos_iff.2 hnone
      rw [List.length_append]
      omega
    obtain ⟨c₃, hcut, h₃⟩ := h.cutFrom h₂
    rw [if_neg (mt (h.place_eq_iff h₂).1 hnone), if_neg hlength, bind_of_ok hcut,
      Numeral.integer?_append hsign hdigits]
    cases Numeral.int64? negative span.1 with
    | some n => exact .found h₃ (List.suffix_append _ _)
    | none => exact .fault h.place_add List.suffix_rfl h₃.sound

theorem agrees_rangeFrom (h : c.Before text rest) (first : Option Int64) :
    Agrees text rest (rangeFrom text first c) (Reading.rangeFrom first rest) := by
  rcases h.eat ':' (by decide) (by decide) with ⟨rest, c', rfl, heat, h'⟩ | ⟨hstops, heat⟩
  · have hlast := (agrees_bound h').mono (List.suffix_cons ':' rest)
    cases first with
    | none =>
        rw [rangeFrom, bind_of_ok heat]
        exact hlast.map _
    | some first =>
        rw [rangeFrom, bind_of_ok heat]
        exact hlast.map _
  · rw [Reading.rangeFrom_of_stops hstops]
    cases first with
    | none =>
        rw [rangeFrom, bind_of_ok heat]
        exact .found h List.suffix_rfl
    | some first =>
        rw [rangeFrom, bind_of_ok heat]
        exact .found h List.suffix_rfl

theorem agrees_range (h : c.Before text rest) :
    Agrees text rest (range text c) (Reading.range rest) := by
  rw [range]
  rcases h.eat '*' (by decide) (by decide) with ⟨rest, c', rfl, heat, h'⟩ | ⟨hstops, heat⟩
  · rw [bind_of_ok heat]
    exact .found h' (List.suffix_cons _ rest)
  · rw [bind_of_ok heat, if_neg Bool.false_ne_true, Reading.range_of_stops hstops]
    exact (agrees_bound h).bind fun first _ _ _ h' hleft => (agrees_rangeFrom h' first).mono hleft

theorem agrees_stringLiteral {mark : Char} (h : c.Before text (mark :: rest))
    (hmark : mark.toNat < 128) :
    Agrees text (mark :: rest) (stringLiteral text mark c) (Reading.stringLiteral mark rest) := by
  obtain ⟨c₁, hopen, h₁⟩ := h.advance hmark
  obtain ⟨c₂, heat, h₂⟩ := h₁.eatUntil hmark
  have hstops := stops_dropWhile (· != mark) rest
  have hsplit := List.takeWhile_append_dropWhile (p := (· != mark)) (l := rest)
  have hsuffix := (List.dropWhile_suffix (l := rest) (· != mark)).trans (List.suffix_cons mark rest)
  rw [stringLiteral, bind_of_ok (Cursor.Before.place c), bind_of_ok hopen,
    bind_of_ok (Cursor.Before.place c₁), bind_of_ok heat, Reading.stringLiteral_eq,
    Reading.andThen_found]
  cases hleft : rest.dropWhile (· != mark) with
  | nil => exact .fault h.place_add List.suffix_rfl h₂.sound
  | cons d left =>
      rw [hleft] at h₂ hstops hsplit hsuffix
      obtain rfl : d = mark := by simpa using hstops
      obtain ⟨c₃, hcut, h₃⟩ := (hsplit.symm ▸ h₁).cutFrom h₂
      obtain ⟨c₄, hclose, h₄⟩ := h₃.advance hmark
      rw [List.isEmpty_cons, Bool.not_false, if_pos rfl, bind_of_ok hcut, bind_of_ok hclose]
      exact .found h₄ ((List.suffix_cons d left).trans hsuffix)

theorem agrees_numberLiteral (h : c.Before text rest) :
    Agrees text rest (numberLiteral text c) (Reading.numberLiteral rest) := by
  obtain ⟨signed, c₁, c₂, sign, hsigned, heat, hsign, hrest, h₂⟩ := exists_signedDigits h
  have hdigits := isDigits_spanDigits (Numeral.takeSign rest).2
  rw [numberLiteral, bind_of_ok (Cursor.Before.place c), bind_of_ok hsigned, bind_of_ok heat,
    Reading.numberLiteral_eq, Reading.andThen_found, Reading.andThen_found]
  generalize Numeral.spanDigits (Numeral.takeSign rest).2 = span at hrest hdigits h₂ ⊢
  generalize (Numeral.takeSign rest).1 = negative at hsign ⊢
  obtain ⟨whole, after⟩ := span
  subst hrest
  rcases h₂.eat '.' (by decide) (by decide) with ⟨left, c₃, rfl, hpoint, h₃⟩ | ⟨hstops, hpoint⟩
  · obtain ⟨c₄, heat', h₄⟩ := h₃.eatWhile byteClass_isDigitByte
    have hfraction := isDigits_spanDigits left
    have hspan := Numeral.spanDigits_append left
    have hsuffix : (Numeral.spanDigits left).2 <:+ sign ++ whole ++ '.' :: left :=
      (Numeral.spanDigits_suffix left).trans
        ((List.suffix_cons _ left).trans (List.suffix_append _ _))
    have hpieces : sign ++ whole ++ '.' :: left =
        sign ++ (whole ++ '.' :: (Numeral.spanDigits left).1) ++ (Numeral.spanDigits left).2 := by
      simp only [List.append_assoc, List.cons_append, hspan]
    obtain ⟨c₅, hcut, h₅⟩ := (hpieces ▸ h).cutFrom h₄
    rw [bind_of_ok hpoint, if_pos rfl, bind_of_ok heat', bind_of_ok hcut,
      Binary64.ofText?_append hsign hdigits hfraction, Reading.numberOf, Reading.andThen_found,
      Reading.floatOf]
    split
    · exact .fault h.place_add List.suffix_rfl h₅.sound
    · exact .found h₅ hsuffix
  · obtain ⟨c₃, hcut, h₃⟩ := h.cutFrom h₂
    rw [bind_of_ok hpoint, if_neg Bool.false_ne_true, bind_of_ok hcut,
      Numeral.integer?_append hsign hdigits, Reading.numberOf_of_stops hstops]
    cases Numeral.int64? negative whole with
    | some n => exact .found h₃ (List.suffix_append _ _)
    | none => exact .fault h.place_add List.suffix_rfl h₃.sound

theorem agrees_conditionName (ctx : Context) (h : c.Before text rest) :
    Agrees text rest (conditionName ctx text c) (Reading.conditionName ctx rest) := by
  rw [conditionName, bind_of_ok (Cursor.Before.place c), Reading.conditionName_eq]
  refine (agrees_name h .conditionName).bind fun key left c' _ h' hleft => ?_
  cases ctx.find? key with
  | some condition => exact .found h' hleft
  | none => exact .fault h.place_add List.suffix_rfl h'.sound

end Words

end Scan

end TreePath
