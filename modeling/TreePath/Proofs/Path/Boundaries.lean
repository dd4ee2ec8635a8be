/-
**A cursor only ever stops between characters.**

An expression is compiled by readers of characters, each of which takes the text that is left and
knows no places.  The same grammar can be read with a cursor over bytes (`scan`), which knows
nothing but places.  Here the two are shown to be the same, and from this that such a cursor never
does anything in a place where it could go wrong unnoticed.

A scan and a reading are compared part by part.  The invariant is that the cursor stands before the
text that is left and that all it did was sound (`Cursor.Before`).  References contain arguments,
and these references, so the parts of a filter are compared under the assumption that references
with fewer marks `@` in the text before them agree.

Main definitions:

* `Cause.TellsWhatStands` — a message that tells the character at its place, or the end of the path.

Main results:

* `Scan.agrees_argument`, `Scan.agrees_filter`, `Scan.agrees_step`, `Scan.agrees_steps` — the parts
  of a path, given that references agree;
* `Scan.agrees_reference`, `Scan.agrees_whole` — **references and whole texts**, with as many rounds
  and levels as the text has bytes and marks;
* `scan_between_characters` — **all places of a scan are sound**, and it is what compiling gives.
-/

import TreePath.Condition.Builtin
import TreePath.Proofs.Path.Scanning

set_option relaxedAutoImplicit false
set_option autoImplicit false

namespace TreePath

namespace Reading

variable {α β γ : Type}

theorem map_andThen (f : α → β) (r : Reading α) (next : β → List Char → Reading γ) :
    (r.map f).andThen next = r.andThen fun a rest => next (f a) rest := by
  cases r <;> rfl

theorem andThen_assoc (r : Reading α) (next : α → List Char → Reading β)
    (next' : β → List Char → Reading γ) :
    (r.andThen next).andThen next' = r.andThen fun a rest => (next a rest).andThen next' := by
  cases r <;> rfl

end Reading

theorem isQuote_iff {c : Char} : isQuote c = true ↔ c = '\x22' ∨ c = '\'' ∨ c = '\x60' := by
  simp [isQuote, or_assoc]

namespace Scan

/-! ### Filters -/

/-- There are no more marks of references in what is left. -/
theorem count_mark_le {left rest : List Char} {n : Nat} (h : left <:+ rest)
    (hn : rest.count '@' ≤ n) : left.count '@' ≤ n :=
  (h.sublist.count_le '@').trans hn

theorem takeNegation_eq {text rest : List Char} {c : Cursor} (h : c.Before text rest) :
    ∃ c', eat text '!' c = .ok (Reading.takeNegation rest).1 c' ∧
      c'.Before text (Reading.takeNegation rest).2 := by
  rcases h.eat '!' (by decide) (by decide) with ⟨rest, c', rfl, heat, h'⟩ | ⟨hstops, heat⟩
  · exact ⟨c', heat, h'⟩
  · refine ⟨c, ?_⟩
    rw [Reading.takeNegation.eq_def]
    split
    · simp at hstops
    · exact ⟨heat, h⟩

section Parts

-- References agree wherever fewer than `n` marks are left: an argument is in front of one mark more
-- than the reference in it.
variable (ctx : Context) {text rest : List Char} {reference : Scan Path}
  {read : List Char → Reading Path} {n : Nat} {c : Cursor}
  (hreference : ∀ rest c, c.Before text rest → rest.count '@' < n →
    Agrees text rest (reference c) (read rest))

include hreference

/-- The first byte of an argument tells its kind, as the first character does. -/
theorem agrees_argument (h : c.Before text rest) (hn : rest.count '@' ≤ n) :
    Agrees text rest (argument text reference c) (Reading.argument read rest) := by
  rw [argument, bind_of_ok h.current]
  have hmark : firstByte rest = '@'.toUInt8 ↔ rest.head? = some '@' :=
    firstByte_eq_iff (by decide) (by decide)
  have hquote := byteClass_isQuoteByte.firstByte rfl rest
  have hnumber := byteClass_startsNumberByte.firstByte rfl rest
  cases rest with
  | nil => exact agrees_unexpected h _
  | cons d rest =>
      rw [List.head?_cons, Option.some.injEq] at hmark
      rw [List.head?_cons, Option.any_some] at hquote hnumber
      rw [Reading.argument]
      by_cases hd : d = '@'
      · obtain ⟨c', hadvance, h'⟩ := h.advance (hd ▸ by decide)
        rw [hd, List.count_cons_self] at hn
        rw [if_pos (hmark.2 hd), if_pos hd, bind_of_ok hadvance]
        exact ((hreference rest c' h' hn).mono (List.suffix_cons d rest)).map _
      · rw [if_neg (mt hmark.1 hd), if_neg hd, hquote]
        by_cases hopen : isQuote d = true
        · have hmarks := isQuote_iff.1 hopen
          have hascii : d.toNat < 128 := by rcases hmarks with rfl | rfl | rfl <;> decide
          have hbyte : Char.ofUInt8 (firstByte (d :: rest)) = d := by
            rcases hmarks with rfl | rfl | rfl <;> rfl
          rw [if_pos hopen, if_pos hmarks, hbyte]
          exact (agrees_stringLiteral h hascii).map _
        · rw [if_neg hopen, if_neg (mt isQuote_iff.2 hopen), hnumber]
          by_cases hstarts : startsNumber d = true
          · rw [if_pos hstarts, if_pos (startsNumber_iff.1 hstarts)]
            exact agrees_numberLiteral h
          · rw [if_neg hstarts, if_neg (mt startsNumber_iff.2 hstarts)]
            exact agrees_unexpected h _

theorem agrees_arguments (condition : Condition) (place : Nat) (signature : List KindSet)
    (h : c.Before text rest) (hn : rest.count '@' ≤ n) :
    Agrees text rest (arguments text reference condition place signature c)
      (Reading.arguments read condition place signature rest) := by
  induction signature generalizing place rest c with
  | nil =>
      obtain ⟨c', hspaces, h'⟩ := h.eatSpaces
      rw [arguments, bind_of_ok hspaces, bind_of_ok (Cursor.Before.place c')]
      exact .fault h'.place_add (Reading.skipSpaces_suffix rest) h'.sound
  | cons accepted signature ih =>
      obtain ⟨c₁, hspaces, h₁⟩ := h.eatSpaces
      have hskip := Reading.skipSpaces_suffix rest
      rw [arguments, bind_of_ok hspaces, bind_of_ok (Cursor.Before.place c₁),
        Reading.arguments_cons, Reading.argumentsAt]
      have hargument := agrees_argument hreference h₁ (count_mark_le hskip hn)
      refine (hargument.bind fun a left c₂ _ h₂ hleft => ?_).mono hskip
      rw [Reading.argumentsFrom]
      split
      · obtain ⟨c₃, hspaces', h₃⟩ := h₂.eatSpaces
        have hskip' := (Reading.skipSpaces_suffix left).trans hleft
        rw [bind_of_ok hspaces']
        rcases h₃.eat ',' (by decide) (by decide) with
          ⟨more, c₄, hcomma, heat, h₄⟩ | ⟨hstops, heat⟩
        · rw [hcomma] at hskip' ⊢
          have hmore := (List.suffix_cons ',' more).trans hskip'
          rw [bind_of_ok heat, Reading.argumentsAfter]
          exact ((ih (place + 1) h₄ (count_mark_le (hmore.trans hskip) hn)).mono hmore).map _
        · rw [bind_of_ok heat, Reading.argumentsAfter_of_stops hstops]
          exact .found h₃ hskip'
      · exact .fault h₁.place_add List.suffix_rfl h₂.sound

theorem agrees_givenArguments (condition : Condition) (h : c.Before text rest)
    (hn : rest.count '@' ≤ n) :
    Agrees text rest (givenArguments text reference condition c)
      (Reading.givenArguments read condition rest) := by
  have hclose : firstByte rest = ')'.toUInt8 ↔ rest.head? = some ')' :=
    firstByte_eq_iff (by decide) (by decide)
  rw [givenArguments, bind_of_ok h.current, Reading.givenArguments]
  by_cases hhead : rest.head? = some ')'
  · rw [if_pos (hclose.2 hhead), if_pos hhead]
    exact .found h List.suffix_rfl
  · rw [if_neg (mt hclose.1 hhead), if_neg hhead]
    exact agrees_arguments hreference condition 0 condition.signature h hn

theorem agrees_argumentList (condition : Condition) (h : c.Before text rest)
    (hn : rest.count '@' ≤ n) :
    Agrees text rest (argumentList text reference condition c)
      (Reading.argumentList read condition rest) := by
  obtain ⟨c₁, hspaces, h₁⟩ := h.eatSpaces
  have hskip := Reading.skipSpaces_suffix rest
  have hgiven := agrees_givenArguments hreference condition h₁ (count_mark_le hskip hn)
  rw [argumentList, bind_of_ok hspaces, Reading.argumentList_eq]
  refine (hgiven.bind fun as left c₂ _ h₂ hleft => ?_).mono hskip
  rw [Reading.enoughArguments]
  split
  · exact .fault h₂.place_add hleft h₂.sound
  · exact .found h₂ hleft

theorem agrees_call (h : c.Before text rest) (hn : rest.count '@' ≤ n) :
    Agrees text rest (call ctx text reference c) (Reading.call ctx read rest) := by
  obtain ⟨c₁, hspaces₁, h₁⟩ := h.eatSpaces
  obtain ⟨c₂, hnegation, h₂⟩ := takeNegation_eq h₁
  obtain ⟨c₃, hspaces₂, h₃⟩ := h₂.eatSpaces
  have hskip := (Reading.skipSpaces_suffix _).trans
    ((Reading.takeNegation_suffix _).trans (Reading.skipSpaces_suffix rest))
  rw [call, bind_of_ok hspaces₁, bind_of_ok hnegation, bind_of_ok hspaces₂, Reading.call]
  refine ((agrees_conditionName ctx h₃).mono hskip).bind fun condition left c₄ _ h₄ hleft => ?_
  obtain ⟨c₅, hspaces₃, h₅⟩ := h₄.eatSpaces
  rw [bind_of_ok hspaces₃]
  refine ((agrees_expect h₅ (by decide) (by decide)).mono
    ((Reading.skipSpaces_suffix left).trans hleft)).bind fun _ inside c₆ _ h₆ hinside => ?_
  have hlist := agrees_argumentList hreference condition h₆ (count_mark_le hinside hn)
  refine (hlist.mono hinside).bind fun as close c₇ _ h₇ hclose => ?_
  refine ((agrees_expect h₇ (by decide) (by decide)).mono hclose).bind
    fun _ after c₈ _ h₈ hafter => ?_
  obtain ⟨c₉, hspaces₄, h₉⟩ := h₈.eatSpaces
  rw [bind_of_ok hspaces₄]
  exact ((agrees_expect h₉ (by decide) (by decide)).mono
    ((Reading.skipSpaces_suffix after).trans hafter)).map _

theorem agrees_filter (h : c.Before text rest) (hn : rest.count '@' ≤ n) :
    Agrees text rest (filter ctx text reference c) (Reading.filter ctx read rest) := by
  rw [filter]
  rcases h.eat '(' (by decide) (by decide) with ⟨rest, c', rfl, heat, h'⟩ | ⟨hstops, heat⟩
  · have hsuffix := List.suffix_cons '(' rest
    rw [bind_of_ok heat, Reading.filter]
    exact ((agrees_call ctx hreference h' (count_mark_le hsuffix hn)).mono hsuffix).map _
  · rw [bind_of_ok heat, Reading.filter_of_stops hstops]
    exact .found h List.suffix_rfl

/-! ### Steps -/

theorem agrees_memberStep (h : c.Before text ('.' :: rest))
    (hn : ('.' :: rest).count '@' ≤ n) :
    Agrees text ('.' :: rest) (memberStep ctx text reference c)
      (Reading.step ctx read ('.' :: rest)) := by
  obtain ⟨c₁, hadvance, h₁⟩ := h.advance (by decide)
  have hsuffix := List.suffix_cons '.' rest
  rw [memberStep, bind_of_ok (Cursor.Before.place c), bind_of_ok hadvance, Reading.step]
  rcases h₁.eat '.' (by decide) (by decide) with ⟨rest, c₂, rfl, heat, h₂⟩ | ⟨hstops, heat⟩
  · have hsuffix' := (List.suffix_cons '.' rest).trans hsuffix
    rw [bind_of_ok heat, Reading.target]
    cases hdescendants : ctx.descendants with
    | false => exact .fault h.place_add List.suffix_rfl h₂.sound
    | true =>
        rw [if_neg (by simp), if_pos rfl, Reading.map_andThen]
        refine ((agrees_selector h₂).mono hsuffix').bind fun sel left c₃ _ h₃ hleft => ?_
        have hfilter := agrees_filter ctx hreference h₃ (count_mark_le hleft hn)
        exact (hfilter.mono hleft).map _
  · rw [bind_of_ok heat, if_neg (by simp), Reading.target_of_stops hstops, Reading.map_andThen]
    refine ((agrees_selector h₁).mono hsuffix).bind fun sel left c₂ _ h₂ hleft => ?_
    have hfilter := agrees_filter ctx hreference h₂ (count_mark_le hleft hn)
    exact (hfilter.mono hleft).map _

theorem agrees_itemStep (h : c.Before text ('[' :: rest))
    (hn : ('[' :: rest).count '@' ≤ n) :
    Agrees text ('[' :: rest) (itemStep ctx text reference c)
      (Reading.step ctx read ('[' :: rest)) := by
  obtain ⟨c₁, hadvance, h₁⟩ := h.advance (by decide)
  have hsuffix := List.suffix_cons '[' rest
  rw [itemStep, bind_of_ok hadvance, Reading.step, Reading.target, Reading.andThen_assoc]
  refine ((agrees_range h₁).mono hsuffix).bind fun items left c₂ _ h₂ hleft => ?_
  rw [Reading.map_andThen]
  refine ((agrees_expect h₂ (by decide) (by decide)).mono hleft).bind
    fun _ left c₃ _ h₃ hleft => ?_
  have hfilter := agrees_filter ctx hreference h₃ (count_mark_le hleft hn)
  exact (hfilter.mono hleft).map _

/-- **A step is read where one starts**, and nothing is done elsewhere. -/
theorem agrees_step (h : c.Before text rest) (hn : rest.count '@' ≤ n) :
    Agrees text rest (step ctx text reference c)
      (if Reading.startsStep rest then (Reading.step ctx read rest).map some
        else .found none rest) := by
  have hpoint : firstByte rest = '.'.toUInt8 ↔ rest.head? = some '.' :=
    firstByte_eq_iff (by decide) (by decide)
  have hbracket : firstByte rest = '['.toUInt8 ↔ rest.head? = some '[' :=
    firstByte_eq_iff (by decide) (by decide)
  rw [step, bind_of_ok h.current]
  by_cases hmember : rest.head? = some '.'
  · obtain ⟨rest, rfl⟩ := List.head?_eq_some_iff.1 hmember
    rw [if_pos (hpoint.2 hmember), if_pos (by simp [Reading.startsStep])]
    exact (agrees_memberStep ctx hreference h hn).map _
  · rw [if_neg (mt hpoint.1 hmember)]
    by_cases hitem : rest.head? = some '['
    · obtain ⟨rest, rfl⟩ := List.head?_eq_some_iff.1 hitem
      rw [if_pos (hbracket.2 hitem), if_pos (by simp [Reading.startsStep])]
      exact (agrees_itemStep ctx hreference h hn).map _
    · rw [if_neg (mt hbracket.1 hitem), if_neg (by simp [Reading.startsStep, hmember, hitem])]
      exact .found h List.suffix_rfl

/-- **Steps are read as long as they follow**, if there are more rounds than characters. -/
theorem agrees_steps (hends : ∀ s, (read s).EndsIn s) {rounds count : Nat}
    (h : c.Before text rest) (hn : rest.count '@' ≤ n) (hrounds : rest.length < rounds)
    (hcount : rest.length ≤ count) :
    Agrees text rest (steps ctx text reference rounds c)
      (Reading.steps ctx read count rest) := by
  induction rounds generalizing count rest c with
  | zero => omega
  | succ rounds ih =>
      have hstep := agrees_step ctx hreference h hn
      rw [steps]
      by_cases hstarts : Reading.startsStep rest = true
      · have hpositive := Reading.length_pos_of_startsStep hstarts
        obtain ⟨count, rfl⟩ : ∃ k, count = k + 1 := ⟨count - 1, by omega⟩
        rw [if_pos hstarts] at hstep
        rw [Reading.steps, if_pos hstarts]
        refine hstep.bind_some fun st left c' hfound h' hleft => ?_
        -- A step takes a character, so there are enough rounds for what is left.
        have hshorter := Reading.length_lt_of_step hends hstarts hfound
        exact ((ih h' (count_mark_le hleft hn) (by omega) (by omega)).mono hleft).map _
      · rw [if_neg hstarts] at hstep
        rw [Reading.steps_of_startsStep_eq_false (by simpa using hstarts)]
        exact hstep.bind_found fun c' h' hleft => .found h' hleft

end Parts

/-! ### Paths -/

section Paths

variable {ctx : Context} {text rest : List Char} {c : Cursor}

/-- There are no more characters left than the whole text has bytes. -/
theorem length_lt_rounds (h : c.Before text rest) : rest.length < byteLength text + 1 := by
  have := length_le_byteLength rest
  have := h.place_add
  omega

/-- **References are read alike**, if they may be nested as deep as there are marks left. -/
theorem agrees_reference (levels : Nat) (h : c.Before text rest) (hn : rest.count '@' < levels) :
    Agrees text rest (reference ctx text levels c) (Reading.reference ctx levels rest) := by
  induction levels generalizing rest c with
  | zero => omega
  | succ levels ih =>
      rw [reference, bind_of_ok (Cursor.Before.place c), Reading.reference]
      have hsteps := agrees_steps ctx (fun _ _ => ih)
        (Reading.endsIn_reference ctx levels) h (Nat.le_of_lt_succ hn) (length_lt_rounds h)
        (Nat.le_refl _)
      refine hsteps.bind fun sts left c' _ h' hleft => ?_
      split
      · exact (agrees_unexpected h' _).mono hleft
      · obtain ⟨piece, rfl⟩ := hleft
        obtain ⟨c'', hcut, h''⟩ := h.cutFrom h'
        rw [bind_of_ok hcut, Reading.consumed_append]
        exact .found h'' (List.suffix_append piece left)

theorem agrees_whole (ctx : Context) (text : List Char) :
    Agrees text text (whole ctx text Cursor.start) (Reading.whole ctx text) := by
  have h := Cursor.Before.start text
  rw [whole, bind_of_ok (Cursor.Before.place _), Reading.whole]
  have hsteps := agrees_steps ctx (fun _ _ => agrees_reference (text.count '@'))
    (Reading.endsIn_reference ctx _) h (Nat.le_refl _) (length_lt_rounds h) (Nat.le_refl _)
  refine hsteps.bind fun sts left c' _ h' hleft => ?_
  rw [bind_of_ok h'.atEnd]
  cases left with
  | nil =>
      have hall : Cursor.start.Before text (text ++ []) := by rwa [List.append_nil]
      obtain ⟨c'', hcut, h''⟩ := hall.cutFrom h'
      rw [List.isEmpty_nil, if_pos rfl, if_pos rfl, bind_of_ok hcut]
      exact .found h'' List.nil_suffix
  | cons d left => exact (agrees_unexpected h' _).mono hleft

end Paths

end Scan

/-! ### Expressions -/

/-- A scan comes to what compiling comes to, and all its places are sound. -/
theorem scan_cases (ctx : Context) (expression : String) :
    (∃ p c, scan ctx expression.toList = .ok p c ∧ compile ctx expression = .ok p ∧
      ∀ a ∈ c.acts, a.Sound expression.toList) ∨
    ∃ front left cause c, scan ctx expression.toList = .error (.fault (byteLength front) cause) c ∧
      compile ctx expression = .error ⟨expression, byteLength front, cause⟩ ∧
      (∀ a ∈ c.acts, a.Sound expression.toList) ∧ expression.toList = front ++ left ∧
      ∀ found expected, cause = .unexpected found expected → found = left.head? := by
  have hstart := Cursor.Before.start expression.toList
  rw [scan]
  by_cases hempty : expression.toList.isEmpty = true
  · refine .inr ⟨[], expression.toList, .empty, Cursor.start, ?_, ?_, hstart.sound, rfl, nofun⟩
    · rw [if_pos hempty]
      rfl
    · rw [compile, if_pos hempty]
      rfl
  · rw [if_neg hempty, compile, if_neg hempty]
    have hagrees := Scan.agrees_whole ctx expression.toList
    have hends := Reading.endsIn_whole ctx expression.toList
    generalize Scan.whole ctx expression.toList Cursor.start = result at hagrees
    generalize Reading.whole ctx expression.toList = reading at hagrees hends
    cases hagrees with
    | found h _ => exact .inl ⟨_, _, rfl, rfl, h.sound⟩
    | @fault offset cause c left hoffset hleft sound =>
        obtain ⟨front, hfront⟩ := hleft
        rw [← hfront, byteLength_append] at hoffset
        obtain rfl : offset = byteLength front := by omega
        refine .inr ⟨front, left, cause, c, rfl, ?_, sound, hfront.symm, ?_⟩
        · rw [← byteLength_append_sub front left, hfront]
        · rintro found expected rfl
          exact hends.eq_head? left found expected rfl

/-- What is said of the end of an expression is not said of any character. -/
theorem Cause.message_unexpected_ne (d : Char) (expected : Expected) :
    (Cause.unexpected (some d) expected).message ≠
      "unexpected end of path, expected " ++ expected.text := by
  have hend : "unexpected end of path, expected ".toList =
      "unexpected ".toList ++ 'e' :: "nd of path, expected ".toList := by decide
  show "unexpected " ++ quotedChar d ++ ", expected " ++ expected.text ≠ _
  rw [Ne, ← String.toList_inj]
  simp only [String.toList_append, List.append_assoc, hend]
  -- After the common word, a quoted character starts with a mark, and the end of a path does not.
  rw [List.append_cancel_left_eq, quotedChar, Quoted.enclose, String.toList_ofList]
  intro h
  exact absurd (List.cons.inj h).1 (by decide)

/-- Where another character was expected, the message speaks of the end of the path exactly at the
end of the text, and anywhere else it quotes the character that stands there. -/
def Cause.TellsWhatStands (cause : Cause) (text : List Char) (offset : Nat) : Prop :=
  ∀ found expected, cause = .unexpected found expected →
    (cause.message = "unexpected end of path, expected " ++ expected.text ↔
      offset = byteLength text) ∧
    (offset ≠ byteLength text → ∃ front d rest, text = front ++ d :: rest ∧
      offset = byteLength front ∧
      cause.message = "unexpected " ++ quotedChar d ++ ", expected " ++ expected.text)

theorem Cause.tellsWhatStands {cause : Cause} {front left : List Char}
    (h : ∀ found expected, cause = .unexpected found expected → found = left.head?) :
    cause.TellsWhatStands (front ++ left) (byteLength front) := by
  rintro found expected rfl
  rw [h found expected rfl, byteLength_append]
  cases left with
  | nil => exact ⟨iff_of_true rfl rfl, fun hne => absurd rfl hne⟩
  | cons d left =>
      have hpositive := d.utf8Size_pos
      have hne : byteLength front ≠ byteLength front + byteLength (d :: left) := by
        rw [byteLength_cons]
        omega
      refine ⟨iff_of_false (message_unexpected_ne d expected) hne, fun _ => ?_⟩
      exact ⟨front, d, left, rfl, rfl, rfl⟩

/-- **A cursor only ever stops between characters.**  An expression that is read byte by byte comes
to what compiling it gives, within as many rounds and levels as it has bytes and marks `@`.
Everything that is done with the cursor on the way is sound: it passes inside of the text and stops
between two characters, and what is cut out and quoted there is part of the text.  The place of an
error lies between two characters before it is kept inside of the expression, which changes nothing;
and where another character was expected, the error tells what stands there. -/
theorem scan_between_characters (ctx : Context) (expression : String) :
    match scan ctx expression.toList with
    | .ok p c => compile ctx expression = .ok p ∧ ∀ a ∈ c.acts, a.Sound expression.toList
    | .error .exhausted _ => False
    | .error (.fault offset cause) c =>
      compile ctx expression = .error (.placed expression offset cause) ∧
      (.placed expression offset cause : SyntaxError) = ⟨expression, offset, cause⟩ ∧
      IsBoundary expression.toList offset ∧ offset ≤ byteLength expression.toList ∧
      cause.TellsWhatStands expression.toList offset ∧
      ∀ a ∈ c.acts, a.Sound expression.toList := by
  rcases scan_cases ctx expression with
    ⟨p, c, hscan, hp, hsound⟩ | ⟨front, left, cause, c, hscan, he, hsound, htext, htold⟩
  · rw [hscan]
    exact ⟨hp, hsound⟩
  · have hle : byteLength front ≤ byteLength expression.toList := by
      rw [htext, byteLength_append]
      exact Nat.le_add_right _ _
    have hplaced : (.placed expression (byteLength front) cause : SyntaxError) =
        ⟨expression, byteLength front, cause⟩ := by
      rw [SyntaxError.placed, Nat.min_eq_left hle]
    rw [hscan]
    refine ⟨?_, hplaced, ⟨front, left, htext, rfl⟩, hle, ?_, hsound⟩
    · rw [hplaced]
      exact he
    · rw [htext]
      exact Cause.tellsWhatStands htold

/-- A character of two bytes, and a zero byte that is not the end of the text. -/
example : compile Context.standard ".é\x00" =
    .error ⟨".é\x00", 3, .unexpected (some '\x00') .step⟩ := rfl

end TreePath
