/-
**The work of compiling is bounded by the text.**

A scan of an expression is allowed a number of rounds for the steps of each path and a number of
levels for the paths in one another.  Here it is shown that neither runs out: more rounds than half
of the bytes and as many levels as marks `@` are enough, and more of them change nothing.  So a scan
without any such limit comes to an end, and to what compiling gives.

The paths that are being read at one moment stand in one another.  Each of them was asked for by the
path around it, behind a mark `@` that lies further on than the place where this path begins.  The
marks that are left from there on are the measure of all inductions here.

Main definitions:

* `Scan.referenceWithin`, `scanWithin` — scans with any number of rounds and levels;
* `marksFrom` — the marks `@` from a place on;
* `Scan.AsksAt`, `Scan.Nested` — references that are asked for, and paths in one another.

Main results:

* `Scan.referenceWithin_eq`, `scanWithin_eq_scan` — **rounds and levels do not run out**;
* `Scan.asksAt_argument_iff` — where an argument asks for a reference;
* `Scan.Nested.bounds` — paths in one another begin further and further on;
* `compile_bounded` — **compiling ends, and takes no more steps and levels than the text allows**.
-/

import TreePath.Condition.Builtin
import TreePath.Proofs.Path.Progress
import TreePath.Proofs.Path.Boundaries

set_option relaxedAutoImplicit false
set_option autoImplicit false

namespace TreePath

/-! ### Rounds and levels -/

namespace Scan

section Definitions

variable (ctx : Context) (text : List Char) (rounds : Nat)

/-- Reads a path after the mark of a reference, given how references in it are read. -/
def nestedPath (read : Scan Path) : Scan Path := do
  let start ← place
  let sts ← steps ctx text read rounds
  if sts.isEmpty then unexpected text .reference
  else return ⟨String.ofList (← cutFrom text start), sts⟩

/-- Reads a path that is the whole of a text, given how references in it are read. -/
def wholePath (read : Scan Path) : Scan Path := do
  let start ← place
  let sts ← steps ctx text read rounds
  if ← atEnd text then return ⟨String.ofList (← cutFrom text start), sts⟩
  else unexpected text .step

/-- Reads the path of a reference, within a number of rounds and levels. -/
def referenceWithin : (levels : Nat) → Scan Path
  | 0 => throw .exhausted
  | levels + 1 => nestedPath ctx text rounds (referenceWithin levels)

end Definitions

theorem reference_eq (ctx : Context) (text : List Char) (levels : Nat) :
    reference ctx text levels = referenceWithin ctx text (byteLength text + 1) levels := by
  induction levels with
  | zero => rfl
  | succ levels ih => rw [reference, referenceWithin, nestedPath, ih]

end Scan

/-- **What an expression comes to** within a number of rounds for each path and a number of levels
of paths in one another. -/
def scanWithin (ctx : Context) (rounds levels : Nat) (text : List Char) :
    EStateM.Result Halt Cursor Path :=
  (if text.isEmpty then Scan.faultAt 0 .empty
    else Scan.wholePath ctx text rounds (Scan.referenceWithin ctx text rounds levels)) Cursor.start

theorem scan_eq (ctx : Context) (text : List Char) :
    scan ctx text = scanWithin ctx (byteLength text + 1) (text.count '@') text := by
  rw [scan, scanWithin, Scan.whole, Scan.wholePath, Scan.reference_eq]

/-! ### Marks that are left -/

/-- How many marks `@` stand from a place on, counted as bytes. -/
def marksFrom (text : List Char) (place : Nat) : Nat :=
  ((bytes text).drop place).count '@'.toUInt8

/-- A mark is a byte of its own, which no other character has. -/
theorem count_bytes {mark : Char} (hmark : mark.toNat < 128) (s : List Char) :
    (bytes s).count mark.toUInt8 = s.count mark := by
  induction s with
  | nil => rfl
  | cons c s ih =>
      rw [bytes_cons, List.count_append, ih, List.count_cons, Nat.add_comm]
      congr 1
      have hclass := byteClass_mark hmark c
      by_cases hc : c = mark
      · subst hc
        rw [utf8EncodeChar_of_lt hmark]
        simp
      · have hnone : mark.toUInt8 ∉ String.utf8EncodeChar c := fun hmem => by
          have := hclass _ hmem
          simp [hc] at this
        rw [List.count_eq_zero_of_not_mem hnone]
        simp [hc]

/-- Behind a mark there are fewer marks left. -/
theorem BehindMark.marksFrom_lt {text : List Char} {place : Nat} {d : Cursor}
    (h : BehindMark text place d) : marksFrom text d.place < marksFrom text place := by
  obtain ⟨n, hn, hbyte, hplace⟩ := h
  have hdrop : (bytes text).drop n = '@'.toUInt8 :: (bytes text).drop d.place := by
    obtain ⟨hlt, hget⟩ := List.getElem?_eq_some_iff.1 hbyte
    rw [List.drop_eq_getElem_cons hlt, hget, hplace]
  have hcount : marksFrom text n = marksFrom text d.place + 1 := by
    rw [marksFrom, hdrop, List.count_cons_self, marksFrom]
  have hle : marksFrom text n ≤ marksFrom text place :=
    (List.drop_sublist_drop_left _ hn).count_le _
  omega

theorem BehindMark.lt {text : List Char} {place : Nat} {d : Cursor}
    (h : BehindMark text place d) : place < d.place := by
  obtain ⟨n, hn, -, hplace⟩ := h
  omega

theorem BehindMark.le_end {text : List Char} {place : Nat} {d : Cursor}
    (h : BehindMark text place d) : d.place ≤ byteLength text := by
  obtain ⟨n, -, hbyte, hplace⟩ := h
  exact hplace ▸ Scan.lt_of_getElem?_bytes hbyte

namespace Scan

variable {ctx : Context} {text : List Char} {c d : Cursor} {rounds levels : Nat}

/-! ### Whole paths -/

/-- A path keeps its text and its steps, for which bytes have been passed. -/
theorem progress_cutPath {start before : Nat} {sts : List Step}
    (h : before + 2 * (sts.length + stepsIn (referencesOfSteps sts)) ≤ c.place) :
    Progress text c (fun _ => do return ⟨String.ofList (← cutFrom text start), sts⟩)
      fun (p : Path) c' => before + 2 * p.stepCount ≤ c'.place := by
  refine (progress_cutFrom start).bind fun piece c₁ _ ⟨_, hplace⟩ => .pure ?_
  rw [Path.stepCount_mk, hplace]
  exact h

theorem progress_nestedPath (ctx : Context) (rounds : Nat) :
    Progress text c (fun read => nestedPath ctx text rounds read)
      fun p c' => c.place + 2 * p.stepCount ≤ c'.place := by
  unfold nestedPath
  refine .observe (Cursor.Before.place c) ?_
  refine (progress_steps ctx rounds).bind fun sts c₁ _ htaken => ?_
  exact .ite (fun _ => progress_unexpected _) fun _ => progress_cutPath htaken

theorem progress_wholePath (ctx : Context) (rounds : Nat) :
    Progress text c (fun read => wholePath ctx text rounds read)
      fun p c' => c.place + 2 * p.stepCount ≤ c'.place := by
  unfold wholePath
  refine .observe (Cursor.Before.place c) ?_
  refine (progress_steps ctx rounds).bind fun sts c₁ _ htaken => ?_
  refine .observe (atEnd_eq text c₁) ?_
  exact .ite (fun _ => progress_cutPath htaken) fun _ => progress_unexpected _

/-- **References pay for their steps**, at every level. -/
theorem pays_referenceWithin (ctx : Context) (text : List Char) (rounds levels : Nat) :
    Pays text (referenceWithin ctx text rounds levels) := by
  induction levels with
  | zero => exact fun c _ => .error .refl
  | succ levels ih => exact fun c hc => (progress_nestedPath ctx rounds).ends _ ih hc

theorem start_place_le (text : List Char) : Cursor.start.place ≤ byteLength text :=
  Nat.zero_le _

/-- A scan of an expression moves on from the beginning. -/
theorem ends_scanWithin (ctx : Context) (rounds levels : Nat) (text : List Char) :
    Ends text Cursor.start (fun p c => 2 * p.stepCount ≤ c.place)
      (scanWithin ctx rounds levels text) := by
  rw [scanWithin]
  split
  · exact .error .refl
  · have hpays := pays_referenceWithin ctx text rounds levels
    have hmoved : Progress text Cursor.start (fun read => wholePath ctx text rounds read)
        fun p c => 2 * p.stepCount ≤ c.place :=
      (progress_wholePath ctx rounds).imp fun p c _ htaken => Nat.le_of_add_left_le htaken
    exact hmoved.ends _ hpays (start_place_le text)

/-! ### Rounds do not run out -/

/-- Each round but the last takes two bytes. -/
theorem steps_eq_of_rounds {read : Scan Path} (hread : Pays text read) {rounds' : Nat}
    (hc : c.place ≤ byteLength text) (h : byteLength text < c.place + 2 * rounds)
    (h' : byteLength text < c.place + 2 * rounds') :
    steps ctx text read rounds c = steps ctx text read rounds' c := by
  induction rounds generalizing rounds' c with
  | zero => omega
  | succ rounds ih =>
      obtain ⟨rounds', rfl⟩ : ∃ k, rounds' = k + 1 := ⟨rounds' - 1, by omega⟩
      have hends := (progress_step ctx).ends read hread hc
      rw [steps, steps]
      cases hstep : step ctx text read c with
      | error e c₁ => simp only [bind, EStateM.bind, hstep]
      | ok found c₁ =>
          rw [bind_of_ok hstep, bind_of_ok hstep]
          rw [hstep] at hends
          cases hends with
          | ok honward htaken =>
              cases found with
              | none => rfl
              | some st =>
                  have := htaken st rfl
                  have hrest := @ih c₁ rounds' (honward.place_le_end hc) (by omega) (by omega)
                  simp only [bind, EStateM.bind, hrest]

theorem nestedPath_eq_of_rounds {read : Scan Path} (hread : Pays text read) {rounds' : Nat}
    (hc : c.place ≤ byteLength text) (h : byteLength text < 2 * rounds)
    (h' : byteLength text < 2 * rounds') :
    nestedPath ctx text rounds read c = nestedPath ctx text rounds' read c := by
  have hsteps := @steps_eq_of_rounds ctx text c rounds read hread rounds' hc (by omega) (by omega)
  rw [nestedPath, nestedPath, bind_of_ok (Cursor.Before.place c),
    bind_of_ok (Cursor.Before.place c)]
  simp only [bind, EStateM.bind, hsteps]

/-! ### Levels do not run out -/

/-- **A reference comes to the same within any rounds and levels** that are enough: more rounds than
half of the bytes, and more levels than marks are left. -/
theorem referenceWithin_eq {rounds' levels' : Nat} (hc : c.place ≤ byteLength text)
    (hrounds : byteLength text < 2 * rounds) (hrounds' : byteLength text < 2 * rounds')
    (hlevels : marksFrom text c.place < levels) (hlevels' : marksFrom text c.place < levels') :
    referenceWithin ctx text rounds levels c = referenceWithin ctx text rounds' levels' c := by
  induction levels generalizing levels' c with
  | zero => omega
  | succ levels ih =>
      obtain ⟨levels', rfl⟩ : ∃ k, levels' = k + 1 := ⟨levels' - 1, by omega⟩
      have hpays := pays_referenceWithin ctx text rounds' levels'
      -- Each reference that is asked for has fewer marks left.
      have hasked : ∀ d, BehindMark text c.place d → referenceWithin ctx text rounds levels d =
          referenceWithin ctx text rounds' levels' d := fun d hd => by
        have := hd.marksFrom_lt
        exact ih hd.le_end (by omega) (by omega)
      calc referenceWithin ctx text rounds (levels + 1) c
          = nestedPath ctx text rounds (referenceWithin ctx text rounds' levels') c :=
            (progress_nestedPath ctx rounds).congr _ _ hpays hc hasked
        _ = referenceWithin ctx text rounds' (levels' + 1) c :=
            nestedPath_eq_of_rounds hpays hc hrounds hrounds'

theorem wholePath_eq {rounds' levels' : Nat}
    (hrounds : byteLength text < 2 * rounds) (hrounds' : byteLength text < 2 * rounds')
    (hlevels : marksFrom text 0 ≤ levels) (hlevels' : marksFrom text 0 ≤ levels') :
    wholePath ctx text rounds (referenceWithin ctx text rounds levels) Cursor.start =
      wholePath ctx text rounds' (referenceWithin ctx text rounds' levels') Cursor.start := by
  have hpays := pays_referenceWithin ctx text rounds' levels'
  have hasked : ∀ d, BehindMark text Cursor.start.place d →
      referenceWithin ctx text rounds levels d = referenceWithin ctx text rounds' levels' d :=
    fun d hd => by
      have hlt : marksFrom text d.place < marksFrom text 0 := hd.marksFrom_lt
      exact referenceWithin_eq hd.le_end hrounds hrounds' (by omega) (by omega)
  rw [(progress_wholePath ctx rounds).congr _ _ hpays (start_place_le text) hasked]
  have hsteps := @steps_eq_of_rounds ctx text Cursor.start rounds _ hpays rounds'
    (start_place_le text) (by omega) (by omega)
  rw [wholePath, wholePath, bind_of_ok (Cursor.Before.place _), bind_of_ok (Cursor.Before.place _)]
  simp only [bind, EStateM.bind, hsteps]

end Scan

/-- **Rounds and levels do not run out**: more rounds than half of the bytes and as many levels as
marks are enough, and with more of them an expression comes to the same. -/
theorem scanWithin_eq_scan (ctx : Context) {text : List Char} {rounds levels : Nat}
    (hrounds : byteLength text < 2 * rounds) (hlevels : (bytes text).count '@'.toUInt8 ≤ levels) :
    scanWithin ctx rounds levels text = scan ctx text := by
  rw [scan_eq, scanWithin, scanWithin]
  split
  · rfl
  · have hmarks : marksFrom text 0 = (bytes text).count '@'.toUInt8 := rfl
    have hcount : (bytes text).count '@'.toUInt8 = text.count '@' := count_bytes (by decide) text
    exact Scan.wholePath_eq hrounds (by omega) (by omega) (by omega)

/-! ### Paths in one another -/

namespace Scan

variable {ctx : Context} {text : List Char} {c d : Cursor} {rounds levels : Nat}

deriving instance DecidableEq for Act, Cursor

/-- **A part asks for a reference at a cursor** if it matters to the part what reading one there
comes to.  Each reference that is read does matter, for an error in it would be an error of the
part. -/
def AsksAt {α : Type} (part : Scan Path → Scan α) (read : Scan Path) (c d : Cursor) : Prop :=
  ∃ other : Scan Path, (∀ e, e ≠ d → other e = read e) ∧ part other c ≠ part read c

theorem Progress.behindMark_of_asksAt {α : Type} {part : Scan Path → Scan α}
    {Q : α → Cursor → Prop} (h : Progress text c part Q) {read : Scan Path}
    (hread : Pays text read) (hc : c.place ≤ byteLength text) (hasks : AsksAt part read c d) :
    BehindMark text c.place d := by
  obtain ⟨other, hother, hne⟩ := hasks
  by_contra hd
  exact hne (h.congr read other hread hc fun e he => hother e fun heq => hd (heq ▸ he))

/-- Reads references as before, except at one cursor. -/
def answering (read : Scan Path) (d : Cursor) (answer : EStateM.Result Halt Cursor Path) :
    Scan Path := fun e => if e = d then answer else read e

theorem answering_self (read : Scan Path) (d : Cursor)
    (answer : EStateM.Result Halt Cursor Path) : answering read d answer d = answer :=
  if_pos rfl

/-- A part asks where another answer changes what it comes to. -/
theorem AsksAt.of_answering {α : Type} {part : Scan Path → Scan α} {read : Scan Path}
    (answer : EStateM.Result Halt Cursor Path)
    (h : part (answering read d answer) c ≠ part read c) : AsksAt part read c d :=
  ⟨_, fun _ he => if_neg he, h⟩

/-- An argument asks for a reference exactly where a mark comes next, right behind this mark. -/
theorem asksAt_argument_iff {read : Scan Path} : AsksAt (argument text) read c d ↔
    (bytes text)[c.place]? = some '@'.toUInt8 ∧ d = ⟨.stop (c.place + 1) :: c.acts⟩ := by
  have hmarked (hmark : (bytes text)[c.place]? = some '@'.toUInt8) (read : Scan Path) :
      argument text read c =
        (read >>= fun p => pure (Argument.path p)) ⟨.stop (c.place + 1) :: c.acts⟩ := by
    have hbyte : (bytes text).getD c.place 0 = '@'.toUInt8 := by
      rw [List.getD_eq_getElem?_getD, hmark, Option.getD_some]
    rw [argument, bind_of_ok (current_eq text c), if_pos hbyte,
      bind_of_ok (advance_eq (lt_of_getElem?_bytes hmark))]
  constructor
  · rintro ⟨other, hother, hne⟩
    by_cases hbyte : (bytes text).getD c.place 0 = '@'.toUInt8
    · have hmark := getElem?_of_getD_eq (by decide) hbyte
      refine ⟨hmark, ?_⟩
      by_contra hd
      refine hne ?_
      simp only [hmarked hmark, bind, EStateM.bind, hother _ (Ne.symm hd)]
    · refine absurd ?_ hne
      simp only [argument, bind_of_ok (current_eq text c), if_neg hbyte]
  · rintro ⟨hmark, hd⟩
    -- An error makes a difference where a path is found, and a path where there is an error.
    cases hresult : read d with
    | ok p c' =>
        refine .of_answering (.error .exhausted d) ?_
        rw [hmarked hmark, hmarked hmark, ← hd]
        simp only [bind, EStateM.bind, answering_self, hresult]
        intro heq
        cases heq
    | error e c' =>
        refine .of_answering (.ok ⟨"", []⟩ d) ?_
        rw [hmarked hmark, hmarked hmark, ← hd]
        simp only [bind, EStateM.bind, answering_self, hresult]
        intro heq
        cases heq

/-- **Paths that are being read at one moment**, one inside another: where the innermost begins, and
where those around it do, the nearest first.  The levels are those that are left for references in
the innermost path. -/
inductive Nested (ctx : Context) (text : List Char) (rounds : Nat) :
    (levels : Nat) → Cursor → (around : List Cursor) → Prop
  | whole {levels : Nat} : Nested ctx text rounds levels Cursor.start []
  | reference {levels : Nat} {c d : Cursor} {around : List Cursor}
      (h : Nested ctx text rounds (levels + 1) c around)
      (hasks : AsksAt (fun read => steps ctx text read rounds)
        (referenceWithin ctx text rounds (levels + 1)) c d) :
      Nested ctx text rounds levels d (c :: around)

/-- **Paths in one another begin further and further on**, and each has used up a mark. -/
theorem Nested.bounds {around : List Cursor} (h : Nested ctx text rounds levels c around) :
    c.place ≤ byteLength text ∧ (∀ outer ∈ around, outer.place < c.place) ∧
      around.length + marksFrom text c.place ≤ marksFrom text 0 := by
  induction h with
  | whole => exact ⟨start_place_le text, List.forall_mem_nil _, Nat.le_of_eq (Nat.zero_add _)⟩
  | @reference levels c d around _ hasks ih =>
      obtain ⟨hc, houter, hmarks⟩ := ih
      have hpays := pays_referenceWithin ctx text rounds (levels + 1)
      have hbehind := (progress_steps ctx rounds).behindMark_of_asksAt hpays hc hasks
      have hlt := hbehind.lt
      have hfewer := hbehind.marksFrom_lt
      refine ⟨hbehind.le_end, ?_, ?_⟩
      · exact List.forall_mem_cons.2 ⟨hlt, fun outer hmem => (houter outer hmem).trans hlt⟩
      · rw [List.length_cons]
        omega

/-! ### Steps and arguments -/

/-- There is no step at the end of the text, or beyond it. -/
theorem step_of_end (read : Scan Path) (h : byteLength text ≤ c.place) :
    step ctx text read c = .ok none c := by
  have hbyte : (bytes text).getD c.place 0 = 0 := getD_of_le (by simpa using h)
  rw [step, bind_of_ok (current_eq text c), hbyte]
  rfl

/-- There is no argument at the end of the text, or beyond it. -/
theorem argument_of_end (read : Scan Path) (h : byteLength text ≤ c.place) :
    argument text read c = unexpected text .argument c := by
  have hbyte : (bytes text).getD c.place 0 = 0 := getD_of_le (by simpa using h)
  rw [argument, bind_of_ok (current_eq text c), hbyte]
  rfl

theorem step_advances {read : Scan Path} (hread : Pays text read) {st : Step} {c' : Cursor}
    (h : step ctx text read c = .ok (some st) c') : c.place + 2 ≤ c'.place := by
  rcases Nat.lt_or_ge c.place (byteLength text) with hc | hc
  · have hends := (progress_step ctx).ends read hread (Nat.le_of_lt hc)
    rw [h] at hends
    cases hends with
    | ok _ htaken => exact Nat.le_of_add_right_le (htaken st rfl)
  · rw [step_of_end read hc] at h
    cases h

theorem argument_advances {read : Scan Path} (hread : Pays text read) {a : Argument} {c' : Cursor}
    (h : argument text read c = .ok a c') : c.place + 1 ≤ c'.place := by
  rcases Nat.lt_or_ge c.place (byteLength text) with hc | hc
  · have hends := progress_argument.ends read hread (Nat.le_of_lt hc)
    rw [h] at hends
    cases hends with
    | ok _ htaken => exact Nat.le_of_add_right_le htaken
  · rw [argument_of_end read hc] at h
    cases h

end Scan

/-! ### Compiling -/

/-- A scan that is allowed enough rounds and levels gives the answer of compiling. -/
theorem scanWithin_answers (ctx : Context) (expression : String) {rounds levels : Nat}
    (hrounds : byteLength expression.toList < 2 * rounds)
    (hlevels : (bytes expression.toList).count '@'.toUInt8 ≤ levels) :
    match scanWithin ctx rounds levels expression.toList with
    | .ok p _ => compile ctx expression = .ok p
    | .error (.fault offset cause) _ => compile ctx expression = .error ⟨expression, offset, cause⟩
    | .error .exhausted _ => False := by
  rw [scanWithin_eq_scan ctx hrounds hlevels]
  rcases scan_cases ctx expression with
    ⟨p, c, hscan, hp, -⟩ | ⟨front, left, cause, c, hscan, he, -⟩
  · rw [hscan]
    exact hp
  · rw [hscan]
    exact he

/-- **A path has at most half as many steps as its expression has bytes**, together with the paths
in it. -/
theorem Path.stepCount_le_of_compile {ctx : Context} {expression : String} {p : Path}
    (hp : compile ctx expression = .ok p) : 2 * p.stepCount ≤ byteLength expression.toList := by
  rcases scan_cases ctx expression with ⟨q, c, hscan, hq, -⟩ | ⟨_, _, _, _, -, he, -⟩
  · obtain rfl : p = q := Except.ok.inj (hp.symm.trans hq)
    have hends := Scan.ends_scanWithin ctx (byteLength expression.toList + 1)
      (expression.toList.count '@') expression.toList
    rw [← scan_eq, hscan] at hends
    cases hends with
    | ok h htaken => exact htaken.trans (h.place_le_end (Scan.start_place_le _))
  · rw [hp] at he
    cases he

/-- **Compiling ends, and takes no more steps and levels than the text allows.**  With more rounds
than half of the bytes and with as many levels as marks `@`, or with any larger number of both, a
scan of the expression comes to an answer, which is the one that compiling gives.  The cursor is
never moved back, nor past the end.  A step takes two bytes and an argument one.  The steps of a
compiled path and of all paths in it are at most half as many as there are bytes.  And at any moment
of any scan, the innermost of the paths that are being read begins further on than all those around
it, which are at most as many as the marks `@`. -/
theorem compile_bounded (ctx : Context) (expression : String) :
    (∀ rounds levels, byteLength expression.toList < 2 * rounds →
      (bytes expression.toList).count '@'.toUInt8 ≤ levels →
      match scanWithin ctx rounds levels expression.toList with
      | .ok p _ => compile ctx expression = .ok p
      | .error (.fault offset cause) _ =>
        compile ctx expression = .error ⟨expression, offset, cause⟩
      | .error .exhausted _ => False) ∧
    (∀ p, compile ctx expression = .ok p → 2 * p.stepCount ≤ byteLength expression.toList) ∧
    ∀ rounds levels,
      (match scanWithin ctx rounds levels expression.toList with
      | .ok _ c => Cursor.start.Onward expression.toList c
      | .error _ c => Cursor.start.Onward expression.toList c) ∧
      (∀ c c' st, Scan.step ctx expression.toList
          (Scan.referenceWithin ctx expression.toList rounds levels) c = .ok (some st) c' →
        c.place + 2 ≤ c'.place) ∧
      (∀ c c' a, Scan.argument expression.toList
          (Scan.referenceWithin ctx expression.toList rounds levels) c = .ok a c' →
        c.place + 1 ≤ c'.place) ∧
      ∀ c around, Scan.Nested ctx expression.toList rounds levels c around →
        (∀ outer ∈ around, outer.place < c.place) ∧
          around.length ≤ (bytes expression.toList).count '@'.toUInt8 := by
  refine ⟨fun _ _ => scanWithin_answers ctx expression, fun _ => Path.stepCount_le_of_compile,
    fun rounds levels => ⟨?_, ?_, ?_, ?_⟩⟩
  · have hends := Scan.ends_scanWithin ctx rounds levels expression.toList
    generalize scanWithin ctx rounds levels expression.toList = result at hends
    cases hends with
    | ok h _ => exact h
    | error h => exact h
  · exact fun _ _ _ => Scan.step_advances (Scan.pays_referenceWithin ctx _ rounds levels)
  · exact fun _ _ _ => Scan.argument_advances (Scan.pays_referenceWithin ctx _ rounds levels)
  · intro c around h
    obtain ⟨-, houter, hmarks⟩ := h.bounds
    exact ⟨houter, Nat.le_of_add_right_le hmarks⟩

/-- Where the steps of a path ask for their first reference: they come to an end there if none can
be read. -/
def Scan.firstAsked (ctx : Context) (text : List Char) (rounds : Nat) (c : Cursor) : Cursor :=
  match steps ctx text (throw .exhausted) rounds c with
  | .ok _ d => d
  | .error _ d => d

/-- Whether the steps of a path are found. -/
def Scan.findsSteps (ctx : Context) (text : List Char) (rounds : Nat) (c : Cursor)
    (read : Scan Path) : Bool :=
  match steps ctx text read rounds c with
  | .ok _ _ => true
  | .error _ _ => false

/-- Steps that are found, but not without the reference at a certain place, ask for it. -/
theorem Scan.asksAt_of_findsSteps {ctx : Context} {text : List Char} {rounds : Nat}
    {read : Scan Path} {c d : Cursor} (h : findsSteps ctx text rounds c read = true)
    (h' : findsSteps ctx text rounds c (answering read d (.error .exhausted d)) = false) :
    AsksAt (fun read => steps ctx text read rounds) read c d := by
  refine .of_answering (.error .exhausted d) fun heq => ?_
  have hsame : findsSteps ctx text rounds c (answering read d (.error .exhausted d)) =
      findsSteps ctx text rounds c read := by
    rw [findsSteps, findsSteps, heq]
  rw [hsame, h] at h'
  cases h'

/-- A path in a path in a path, each of one step. -/
def Path.threeSteps : Path :=
  ⟨".a(has(@.b(has(@.c))))", [⟨.child (.name "a"),
    some ⟨⟨"has", [.only .path], Builtin.has⟩, false,
      [.path ⟨".b(has(@.c))", [⟨.child (.name "b"),
        some ⟨⟨"has", [.only .path], Builtin.has⟩, false,
          [.path ⟨".c", [⟨.child (.name "c"), none⟩]⟩]⟩⟩]⟩]⟩⟩]⟩

/-- The two marks of an expression of 22 bytes, and its three steps. -/
theorem compile_bounded_nested :
    compile Context.standard Path.threeSteps.source = .ok .threeSteps ∧
    2 * Path.threeSteps.stepCount ≤ byteLength Path.threeSteps.source.toList ∧
    ∃ first second : Cursor, first.place = 8 ∧ second.place = 16 ∧
      Scan.Nested Context.standard Path.threeSteps.source.toList 12 0 second
        [first, Cursor.start] ∧
      (∀ outer ∈ [first, Cursor.start], outer.place < second.place) ∧
      [first, Cursor.start].length ≤
        (bytes Path.threeSteps.source.toList).count '@'.toUInt8 := by
  have hp : compile Context.standard Path.threeSteps.source = .ok .threeSteps := rfl
  obtain ⟨-, hsteps, hscan⟩ := compile_bounded Context.standard Path.threeSteps.source
  obtain ⟨-, -, -, hnested⟩ := hscan 12 0
  have hfirst : Scan.Nested Context.standard Path.threeSteps.source.toList 12 1
      (Scan.firstAsked Context.standard Path.threeSteps.source.toList 12 Cursor.start)
      [Cursor.start] :=
    .reference .whole (Scan.asksAt_of_findsSteps (by decide +kernel) (by decide +kernel))
  have hsecond : Scan.Nested Context.standard Path.threeSteps.source.toList 12 0
      (Scan.firstAsked Context.standard Path.threeSteps.source.toList 12
        (Scan.firstAsked Context.standard Path.threeSteps.source.toList 12 Cursor.start))
      [Scan.firstAsked Context.standard Path.threeSteps.source.toList 12 Cursor.start,
        Cursor.start] :=
    .reference hfirst (Scan.asksAt_of_findsSteps (by decide +kernel) (by decide +kernel))
  obtain ⟨houter, hlength⟩ := hnested _ _ hsecond
  exact ⟨hp, hsteps _ hp, _, _, by decide +kernel, by decide +kernel, hsecond, houter, hlength⟩

end TreePath
