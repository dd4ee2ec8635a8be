/-
**Where a step can come.**

Reading an expression from left to right, a step can come at its beginning, after other steps, or
after the mark `@` of a path in a filter and some steps of that path.  `StepPlace ctx s` says that
the text `s` has been read and a step can come next: all that `s` holds of paths, filters and
arguments is as the grammar wants it, but it need not be complete, for the filters around the place
are still open.  Nothing is asked of what comes after `s`.

What is read at such a place is what would be read there in any other expression: a fault inside of
the steps at a place is the fault of the whole expression.

Main definitions:

* `ArgumentsFront` — arguments that have been read, up to the place of the next one;
* `StepPlace` — a text after which a step can come;
* `ArgumentPlace`, `FilterPlace` — places in the arguments of a call and in a filter.

Main results:

* `Reading.filter_of_callText`, `Reading.exists_callText` — the start of a filter is read;
* `StepPlace.whole_eq_fault_of_steps`, `StepPlace.whole_eq_fault` — **a fault at a place**, of the
  steps there or of the first of them, is the fault of the whole text;
* `StepPlace.openMark_eq_none` — no place is inside of a text in quotes.
-/

import TreePath.Proofs.Path.Nesting
import TreePath.Proofs.Path.Quotes
import TreePath.Proofs.Path.Recognition

set_option relaxedAutoImplicit false
set_option autoImplicit false

namespace TreePath

/-! ### Places -/

/-- Arguments that have been read, each with a comma after it, up to the place of the next one.  The
signature has been used up to its part that is given second. -/
inductive ArgumentsFront (R : List Char → Path → Prop) :
    List KindSet → List KindSet → List Char → Prop
  | spaces {signature : List KindSet} {sp : List Char} (hsp : IsSpaces sp) :
      ArgumentsFront R signature signature sp
  | cons {accepted : KindSet} {signature rest : List KindSet} {sp s after t : List Char}
      {a : Argument} (hsp : IsSpaces sp) (h : ArgumentText R s a)
      (hkind : accepted.intersects (.only a.kind) = true) (hafter : IsSpaces after)
      (hrest : ArgumentsFront R signature rest t) :
      ArgumentsFront R (accepted :: signature) rest (sp ++ (s ++ (after ++ ',' :: t)))

/-- **A text after which a step can come**: after some steps, or at such a place inside of a path
among the arguments of a filter.  The condition of the filter is known and takes an argument there,
but it need not accept a path. -/
inductive StepPlace (ctx : Context) : List Char → Prop
  | next {s : List Char} {sts : List Step} (h : StepsText ctx (PathText ctx) s sts) :
      StepPlace ctx s
  | nested {s u call name args inner : List Char} {sts : List Step} {t : Target} {c : Condition}
      {accepted : KindSet} {rest : List KindSet} (hsteps : StepsText ctx (PathText ctx) s sts)
      (htarget : TargetText ctx u t) (hcall : CallText call name)
      (registered : ctx.find? (String.ofList name) = some c)
      (hargs : ArgumentsFront (PathText ctx) c.signature (accepted :: rest) args)
      (hinner : StepPlace ctx inner) : StepPlace ctx (s ++ (u ++ (call ++ (args ++ '@' :: inner))))

/-- A place after a step, given one without it. -/
theorem StepPlace.cons {ctx : Context} {s t : List Char} {st : Step}
    (h : StepText ctx (PathText ctx) s st) (ht : StepPlace ctx t) : StepPlace ctx (s ++ t) := by
  cases ht with
  | next hsteps => exact .next (.cons h hsteps)
  | nested hsteps htarget hcall registered hargs hinner =>
      rw [← List.append_assoc]
      exact .nested (.cons h hsteps) htarget hcall registered hargs hinner

/-! ### Places in a filter -/

/-- A place in the arguments of a call, from which on they have the signature. -/
def ArgumentPlace (ctx : Context) (signature : List KindSet) (a : List Char) : Prop :=
  ∃ args inner accepted rest, a = args ++ '@' :: inner ∧
    ArgumentsFront (PathText ctx) signature (accepted :: rest) args ∧ StepPlace ctx inner

/-- A place in a filter. -/
def FilterPlace (ctx : Context) (a : List Char) : Prop :=
  ∃ call name c args, a = call ++ args ∧ CallText call name ∧
    ctx.find? (String.ofList name) = some c ∧ ArgumentPlace ctx c.signature args

theorem ArgumentPlace.cons {ctx : Context} {accepted : KindSet} {signature : List KindSet}
    {sp s after t : List Char} {a : Argument} (hsp : IsSpaces sp)
    (h : ArgumentText (PathText ctx) s a)
    (hkind : accepted.intersects (.only a.kind) = true) (hafter : IsSpaces after)
    (ht : ArgumentPlace ctx signature t) :
    ArgumentPlace ctx (accepted :: signature) (sp ++ (s ++ (after ++ ',' :: t))) := by
  obtain ⟨args, inner, accepted', rest, rfl, hargs, hinner⟩ := ht
  refine ⟨_, inner, accepted', rest, ?_, .cons hsp h hkind hafter hargs, hinner⟩
  simp

/-- A place in the filter of a step. -/
theorem FilterPlace.stepPlace {ctx : Context} {u a : List Char} {t : Target} (h : FilterPlace ctx a)
    (ht : TargetText ctx u t) : StepPlace ctx (u ++ a) := by
  obtain ⟨call, name, c, _, rfl, hcall, registered, args, inner, _, _, rfl, hargs, hinner⟩ := h
  exact .nested .nil ht hcall registered hargs hinner

/-! ### Reading up to a place -/

theorem ArgumentsFront.imp {R R' : List Char → Path → Prop} {n : Nat}
    (hR : ∀ s p, s.count '@' < n → R s p → R' s p) {signature rest : List KindSet} {s : List Char}
    (h : ArgumentsFront R signature rest s) (hs : s.count '@' ≤ n) :
    ArgumentsFront R' signature rest s := by
  induction h with
  | spaces hsp => exact .spaces hsp
  | cons hsp h hkind hafter _ ih =>
      simp only [List.count_append, List.count_cons] at hs
      exact .cons hsp (h.imp hR (by omega)) hkind hafter (ih (by omega))

/-- Before a path some argument comes, so the list of arguments is not closed there. -/
theorem ArgumentsFront.stops {R : List Char → Path → Prop} {signature rest : List KindSet}
    {args : List Char} (h : ArgumentsFront R signature rest args) (s : List Char) :
    Stops (· == ')') (skipSpaces (args ++ '@' :: s)) := by
  cases h with
  | spaces hsp =>
      rw [hsp.skipSpaces_append, skipSpaces_of_stops (by simp)]
      simp
  | cons hsp ha _ _ _ =>
      rw [List.append_assoc, hsp.skipSpaces_append, List.append_assoc,
        skipSpaces_of_stops (ha.stops_space _)]
      exact Stops.imp (ha.stops _) fun c hc => by simp [show (c == ')') = true from hc]

namespace Reading

variable {ctx : Context} {reference : List Char → Reading Path} {R : List Char → Path → Prop}

theorem argument_mark (s : List Char) :
    argument reference ('@' :: s) = (reference s).map .path := by
  rw [argument, if_pos rfl]

/-- A fault in a path is the fault of the arguments among which it stands. -/
theorem arguments_of_front (hcomplete : Complete reference R PathEnd)
    {signature rest : List KindSet} {accepted : KindSet} {args : List Char}
    (h : ArgumentsFront R signature (accepted :: rest) args) {s t : List Char} {cause : Cause}
    (hfault : reference s = fault t cause) (c : Condition) (place : Nat) :
    arguments reference c place signature (args ++ '@' :: s) = fault t cause := by
  generalize hrest : accepted :: rest = left at h
  induction h generalizing place with
  | spaces hsp =>
      subst hrest
      rw [arguments, hsp.skipSpaces_append, skipSpaces_of_stops (by simp), argument_mark, hfault]
      rfl
  | @cons _ _ _ sp u after v a hsp ha hkind hafter _ ih =>
      have hend : ArgumentEnd (after ++ ',' :: (v ++ '@' :: s)) :=
        hafter.argumentEnd_append ⟨_, _, rfl, Or.inr (Or.inl rfl)⟩
      have hcomma : skipSpaces (',' :: (v ++ '@' :: s)) = ',' :: (v ++ '@' :: s) :=
        skipSpaces_of_stops (by simp)
      simp only [List.append_assoc, List.cons_append]
      rw [arguments, hsp.skipSpaces_append, skipSpaces_of_stops (ha.stops_space _),
        argument_complete hcomplete ha hend, andThen_found, if_pos hkind, hafter.skipSpaces_append,
        hcomma]
      simp only [ih (place + 1) hrest, map_fault]

theorem argumentList_of_front (hcomplete : Complete reference R PathEnd) {c : Condition}
    {rest : List KindSet} {accepted : KindSet} {args : List Char}
    (h : ArgumentsFront R c.signature (accepted :: rest) args) {s t : List Char} {cause : Cause}
    (hfault : reference s = fault t cause) :
    argumentList reference c (args ++ '@' :: s) = fault t cause := by
  have hhead : (skipSpaces (args ++ '@' :: s)).head? ≠ some ')' := by
    intro hsome
    have hstop := h.stops s ')' hsome
    cases hstop
  rw [argumentList, if_neg hhead, arguments_of_front hcomplete h hfault c 0]
  rfl

/-- **The start of a filter is read**, up to the arguments. -/
theorem filter_of_callText (reference : List Char → Reading Path) {call name : List Char}
    (h : CallText call name) {c : Condition}
    (registered : ctx.find? (String.ofList name) = some c) (rest : List Char) :
    ∃ negated, filter ctx reference (call ++ rest) =
      ((argumentList reference c rest).andThen fun as rest => (char ')' rest).andThen fun _ rest =>
        (char ')' (skipSpaces rest)).map fun _ => Filter.mk c negated as).map some := by
  cases h with
  | @mk sp₁ sp₂ sp₃ mark name negated hsp₁ hmark hsp₂ hname hsp₃ =>
      have hopen : skipSpaces (sp₃ ++ '(' :: rest) = '(' :: rest := by
        rw [hsp₃.skipSpaces_append]
        exact skipSpaces_of_stops (by simp)
      have hfront : Stops (fun c => c == ' ' || c == '!') (name ++ (sp₃ ++ '(' :: rest)) := by
        refine stops_append_of_ne_nil hname.1 hname.isNameChar fun d hd => ?_
        rw [Bool.eq_false_iff]
        intro hd'
        rcases (by simpa using hd' : d = ' ' ∨ d = '!') with rfl | rfl <;>
          exact absurd hd (by decide)
      have hspan : spanName (name ++ (sp₃ ++ '(' :: rest)) = (name, sp₃ ++ '(' :: rest) :=
        hname.spanName_append (hsp₃.stops_append (by decide) (by simp; decide))
      have hcondition : conditionName ctx (name ++ (sp₃ ++ '(' :: rest)) =
          found c (sp₃ ++ '(' :: rest) := by
        rw [conditionName_eq_found_iff, hspan]
        exact ⟨hname.1, registered, rfl⟩
      obtain ⟨hnegated, hskip⟩ := takeNegation_append hmark hsp₁ hsp₂ hfront
      refine ⟨negated, ?_⟩
      simp only [List.cons_append, List.append_assoc, List.nil_append]
      rw [filter, Reading.call]
      simp only [hnegated, hskip, hcondition, andThen_found, hopen, char, if_true]

/-- **The text of the start of a filter**, given that its parts are read one after the other. -/
theorem exists_callText {s r₁ r₂ : List Char} {c : Condition} {u : Unit}
    (hcondition : conditionName ctx (skipSpaces (takeNegation (skipSpaces s)).2) = found c r₁)
    (hopen : char '(' (skipSpaces r₁) = found u r₂) :
    ∃ call name, '(' :: s = call ++ r₂ ∧ CallText call name ∧
      ctx.find? (String.ofList name) = some c := by
  obtain ⟨sp₁, hsp₁, hs⟩ := exists_skipSpaces s
  obtain ⟨mark, hmark, hs₁⟩ := exists_takeNegation (skipSpaces s)
  generalize takeNegation (skipSpaces s) = taken at hcondition hmark hs₁
  obtain ⟨sp₂, hsp₂, hs₂⟩ := exists_skipSpaces taken.2
  obtain ⟨hname, hfind, hs₃⟩ := conditionName_eq_found_iff.1 hcondition
  have hspan := spanName_append (skipSpaces taken.2)
  obtain ⟨sp₃, hsp₃, hs₄⟩ := exists_skipSpaces r₁
  rw [char_eq_found_iff] at hopen
  refine ⟨_, _, ?_, .mk hsp₁ hmark hsp₂ (isName_spanName hname) hsp₃, hfind⟩
  -- The text, put together again from its parts in the order in which they are read.
  rw [hopen] at hs₄
  rw [hs₃, hs₄] at hspan
  rw [← hspan] at hs₂
  rw [hs₂] at hs₁
  rw [hs₁] at hs
  simpa using congrArg ('(' :: ·) hs

/-- A fault in the first step is the fault of all of them. -/
theorem steps_of_step_eq_fault {s t : List Char} {cause : Cause} (hstarts : startsStep s = true)
    (hstep : step ctx reference s = fault t cause) {count : Nat} (hcount : s.length ≤ count) :
    steps ctx reference count s = fault t cause := by
  have hpositive := length_pos_of_startsStep hstarts
  obtain ⟨count, rfl⟩ : ∃ k, count = k + 1 := ⟨count - 1, by omega⟩
  rw [steps, if_pos hstarts, hstep]
  rfl

/-- A fault in what comes after some steps is the fault of all of them, if as many may be read. -/
theorem steps_eq_fault {a s t : List Char} {sts : List Step} {cause : Cause} {depth count : Nat}
    (hsteps : StepsText ctx (PathText ctx) a sts) (hstarts : startsStep s = true)
    (hfault : ∀ count, s.length ≤ count →
      steps ctx (Reading.reference ctx depth) count s = fault t cause)
    (hdepth : (a ++ s).count '@' ≤ depth) (hcount : (a ++ s).length ≤ count) :
    steps ctx (Reading.reference ctx depth) count (a ++ s) = fault t cause := by
  have hlength := hsteps.length_le
  rw [List.length_append] at hcount
  rw [List.count_append] at hdepth
  obtain ⟨more, rfl⟩ : ∃ more, count = sts.length + more := ⟨count - sts.length, by omega⟩
  rw [steps_append (reference_complete depth) (hsteps.nested_count_lt (by omega))
    (stepEnd_of_startsStep hstarts), hfault more (by omega)]
  rfl

end Reading

theorem CallText.stops_name {call name : List Char} (h : CallText call name) (rest : List Char) :
    Stops isNameChar (call ++ rest) := by
  cases h
  rw [List.cons_append, stops_cons]
  decide

open Reading in
/-- **A fault of the steps at a place is the fault of the steps around them.** -/
theorem StepPlace.steps_eq_fault {ctx : Context} {a s t : List Char} {cause : Cause}
    (ha : StepPlace ctx a) (hstarts : startsStep s = true)
    (hfault : ∀ depth count, s.count '@' ≤ depth → s.length ≤ count →
      steps ctx (reference ctx depth) count s = fault t cause)
    {depth count : Nat} (hdepth : (a ++ s).count '@' ≤ depth) (hcount : (a ++ s).length ≤ count) :
    steps ctx (reference ctx depth) count (a ++ s) = fault t cause := by
  induction ha generalizing depth count with
  | next hsteps =>
      refine Reading.steps_eq_fault hsteps hstarts (fun more => hfault depth more ?_) hdepth hcount
      rw [List.count_append] at hdepth
      omega
  | @nested b u call name args inner sts target c accepted rest hsteps htarget hcall registered
      hargs _ ih =>
      simp only [List.append_assoc, List.cons_append] at hdepth hcount ⊢
      have hmarks := hdepth
      simp only [List.count_append, List.count_cons_self] at hmarks
      obtain ⟨depth, rfl⟩ : ∃ d, depth = d + 1 := ⟨depth - 1, by omega⟩
      have hinner : reference ctx (depth + 1) (inner ++ s) = fault t cause := by
        rw [reference, ih (by rw [List.count_append]; omega) (Nat.le_refl _)]
        rfl
      have hcomplete := @reference_complete ctx (depth + 1)
      have hfront : ArgumentsFront (fun s p => PathText ctx s p ∧ s.count '@' < depth + 1)
          c.signature (accepted :: rest) args :=
        hargs.imp (fun _ _ hlt hp => ⟨hp, hlt⟩) (by omega)
      obtain ⟨negated, hfilter⟩ := filter_of_callText (reference ctx (depth + 1)) hcall registered
        (args ++ '@' :: (inner ++ s))
      have hstep := htarget.startsStep_append (call ++ (args ++ '@' :: (inner ++ s)))
      refine Reading.steps_eq_fault hsteps hstep (fun more => steps_of_step_eq_fault hstep ?_)
        hdepth hcount
      rw [step, target_complete htarget (hcall.stops_name _), andThen_found, hfilter,
        argumentList_of_front hcomplete hfront hinner]
      rfl

/-- The offset of the rest of a text is the length of what stands before it. -/
theorem byteLength_append_sub (s t : List Char) :
    byteLength (s ++ t) - byteLength t = byteLength s := by
  simp only [byteLength, total_append, Nat.add_sub_cancel]

/-- **A fault at a place is the fault of the whole text.** -/
theorem StepPlace.whole_eq_fault_of_steps {ctx : Context} {a s t : List Char} {cause : Cause}
    (ha : StepPlace ctx a) (hstarts : Reading.startsStep s = true)
    (hfault : ∀ depth count, s.count '@' ≤ depth → s.length ≤ count →
      Reading.steps ctx (Reading.reference ctx depth) count s = .fault t cause) :
    Reading.whole ctx (a ++ s) = .fault t cause := by
  rw [Reading.whole, ha.steps_eq_fault hstarts hfault (Nat.le_refl _) (Nat.le_refl _)]
  rfl

/-- A fault inside of the step at a place is the fault of the whole text. -/
theorem StepPlace.whole_eq_fault {ctx : Context} {a s t : List Char} {cause : Cause}
    (ha : StepPlace ctx a) (hstarts : Reading.startsStep s = true)
    (hfault : ∀ depth, s.count '@' ≤ depth →
      Reading.step ctx (Reading.reference ctx depth) s = .fault t cause) :
    Reading.whole ctx (a ++ s) = .fault t cause :=
  ha.whole_eq_fault_of_steps hstarts fun depth _ hdepth =>
    Reading.steps_of_step_eq_fault hstarts (hfault depth hdepth)

/-- The error of a text is the fault that reading it comes to. -/
theorem compile_eq_error {ctx : Context} {expression : String} {t : List Char} {cause : Cause}
    (hne : expression.toList ≠ []) (h : Reading.whole ctx expression.toList = .fault t cause) :
    compile ctx expression =
      .error ⟨expression, byteLength expression.toList - byteLength t, cause⟩ := by
  simp only [compile, List.isEmpty_iff, if_neg hne, h]

/-! ### Places and literals -/

theorem CallText.hasMarks {call name : List Char} (h : CallText call name) : HasMarks call 0 := by
  cases h with
  | mk hsp₁ hmark hsp₂ hname hsp₃ =>
      have hopen : HasMarks ['('] 0 := ⟨rfl, rfl⟩
      have hfront := hsp₂.hasMarks.append (hname.hasMarks.append (hsp₃.hasMarks.append hopen))
      exact (hsp₁.hasMarks.append (hmark.hasMarks.append hfront)).cons rfl

theorem ArgumentsFront.openMark_eq_none {ctx : Context} {signature rest : List KindSet}
    {s : List Char} (h : ArgumentsFront (PathText ctx) signature rest s) :
    openMark none s = none := by
  induction h with
  | spaces hsp => exact hsp.hasMarks.1
  | cons hsp h _ hafter _ ih =>
      rw [openMark_append, hsp.hasMarks.1, openMark_append,
        (h.hasMarks fun _ _ hq => hq.hasMarks).1, openMark_append, hafter.hasMarks.1]
      exact ih

/-- **No place is inside of a literal**: what is in quotes is closed there. -/
theorem StepPlace.openMark_eq_none {ctx : Context} {s : List Char} (h : StepPlace ctx s) :
    openMark none s = none := by
  induction h with
  | next h => exact (h.hasMarks fun _ _ hq => hq.hasMarks).1
  | nested hsteps htarget hcall _ hargs _ ih =>
      rw [openMark_append, (hsteps.hasMarks fun _ _ hq => hq.hasMarks).1, openMark_append,
        htarget.hasMarks.1, openMark_append, hcall.hasMarks.1, openMark_append,
        hargs.openMark_eq_none]
      exact ih

end TreePath
