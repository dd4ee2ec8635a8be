/-
**A path in a filter is the path of its own text.**

A path in a filter is read by the same reader as the expression around it, from the same text, and
it ends where no step can follow.  So it may be taken out and compiled alone, and another path may
be put in its place.  The parts of a derivation that stand around one path in a filter do not depend
on that path: they are a text with a gap after a mark `@`, and steps with a gap among the arguments
of one filter.  A path that stands deeper has several such surroundings, one inside the other.

Which text belongs to which path is settled by counting.  The paths in a path are listed in the
order of the text (`Path.references`), and the one of index `k` stands after the mark with `k` marks
before it, where marks inside of literals do not count.

Main definitions:

* `Surrounding`, with `Surrounding.text` and `Surrounding.steps` — what stands around a path in a
  filter;
* `textIn`, `pathIn` — a text and a path put into surroundings;
* `Surrounding.Fits`, `SurroundedAt` — surroundings which belong to a derivation.

Main results:

* `StepsText.exists_surrounding` — a derivation of steps, seen from one of the paths in it;
* `PathText.exists_surroundedAt` — the same for a path at any depth;
* `compile_reference` — **what is nested compiles alone**, and any other path may stand for it.
-/

import TreePath.Condition.Builtin
import TreePath.Proofs.Path.Places

set_option relaxedAutoImplicit false
set_option autoImplicit false

namespace TreePath

/-! ### Surroundings -/

/-- What stands around a path among the arguments of a filter: the rest of the text in which the
path stands, and the rest of the steps that this text denotes. -/
structure Surrounding where
  /-- The text before the mark `@`. -/
  before : List Char
  /-- The text after the path. -/
  after : List Char
  /-- The steps before the one with the filter. -/
  stepsBefore : List Step
  /-- The target of the step with the filter. -/
  target : Target
  /-- The condition of the filter. -/
  condition : Condition
  /-- Whether the condition has to fail. -/
  negated : Bool
  /-- The arguments before the path. -/
  argumentsBefore : List Argument
  /-- The arguments after the path. -/
  argumentsAfter : List Argument
  /-- The steps after the one with the filter. -/
  stepsAfter : List Step

namespace Surrounding

/-- The text with the text of a path put in. -/
def text (k : Surrounding) (t : List Char) : List Char := k.before ++ '@' :: (t ++ k.after)

/-- The steps with a path put in. -/
def steps (k : Surrounding) (q : Path) : List Step :=
  k.stepsBefore ++
    ⟨k.target, some ⟨k.condition, k.negated, k.argumentsBefore ++ .path q :: k.argumentsAfter⟩⟩ ::
      k.stepsAfter

/-- How many paths stand before the one that is put in. -/
def index (k : Surrounding) : Nat :=
  (referencesOfSteps k.stepsBefore).length + (referencesOfArguments k.argumentsBefore).length

end Surrounding

/-- A text put into surroundings, the outermost of which comes first. -/
def textIn : List Surrounding → List Char → List Char
  | [], t => t
  | k :: around, t => k.text (textIn around t)

/-- A path put into surroundings together with its text: the paths around it keep all but the path
that is put in and, in their own texts, the text of that path. -/
def pathIn : List Surrounding → List Char → Path → Path
  | [], _, q => q
  | k :: around, t, q =>
    ⟨String.ofList (textIn (k :: around) t), k.steps (pathIn around t q)⟩

/-! ### Indices in lists of paths -/

/-- An index in two lists one after the other is one in the first or, counted on, in the second. -/
theorem exists_of_getElem?_append {α : Type} {as bs : List α} {i : Nat} {a : α}
    (h : (as ++ bs)[i]? = some a) : as[i]? = some a ∨ ∃ j, i = as.length + j ∧ bs[j]? = some a := by
  rcases Nat.lt_or_ge i as.length with hi | hi
  · rw [List.getElem?_append_left hi] at h
    exact Or.inl h
  · rw [List.getElem?_append_right hi] at h
    exact Or.inr ⟨i - as.length, by omega, h⟩

/-- The path that is put in comes after as many others as its index says, and the paths inside it
come next. -/
theorem Surrounding.getElem?_references (k : Surrounding) (source : String) (r : Path) (j : Nat)
    (q : Path) (h : (r :: r.references)[j]? = some q) :
    (Path.mk source (k.steps r)).references[k.index + j]? = some q := by
  have hj : j < (r :: r.references).length := (List.getElem?_eq_some_iff.1 h).1
  have hlist : (Path.mk source (k.steps r)).references =
      (referencesOfSteps k.stepsBefore ++ referencesOfArguments k.argumentsBefore) ++
        ((r :: r.references) ++
          (referencesOfArguments k.argumentsAfter ++ referencesOfSteps k.stepsAfter)) := by
    simp [Path.references, Surrounding.steps, referencesOfSteps_append, referencesOfSteps,
      Step.references, Filter.references, referencesOfArguments_append, referencesOfArguments,
      Argument.references]
  have hindex : k.index =
      (referencesOfSteps k.stepsBefore ++ referencesOfArguments k.argumentsBefore).length := by
    rw [List.length_append, Surrounding.index]
  rw [hlist, hindex, List.getElem?_append_right (Nat.le_add_right _ _), Nat.add_sub_cancel_left,
    List.getElem?_append_left hj, h]

/-! ### A derivation, seen from a path in it -/

/-- A condition sees of its arguments only the kinds. -/
theorem Accepts.of_kinds {signature : List KindSet} {as bs : List Argument}
    (h : Accepts signature as) (hkinds : bs.map Argument.kind = as.map Argument.kind) :
    Accepts signature bs := by
  have hmap : ∀ cs : List Argument, Accepts signature cs ↔ List.Forall₂
      (fun accepted kind => accepted.intersects (.only kind) = true) signature
      (cs.map Argument.kind) := by
    intro cs
    rw [List.forall₂_map_right_iff]
    rfl
  rw [hmap, hkinds, ← hmap]
  exact h

/-- What stands around a path belongs to a derivation: its text has as many marks as there are paths
before, and the text of any path may be put in. -/
structure Surrounding.Fits (ctx : Context) (k : Surrounding) : Prop where
  /-- The marks before. -/
  marks : HasMarks k.before k.index
  /-- Any other path may be put in. -/
  fill : ∀ t r, PathText ctx t r → StepsText ctx (PathText ctx) (k.text t) (k.steps r)
  /-- A step can come after the mark. -/
  place : ∀ inner, StepPlace ctx inner → StepPlace ctx (k.before ++ '@' :: inner)

section Derivations

variable {ctx : Context}

/-- Arguments, seen from a path among them or inside of one of them. -/
theorem ArgumentsText.exists_path_at {s : List Char} {as : List Argument}
    (h : ArgumentsText (PathText ctx) s as) {i : Nat} {q : Path}
    (hi : (referencesOfArguments as)[i]? = some q) :
    ∃ before after as₁ as₂ t r j, s = before ++ '@' :: (t ++ after) ∧ as = as₁ ++ .path r :: as₂ ∧
      PathText ctx t r ∧ i = (referencesOfArguments as₁).length + j ∧
      (r :: r.references)[j]? = some q ∧ HasMarks before (referencesOfArguments as₁).length ∧
      (∀ t' r', PathText ctx t' r' →
        ArgumentsText (PathText ctx) (before ++ '@' :: (t' ++ after)) (as₁ ++ .path r' :: as₂)) ∧
      ∀ signature sp inner, IsSpaces sp → Accepts signature (as₁ ++ .path r :: as₂) →
        StepPlace ctx inner → ArgumentPlace ctx signature (sp ++ (before ++ '@' :: inner)) := by
  -- An argument in which there is a path at all is a path.
  have hargument {s : List Char} {a : Argument} (h : ArgumentText (PathText ctx) s a) {i : Nat}
      (hi : a.references[i]? = some q) : ∃ t r, s = '@' :: t ∧ a = .path r ∧ PathText ctx t r ∧
        (r :: r.references)[i]? = some q := by
    cases h with
    | @path t r hr => exact ⟨t, r, rfl, rfl, hr, hi⟩
    | _ => simp [Argument.references] at hi
  -- After the mark of the first argument a step can come.
  have hplace (r : Path) (as : List Argument) (signature : List KindSet) (sp inner : List Char)
      (hsp : IsSpaces sp) (haccepts : Accepts signature (.path r :: as))
      (hinner : StepPlace ctx inner) : ArgumentPlace ctx signature (sp ++ '@' :: inner) := by
    cases haccepts with
    | cons _ _ => exact ⟨sp, inner, _, _, rfl, .spaces hsp, hinner⟩
  induction h generalizing i with
  | @last s after a ha hafter =>
      have hi' : a.references[i]? = some q := by simpa [referencesOfArguments] using hi
      obtain ⟨t, r, rfl, rfl, hr, hq⟩ := hargument ha hi'
      refine ⟨[], after, [], [], t, r, i, rfl, rfl, hr, (Nat.zero_add i).symm, hq, hasMarks_nil, ?_,
        hplace r []⟩
      intro t' r' hr'
      have hput : ArgumentsText (PathText ctx) (('@' :: t') ++ after) [.path r'] :=
        .last (.path hr') hafter
      exact hput
  | @cons s after before u a as ha hafter hbefore hrest ih =>
      rcases exists_of_getElem?_append hi with hhere | ⟨i, rfl, hlater⟩
      · obtain ⟨t, r, rfl, rfl, hr, hq⟩ := hargument ha hhere
        refine ⟨[], after ++ ',' :: (before ++ u), [], as, t, r, i, rfl, rfl, hr,
          (Nat.zero_add i).symm, hq, hasMarks_nil, ?_, hplace r as⟩
        intro t' r' hr'
        have hput : ArgumentsText (PathText ctx) (('@' :: t') ++ (after ++ ',' :: (before ++ u)))
            (.path r' :: as) := .cons (.path hr') hafter hbefore hrest
        exact hput
      · obtain ⟨b, e, as₁, as₂, t, r, j, rfl, rfl, hr, rfl, hq, hmarks, hfill, hlast⟩ := ih hlater
        have hcomma := hafter.hasMarks.append ((hbefore.hasMarks.append hmarks).cons (c := ',') rfl)
        have hfront := (ha.hasMarks fun _ _ => PathText.hasMarks).append hcomma
        refine ⟨s ++ (after ++ ',' :: (before ++ b)), e, a :: as₁, as₂, t, r, j, by simp, rfl, hr,
          ?_, hq, ?_, ?_, ?_⟩
        · rw [referencesOfArguments, List.length_append, Nat.add_assoc]
        · rw [referencesOfArguments, List.length_append]
          simpa using hfront
        · intro t' r' hr'
          simpa using ArgumentsText.cons ha hafter hbefore (hfill t' r' hr')
        · intro signature sp inner hsp haccepts hinner
          cases haccepts with
          | cons hkind haccepts =>
              have hrest := hlast _ before inner hbefore haccepts hinner
              simpa using ArgumentPlace.cons hsp ha hkind hafter hrest

/-- A filter, seen from a path among its arguments or inside of one of them. -/
theorem FilterText.exists_path_at {s : List Char} {f : Filter}
    (h : FilterText ctx (PathText ctx) s f) {i : Nat} {q : Path} (hi : f.references[i]? = some q) :
    ∃ before after as₁ as₂ t r j, s = before ++ '@' :: (t ++ after) ∧
      f = ⟨f.condition, f.negated, as₁ ++ .path r :: as₂⟩ ∧ PathText ctx t r ∧
      i = (referencesOfArguments as₁).length + j ∧ (r :: r.references)[j]? = some q ∧
      HasMarks before (referencesOfArguments as₁).length ∧
      (∀ t' r', PathText ctx t' r' → FilterText ctx (PathText ctx) (before ++ '@' :: (t' ++ after))
        ⟨f.condition, f.negated, as₁ ++ .path r' :: as₂⟩) ∧
      ∀ inner, StepPlace ctx inner → FilterPlace ctx (before ++ '@' :: inner) := by
  cases h with
  | @mk sp₁ sp₂ sp₃ sp₄ sp₅ mark name args negated c as hsp₁ hmark hsp₂ hname hsp₃ hsp₄ hargs hsp₅
      registered accepts =>
      cases hargs with
      | empty => simp [Filter.references, referencesOfArguments] at hi
      | given hargs =>
          obtain ⟨b, e, as₁, as₂, t, r, j, rfl, rfl, hr, rfl, hq, hmarks, hfill, hplace⟩ :=
            hargs.exists_path_at hi
          have hcall := (hsp₄.hasMarks.append hmarks).cons (c := '(') rfl
          have hfront := hsp₂.hasMarks.append (hname.hasMarks.append (hsp₃.hasMarks.append hcall))
          have hfilter :=
            (hsp₁.hasMarks.append (hmark.hasMarks.append hfront)).cons (c := '(') rfl
          refine ⟨'(' :: (sp₁ ++ (mark ++ (sp₂ ++ (name ++ (sp₃ ++ '(' :: (sp₄ ++ b)))))),
            e ++ ')' :: (sp₅ ++ [')']), as₁, as₂, t, r, j, by simp, rfl, hr, rfl, hq, ?_, ?_, ?_⟩
          · simpa using hfilter
          · intro t' r' hr'
            have haccepts : Accepts c.signature (as₁ ++ .path r' :: as₂) :=
              accepts.of_kinds (by simp [Argument.kind])
            have hput := FilterText.mk hsp₁ hmark hsp₂ hname hsp₃ hsp₄ (.given (hfill t' r' hr'))
              hsp₅ registered haccepts
            simpa using hput
          · intro inner hinner
            exact ⟨_, name, c, _, by simp, .mk hsp₁ hmark hsp₂ hname hsp₃, registered,
              hplace c.signature sp₄ inner hsp₄ accepts hinner⟩

/-- **Steps, seen from a path in one of their filters**, or from one inside of it. -/
theorem StepsText.exists_surrounding {s : List Char} {sts : List Step}
    (h : StepsText ctx (PathText ctx) s sts) {i : Nat} {q : Path}
    (hi : (referencesOfSteps sts)[i]? = some q) :
    ∃ (k : Surrounding) (t : List Char) (r : Path) (j : Nat), k.Fits ctx ∧ s = k.text t ∧
      sts = k.steps r ∧ PathText ctx t r ∧ i = k.index + j ∧ (r :: r.references)[j]? = some q := by
  induction h generalizing i with
  | nil => simp [referencesOfSteps] at hi
  | @cons s u st sts hst hsts ih =>
      rcases exists_of_getElem?_append hi with hhere | ⟨i, rfl, hlater⟩
      · -- The path stands in the filter of the first step.
        cases hst with
        | plain _ => simp [Step.references] at hhere
        | @filtered s v target f htarget hf =>
            obtain ⟨b, e, as₁, as₂, t, r, j, rfl, hfilter, hr, rfl, hq, hmarks, hfill, hplace⟩ :=
              hf.exists_path_at hhere
            refine ⟨⟨s ++ b, e ++ u, [], target, f.condition, f.negated, as₁, as₂, sts⟩, t, r, j,
              ⟨?_, ?_, ?_⟩, by simp [Surrounding.text], ?_, hr, ?_, hq⟩
            · simpa [Surrounding.index, referencesOfSteps] using htarget.hasMarks.append hmarks
            · intro t' r' hr'
              have hput := StepsText.cons (.filtered htarget (hfill t' r' hr')) hsts
              simpa [Surrounding.text, Surrounding.steps] using hput
            · intro inner hinner
              simpa using (hplace inner hinner).stepPlace htarget
            · rw [Surrounding.steps, ← hfilter, List.nil_append]
            · simp [Surrounding.index, referencesOfSteps]
      · obtain ⟨k, t, r, j, hk, rfl, rfl, hr, rfl, hq⟩ := ih hlater
        refine ⟨{ k with before := s ++ k.before, stepsBefore := st :: k.stepsBefore }, t, r, j,
          ⟨?_, ?_, ?_⟩, by simp [Surrounding.text], rfl, hr, ?_, hq⟩
        · have hmarks := (hst.hasMarks fun _ _ => PathText.hasMarks).append hk.marks
          simpa [Surrounding.index, referencesOfSteps, Nat.add_assoc] using hmarks
        · intro t' r' hr'
          have hput := StepsText.cons hst (hk.fill t' r' hr')
          simpa [Surrounding.text, Surrounding.steps] using hput
        · intro inner hinner
          simpa using StepPlace.cons hst (hk.place inner hinner)
        · simp only [Surrounding.index, referencesOfSteps, List.length_append]
          omega

/-- The surroundings of a path of index `i`, with the text before its mark `@` and the text after
it. -/
structure SurroundedAt (ctx : Context) (around : List Surrounding) (before after : List Char)
    (i : Nat) : Prop where
  /-- As many marks stand before. -/
  marks : HasMarks before i
  /-- The text around. -/
  textIn_eq : ∀ t, textIn around t = before ++ '@' :: (t ++ after)
  /-- The path that is put in is the one of this index. -/
  getElem?_eq : ∀ t r, (pathIn around t r).references[i]? = some r
  /-- Any path may be put in. -/
  fill : ∀ t r, PathText ctx t r → PathText ctx (textIn around t) (pathIn around t r)
  /-- A step can come after the mark. -/
  place : ∀ inner, StepPlace ctx inner → StepPlace ctx (before ++ '@' :: inner)

/-- The surroundings of a path that stands directly in a filter. -/
theorem Surrounding.Fits.surroundedAt {k : Surrounding} (hk : k.Fits ctx) :
    SurroundedAt ctx [k] k.before k.after k.index where
  marks := hk.marks
  textIn_eq := fun _ => rfl
  getElem?_eq := fun _ r => k.getElem?_references _ r 0 r rfl
  fill := fun t r hr => .mk (hk.fill t r hr) (by simp [Surrounding.steps])
  place := hk.place

/-- The surroundings of a path in a path that stands directly in a filter. -/
theorem Surrounding.Fits.surroundedAt_cons {k : Surrounding} (hk : k.Fits ctx)
    {around : List Surrounding} {before after : List Char} {j : Nat}
    (h : SurroundedAt ctx around before after j) :
    SurroundedAt ctx (k :: around) (k.before ++ '@' :: before) (after ++ k.after)
      (k.index + (j + 1)) where
  marks := hk.marks.append h.marks.cons_mark
  textIn_eq := by
    intro t
    rw [textIn, h.textIn_eq, Surrounding.text]
    simp
  getElem?_eq := fun t r => k.getElem?_references _ _ (j + 1) r (h.getElem?_eq t r)
  fill := fun t r hr => .mk (hk.fill _ _ (h.fill t r hr)) (by simp [Surrounding.steps])
  place := by
    intro inner hinner
    simpa using hk.place _ (h.place inner hinner)

/-- **A derivation, seen from a path at any depth**: the text of the path after its mark, and what
stands around it. -/
theorem PathText.exists_surroundedAt {s : List Char} {p : Path} (h : PathText ctx s p) {i : Nat}
    {q : Path} (hi : p.references[i]? = some q) :
    ∃ around before after t, SurroundedAt ctx around before after i ∧
      s = before ++ '@' :: (t ++ after) ∧ p = pathIn around t q ∧ PathText ctx t q := by
  -- The induction is on the index, for a path inside of another comes after it.
  induction i using Nat.strongRecOn generalizing s p with
  | ind i ih =>
      cases h with
      | mk hsteps nonempty =>
          obtain ⟨k, t, r, j, hk, rfl, rfl, hr, rfl, hq⟩ := hsteps.exists_surrounding hi
          cases j with
          | zero =>
              obtain rfl := Option.some.inj hq
              exact ⟨[k], k.before, k.after, t, hk.surroundedAt, rfl, rfl, hr⟩
          | succ j =>
              obtain ⟨around, before, after, u, hat, rfl, rfl, hu⟩ := ih j (by omega) hr hq
              refine ⟨k :: around, _, _, u, hk.surroundedAt_cons hat, ?_, ?_, hu⟩
              · simp [Surrounding.text]
              · rw [pathIn, textIn, hat.textIn_eq]

/-- A path keeps its text. -/
theorem PathText.source_eq {s : List Char} {p : Path} (h : PathText ctx s p) :
    p.source = String.ofList s := by
  cases h with
  | mk _ _ => rfl

end Derivations

/-! ### Compiling what is nested -/

/-- **What is nested compiles alone, and any other path may stand for it.**  Each path in the
filters of a compiled path, at any depth, has as its source a part of the expression after a mark
`@`, namely the mark with as many marks before it as there are such paths before; and this source
compiles alone, to the same path.  And where a path `q` of source `N` stands after a mark `@`, any
text `P` that compiles may be put for `N`.  The expression then compiles to what it compiled to
before, with the path of `P` for `q` in its place, and with `P` for `N` in the sources of the paths
around it. -/
theorem compile_reference {ctx : Context} {expression : String} {p : Path}
    (hp : compile ctx expression = .ok p) :
    (∀ (k : Nat) (q : Path), p.references[k]? = some q →
      (∃ A B : String, expression = A ++ "@" ++ q.source ++ B ∧ HasMarks A.toList k) ∧
        compile ctx q.source = .ok q) ∧
    ∀ (A N B : String) (k : Nat) (q : Path), expression = A ++ "@" ++ N ++ B →
      HasMarks A.toList k → p.references[k]? = some q → q.source = N →
      ∃ around : List Surrounding, p = pathIn around N.toList q ∧
        (∀ (t : List Char) (r : Path), (pathIn around t r).references[k]? = some r) ∧
        ∀ (P : String) (r : Path), compile ctx P = .ok r →
          compile ctx (A ++ "@" ++ P ++ B) = .ok (pathIn around P.toList r) := by
  have htext := compile_eq_ok_iff.1 hp
  constructor
  · intro k q hq
    obtain ⟨around, before, after, t, hat, hs, -, ht⟩ := htext.exists_surroundedAt hq
    have hsource : q.source.toList = t := by rw [ht.source_eq, String.toList_ofList]
    refine ⟨⟨String.ofList before, String.ofList after, ?_, ?_⟩, ?_⟩
    · rw [← String.toList_inj]
      simp [hs, hsource]
    · rw [String.toList_ofList]
      exact hat.marks
    · rw [compile_eq_ok_iff, hsource]
      exact ht
  · rintro A N B k q rfl hA hq rfl
    obtain ⟨around, before, after, t, hat, hs, hpath, ht⟩ := htext.exists_surroundedAt hq
    have hsource : q.source.toList = t := by rw [ht.source_eq, String.toList_ofList]
    -- The text before the mark is known by its marks, and then the text after the path is, too.
    have hs' : A.toList ++ '@' :: (q.source.toList ++ B.toList) =
        before ++ '@' :: (t ++ after) := by
      simpa using hs
    have hbefore := hA.eq_of_append_eq hat.marks hs'
    obtain rfl : B.toList = after := by
      rw [hbefore, hsource] at hs'
      simpa using hs'
    refine ⟨around, by rw [hsource]; exact hpath, hat.getElem?_eq, ?_⟩
    intro P r hr
    have hfill := hat.fill _ _ (compile_eq_ok_iff.1 hr)
    rw [hat.textIn_eq, ← hbefore] at hfill
    rw [compile_eq_ok_iff]
    simpa using hfill

/-- The path of one key. -/
def Path.ofKeyC : Path := ⟨".c", [⟨.child (.name "c"), none⟩]⟩

/-- A path with this path two levels down, next to a literal that holds a mark. -/
def Path.twofold : Path :=
  ⟨".a(has(@.b(eq(@.c, '@'))))",
    [⟨.child (.name "a"), some ⟨⟨"has", [.only .path], Builtin.has⟩, false,
      [.path ⟨".b(eq(@.c, '@'))", [⟨.child (.name "b"),
        some ⟨⟨"eq", [.only .path, .literal], Builtin.equals⟩, false,
          [.path .ofKeyC, .string "@"]⟩⟩]⟩]⟩⟩]⟩

/-- A path two levels down, and a path with a filter of its own put in its place. -/
theorem compile_reference_nested :
    compile Context.standard ".a(has(@.b(eq(@.c, '@'))))" = .ok .twofold ∧
      Path.twofold.references[1]? = some .ofKeyC ∧ compile Context.standard ".c" = .ok .ofKeyC ∧
      ∃ r p : Path, compile Context.standard "[0](has(@.d))" = .ok r ∧
        compile Context.standard ".a(has(@.b(eq(@[0](has(@.d)), '@'))))" = .ok p ∧
        p.references[1]? = some r := by
  have hp : compile Context.standard ".a(has(@.b(eq(@.c, '@'))))" = .ok .twofold := rfl
  have hq : Path.twofold.references[1]? = some .ofKeyC := rfl
  obtain ⟨r, hr⟩ : ∃ r, compile Context.standard "[0](has(@.d))" = .ok r := ⟨_, rfl⟩
  obtain ⟨halone, hput⟩ := compile_reference hp
  obtain ⟨around, -, hreference, hcompile⟩ :=
    hput ".a(has(@.b(eq(" ".c" ", '@'))))" 1 .ofKeyC (by decide) ⟨rfl, rfl⟩ hq rfl
  have hfilled : ".a(has(@.b(eq(" ++ "@" ++ "[0](has(@.d))" ++ ", '@'))))" =
      ".a(has(@.b(eq(@[0](has(@.d)), '@'))))" := by decide
  refine ⟨hp, hq, (halone 1 _ hq).2, r, _, hr, ?_, hreference "[0](has(@.d))".toList r⟩
  rw [← hfilled]
  exact hcompile _ r hr

end TreePath
