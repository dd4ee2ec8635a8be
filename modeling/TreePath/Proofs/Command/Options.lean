/-
**The options of a filter run, in any order.**

The arguments of the filter command are taken one after the other, and what has been seen of them is
kept as a choice of mode and perhaps a path.  This module says what a whole list of arguments means
without going through it: the last choice between the two modes counts, and of the paths the last
one that is given with its mark, or else the one that stands alone.  An argument is refused if it is
neither a mode nor a path with its mark, and starts like an option or comes after a path.

The invariant of the run is that the choices made so far are those which the arguments seen so far
would make as a whole list.

Main definitions:

* `isMode`, `isBare`, `givesPath` — what an argument is by itself;
* `Refused`, `Misused` — an argument that is refused after others, and a list that holds one;
* `chosenBatch`, `chosenPath?`, `chosenQuery` — what a list of arguments asks for.

Main results:

* `textAfter?_eq_some_iff` — an argument with a mark in front;
* `StreamQuery.ofArguments_step` — one argument more;
* `StreamQuery.ofArguments_run` — the whole list;
* `Invocation.filter_arguments` — **what the arguments of the filter command mean**.
-/

import TreePath.Command.Line
import TreePath.Proofs.Path.Recognition

set_option relaxedAutoImplicit false
set_option autoImplicit false

namespace TreePath

/-! ### Single arguments -/

/-- The text after a mark is what the mark is put in front of. -/
theorem textAfter?_eq_some_iff {mark a e : String} :
    textAfter? mark a = some e ↔ a = mark ++ e := by
  rw [textAfter?, Option.ite_none_right_eq_some, Option.some.injEq, List.isPrefixOf_iff_prefix]
  constructor
  · rintro ⟨⟨t, ht⟩, rfl⟩
    rw [← String.toList_inj, String.toList_append, String.toList_ofList, ← ht, List.drop_left]
  · rintro rfl
    rw [String.toList_append, List.drop_left, String.ofList_toList]
    exact ⟨List.prefix_append _ _, rfl⟩

/-- Whether an argument chooses between the two modes. -/
def isMode (a : String) : Bool := a == "--batch" || a == "--stream"

/-- Whether an argument is neither a mode nor a path with its mark. -/
def isBare (a : String) : Bool := !isMode a && (textAfter? "--path=" a).isNone

/-- Whether an argument starts like an option. -/
def startsOption (a : String) : Bool := a.toList.head? == some '-'

/-- Whether an argument gives a path, with its mark or alone. -/
def givesPath (a : String) : Bool :=
  (textAfter? "--path=" a).isSome || (isBare a && !startsOption a)

theorem textAfter?_of_isMode {a : String} (h : isMode a = true) :
    textAfter? "--path=" a = none := by
  rcases (by simpa [isMode] using h : a = "--batch" ∨ a = "--stream") with rfl | rfl <;> rfl

/-! ### Lists of arguments -/

/-- **An argument is refused after others**: it is neither a mode nor a path with its mark, and it
starts like an option or comes after a path. -/
def Refused (before : List String) (a : String) : Prop :=
  isBare a = true ∧ (startsOption a = true ∨ ∃ b ∈ before, givesPath b = true)

/-- One of the arguments is refused after those before it. -/
def Misused (args : List String) : Prop :=
  ∃ before a after, args = before ++ a :: after ∧ Refused before a

/-- Whether the last choice between the two modes is for writing all matches together. -/
def chosenBatch (args : List String) : Bool := (args.filter isMode).getLast? == some "--batch"

/-- The last path that is given with its mark, or else the one that stands alone. -/
def chosenPath? (args : List String) : Option String :=
  (args.filterMap (textAfter? "--path=")).getLast?.or (args.find? isBare)

/-- **What a list of arguments asks for.**  Without a path, every child of every document. -/
def chosenQuery (args : List String) : StreamQuery :=
  ⟨(chosenPath? args).getD ".*", chosenBatch args⟩

theorem not_misused_nil : ¬Misused [] := by
  rintro ⟨before, a, after, h, -⟩
  simp at h

theorem misused_append_singleton_iff {seen : List String} {a : String} :
    Misused (seen ++ [a]) ↔ Misused seen ∨ Refused seen a := by
  constructor
  · rintro ⟨before, b, after, h, hb⟩
    rcases List.eq_nil_or_concat after with rfl | ⟨after, c, rfl⟩
    · obtain ⟨rfl, hab⟩ := List.append_inj' h rfl
      cases hab
      exact .inr hb
    · rw [List.concat_eq_append, ← List.cons_append, ← List.append_assoc] at h
      exact .inl ⟨before, b, after, (List.append_inj' h rfl).1, hb⟩
  · rintro (⟨before, b, after, rfl, hb⟩ | ha)
    · exact ⟨before, b, after ++ [a], by simp, hb⟩
    · exact ⟨seen, a, [], rfl, ha⟩

theorem chosenBatch_append_singleton (seen : List String) (a : String) :
    chosenBatch (seen ++ [a]) = if isMode a then a == "--batch" else chosenBatch seen := by
  cases h : isMode a <;> simp [chosenBatch, List.filter_append, h]

theorem chosenPath?_append_of_isMode (seen : List String) {a : String} (h : isMode a = true) :
    chosenPath? (seen ++ [a]) = chosenPath? seen := by
  simp [chosenPath?, List.filterMap_append, textAfter?_of_isMode h, isBare, h]

theorem chosenPath?_append_of_textAfter? (seen : List String) {a e : String}
    (h : textAfter? "--path=" a = some e) : chosenPath? (seen ++ [a]) = some e := by
  simp [chosenPath?, List.filterMap_append, h]

theorem chosenPath?_append_of_isBare {seen : List String} {a : String} (h : isBare a = true)
    (hseen : chosenPath? seen = none) : chosenPath? (seen ++ [a]) = some a := by
  have hmark : textAfter? "--path=" a = none := by simpa using (Bool.and_eq_true_iff.1 h).2
  obtain ⟨hmarks, hbare⟩ := Option.or_eq_none_iff.1 hseen
  simp [chosenPath?, List.filterMap_append, hmark, hmarks, hbare, h]

/-- A mode is never refused, and it changes nothing for the others. -/
theorem not_misused_append {seen more : List String} (h : ¬Misused seen)
    (hmore : ∀ a ∈ more, isMode a = true) : ¬Misused (seen ++ more) := by
  induction more generalizing seen with
  | nil => rwa [List.append_nil]
  | cons a more ih =>
      obtain ⟨ha, hmore⟩ := List.forall_mem_cons.1 hmore
      have hbare : isBare a = false := by simp [isBare, ha]
      rw [List.append_cons]
      refine ih (fun hmisused => ?_) hmore
      rcases misused_append_singleton_iff.1 hmisused with hseen | hrefused
      · exact h hseen
      · exact absurd hrefused.1 (by simp [hbare])

/-- As long as no argument is refused, a path is chosen exactly when one has been given. -/
theorem chosenPath?_eq_none_iff {seen : List String} (h : ¬Misused seen) :
    chosenPath? seen = none ↔ ∀ b ∈ seen, givesPath b = false := by
  simp only [chosenPath?, Option.or_eq_none_iff, List.getLast?_eq_none_iff,
    List.filterMap_eq_nil_iff, List.find?_eq_none, givesPath, Bool.or_eq_false_iff,
    Option.isSome_eq_false_iff, Option.isNone_iff_eq_none]
  constructor
  · rintro ⟨hmark, hbare⟩ b hb
    exact ⟨hmark b hb, by simp [hbare b hb]⟩
  · refine fun hnone => ⟨fun b hb => (hnone b hb).1, fun b hb hbare => h ?_⟩
    obtain ⟨before, after, rfl⟩ := List.append_of_mem hb
    have hstarts : startsOption b = true := by simpa [hbare] using (hnone b hb).2
    exact ⟨before, b, after, rfl, hbare, .inl hstarts⟩

/-! ### Going through the arguments -/

namespace StreamQuery

/-- An argument that is refused ends the run. -/
theorem ofArguments_of_refused {seen : List String} {a : String} (hseen : ¬Misused seen)
    (h : Refused seen a) (rest : List String) :
    ofArguments (chosenBatch seen) (chosenPath? seen) (a :: rest) = .error a := by
  obtain ⟨hbare, hwhy⟩ := h
  simp only [isBare, isMode, Bool.and_eq_true, Bool.not_eq_true', Bool.or_eq_false_iff,
    beq_eq_false_iff_ne, Option.isNone_iff_eq_none] at hbare
  obtain ⟨⟨hbatch, hstream⟩, hmark⟩ := hbare
  rw [ofArguments, if_neg hbatch, if_neg hstream, hmark]
  refine if_neg ?_
  rintro ⟨hstarts, hnone⟩
  rcases hwhy with hoption | ⟨b, hb, hpath⟩
  · exact hstarts (by simpa [startsOption] using hoption)
  · rw [(chosenPath?_eq_none_iff hseen).1 hnone b hb] at hpath
    cases hpath

/-- **One argument more**: the choices after it are those of all the arguments seen. -/
theorem ofArguments_step {seen : List String} {a : String} (hseen : ¬Misused seen)
    (h : ¬Refused seen a) (rest : List String) :
    ofArguments (chosenBatch seen) (chosenPath? seen) (a :: rest) =
      ofArguments (chosenBatch (seen ++ [a])) (chosenPath? (seen ++ [a])) rest := by
  rw [ofArguments, chosenBatch_append_singleton]
  cases hmode : isMode a with
  | true =>
      rw [chosenPath?_append_of_isMode seen hmode, if_pos rfl]
      rcases (by simpa [isMode] using hmode : a = "--batch" ∨ a = "--stream") with rfl | rfl <;> rfl
  | false =>
      obtain ⟨hbatch, hstream⟩ : a ≠ "--batch" ∧ a ≠ "--stream" := by simpa [isMode] using hmode
      rw [if_neg hbatch, if_neg hstream, if_neg Bool.false_ne_true]
      cases hmark : textAfter? "--path=" a with
      | some e => rw [chosenPath?_append_of_textAfter? seen hmark]
      | none =>
          have hbare : isBare a = true := by simp [isBare, hmode, hmark]
          obtain ⟨hstarts, hgiven⟩ := not_or.1 fun hwhy => h ⟨hbare, hwhy⟩
          have hnone : chosenPath? seen = none :=
            (chosenPath?_eq_none_iff hseen).2 fun b hb => by
              simpa using fun hpath => hgiven ⟨b, hb, hpath⟩
          rw [chosenPath?_append_of_isBare hbare hnone]
          exact if_pos ⟨by simpa [startsOption] using hstarts, hnone⟩

/-- **The whole list**: the first argument that is refused ends the run, and without one the choices
of the list are those of the run. -/
theorem ofArguments_run {seen : List String} (hseen : ¬Misused seen) (rest : List String) :
    (∃ before a after, rest = before ++ a :: after ∧ ¬Misused (seen ++ before) ∧
      Refused (seen ++ before) a ∧
      ofArguments (chosenBatch seen) (chosenPath? seen) rest = .error a) ∨
    (¬Misused (seen ++ rest) ∧
      ofArguments (chosenBatch seen) (chosenPath? seen) rest =
        .ok (chosenQuery (seen ++ rest))) := by
  induction rest generalizing seen with
  | nil => exact .inr ⟨by rwa [List.append_nil], by rw [List.append_nil]; rfl⟩
  | cons a rest ih =>
      by_cases ha : Refused seen a
      · exact .inl ⟨[], a, rest, rfl, by rwa [List.append_nil], by rwa [List.append_nil],
          ofArguments_of_refused hseen ha rest⟩
      · have hmore : ¬Misused (seen ++ [a]) := fun h =>
          (misused_append_singleton_iff.1 h).elim hseen ha
        rw [ofArguments_step hseen ha]
        rcases ih hmore with ⟨before, b, after, rfl, hbefore, hb, herror⟩ | hok
        · exact .inl ⟨a :: before, b, after, rfl, by simpa using hbefore, by simpa using hb, herror⟩
        · exact .inr (by simpa using hok)

end StreamQuery

/-! ### What the command does -/

/-- A path that compiles starts with a step, so it does not look like an option. -/
theorem not_startsOption_of_compile {ctx : Context} {expression : String} {p : Path}
    (h : compile ctx expression = .ok p) : startsOption expression = false := by
  have hpath := compile_eq_ok_iff.1 h
  rw [startsOption]
  generalize expression.toList = s at hpath
  obtain ⟨hsteps, nonempty⟩ := hpath
  cases hsteps with
  | nil => exact absurd rfl nonempty
  | @cons _ t _ _ hstep _ =>
      have hstarts := hstep.startsStep_append t
      rw [Reading.startsStep, Bool.or_eq_true, beq_iff_eq, beq_iff_eq] at hstarts
      rcases hstarts with hhead | hhead <;> rw [hhead] <;> rfl

/-- An argument that does not start like an option is neither a mode nor a path with its mark. -/
theorem isBare_of_not_startsOption {a : String} (h : startsOption a = false) :
    isBare a = true := by
  have hmode : isMode a = false := by
    refine Bool.eq_false_iff.2 fun hmode => ?_
    rcases (by simpa [isMode] using hmode : a = "--batch" ∨ a = "--stream") with rfl | rfl <;>
      exact absurd h (by decide)
  have hmark : textAfter? "--path=" a = none := by
    refine Option.eq_none_iff_forall_ne_some.2 fun e he => ?_
    rw [textAfter?_eq_some_iff.1 he, startsOption, String.toList_append] at h
    exact absurd h (by simp)
  simp [isBare, hmode, hmark]

/-- An argument that is alone among modes is not refused, unless it starts like an option, and it is
the path that is chosen. -/
theorem chosenQuery_of_modes {e : String} (h : startsOption e = false) {before after : List String}
    (hbefore : ∀ a ∈ before, isMode a = true) (hafter : ∀ a ∈ after, isMode a = true) :
    ¬Misused (before ++ e :: after) ∧
      chosenQuery (before ++ e :: after) = ⟨e, chosenBatch (before ++ after)⟩ := by
  have hbare := isBare_of_not_startsOption h
  obtain ⟨hmode, hmark⟩ : isMode e = false ∧ textAfter? "--path=" e = none := by
    simpa [isBare] using hbare
  have hmarks : ∀ {as : List String}, (∀ a ∈ as, isMode a = true) →
      as.filterMap (textAfter? "--path=") = [] := fun has =>
    List.filterMap_eq_nil_iff.2 fun a ha => textAfter?_of_isMode (has a ha)
  have hnone : before.find? isBare = none :=
    List.find?_eq_none.2 fun a ha => by simp [isBare, hbefore a ha]
  constructor
  · rw [List.append_cons]
    refine not_misused_append (fun hmisused => ?_) hafter
    rcases misused_append_singleton_iff.1 hmisused with hseen | ⟨-, hwhy⟩
    · exact not_misused_append not_misused_nil hbefore hseen
    · rcases hwhy with hstarts | ⟨b, hb, hpath⟩
      · exact absurd hstarts (by simp [h])
      · exact absurd hpath (by simp [givesPath, isBare, hbefore b hb,
          textAfter?_of_isMode (hbefore b hb)])
  · have hpath : chosenPath? (before ++ e :: after) = some e := by
      simp [chosenPath?, List.filterMap_append, hmarks hbefore, hmarks hafter, hmark, hnone, hbare]
    have hbatch : chosenBatch (before ++ e :: after) = chosenBatch (before ++ after) := by
      simp [chosenBatch, List.filter_append, hmode]
    rw [chosenQuery, hpath, hbatch]
    rfl

namespace Invocation

theorem ofArguments_filter (args : List String) : ofArguments ("filter" :: args) =
    match StreamQuery.ofArguments (chosenBatch []) (chosenPath? []) args with
    | .ok query => .filter query
    | .error a => .filterMisuse a := rfl

/-- The first argument that is refused is the one that is reported. -/
theorem exists_of_misused {args : List String} (h : Misused args) :
    ∃ before a after, args = before ++ a :: after ∧ ¬Misused before ∧ Refused before a ∧
      ofArguments ("filter" :: args) = .filterMisuse a := by
  rcases StreamQuery.ofArguments_run not_misused_nil args with
    ⟨before, a, after, hargs, hbefore, ha, herror⟩ | ⟨hnot, -⟩
  · exact ⟨before, a, after, hargs, hbefore, ha, by rw [ofArguments_filter, herror]⟩
  · exact absurd h hnot

theorem ofArguments_filter_of_not_misused {args : List String} (h : ¬Misused args) :
    ofArguments ("filter" :: args) = .filter (chosenQuery args) := by
  rcases StreamQuery.ofArguments_run not_misused_nil args with
    ⟨before, a, after, rfl, -, ha, -⟩ | ⟨-, hok⟩
  · exact absurd ⟨before, a, after, rfl, ha⟩ h
  · rw [ofArguments_filter, hok]
    rfl

theorem misused_of_filterMisuse {args : List String} {a : String}
    (h : ofArguments ("filter" :: args) = .filterMisuse a) : Misused args := by
  by_contra hnot
  rw [ofArguments_filter_of_not_misused hnot] at h
  cases h

/-- **What the arguments of the filter command mean.**  They are refused exactly when one of them is
neither a mode nor a path with its mark and either starts like an option or comes after a path: the
first such argument is reported, and nothing is written to standard output, whatever the input.
Otherwise the program does what the query does that the list asks for, and its exit code tells
whether that run succeeds; a failure is reported in words that are its own but for those of the
reader of documents.  And an expression that compiles, alone among any modes, is the path of that
query: it is never taken for an option. -/
theorem filter_arguments (args : List String) :
    ((∃ a, ofArguments ("filter" :: args) = .filterMisuse a) ↔ Misused args) ∧
    (∀ a, ofArguments ("filter" :: args) = .filterMisuse a →
      (∃ before after, args = before ++ a :: after ∧ ¬Misused before ∧ Refused before a) ∧
      ∀ remarks stdin files, (ofArguments ("filter" :: args)).run remarks stdin files =
        ⟨1, "", misuseLine a ++ filterUsageText, files⟩) ∧
    (¬Misused args → ∀ remarks stdin files,
      let run := (chosenQuery args).run stdin
      let exit := (ofArguments ("filter" :: args)).run remarks stdin files
      exit.stdout = run.output ∧ exit.files = files ∧
        match run.result with
        | .ok _ => exit.code = 0 ∧ exit.stderr = ""
        | .error e => exit.code = 1 ∧ exit.stderr = errorLine (e.message remarks)) ∧
    ∀ (expression : String) (p : Path) (before after : List String),
      compile commandContext expression = .ok p →
      (∀ a ∈ before ++ after, a = "--batch" ∨ a = "--stream") →
      args = before ++ expression :: after →
      ¬Misused args ∧ chosenQuery args = ⟨expression, chosenBatch (before ++ after)⟩ := by
  refine ⟨⟨?_, fun h => ?_⟩, fun a ha => ?_, fun h remarks stdin files => ?_, ?_⟩
  · rintro ⟨a, ha⟩
    exact misused_of_filterMisuse ha
  · obtain ⟨_, a, _, _, _, _, ha⟩ := exists_of_misused h
    exact ⟨a, ha⟩
  · obtain ⟨before, b, after, hargs, hbefore, hb, hmisuse⟩ :=
      exists_of_misused (misused_of_filterMisuse ha)
    obtain rfl : a = b := Invocation.filterMisuse.inj (ha.symm.trans hmisuse)
    exact ⟨⟨before, after, hargs, hbefore, hb⟩, fun remarks stdin files => by rw [ha]; rfl⟩
  · simp only [ofArguments_filter_of_not_misused h, run]
    cases hrun : ((chosenQuery args).run stdin).result with
    | ok counts => simp only [and_self]
    | error e => simp only [and_self]
  · rintro expression p before after hp hmodes rfl
    have hmode : ∀ a ∈ before ++ after, isMode a = true := fun a ha => by
      simpa [isMode] using hmodes a ha
    rw [List.forall_mem_append] at hmode
    exact chosenQuery_of_modes (not_startsOption_of_compile hp) hmode.1 hmode.2

/-- A path with its mark after one without, a second path without a mark, and a path among modes. -/
theorem filter_arguments_mixed :
    let mixed := [".a", "--batch", "--path=.b", "--stream", "--path=.c", "--batch"]
    let double := ["--batch", ".a", "--stream", ".b"]
    let p : Path := ⟨".a", [⟨.child (.name "a"), none⟩]⟩
    (¬Misused mixed ∧ chosenQuery mixed = ⟨".c", true⟩ ∧
      ∀ remarks stdin files, ((ofArguments ("filter" :: mixed)).run remarks stdin files).stdout =
        (StreamQuery.run ⟨".c", true⟩ stdin).output) ∧
    (ofArguments ("filter" :: double) = .filterMisuse ".b" ∧ Misused double ∧
      ∀ remarks stdin files, (ofArguments ("filter" :: double)).run remarks stdin files =
        ⟨1, "", misuseLine ".b" ++ filterUsageText, files⟩) ∧
    (compile commandContext ".a" = .ok p ∧
      chosenQuery ["--stream", ".a", "--batch", "--stream"] = ⟨".a", false⟩) := by
  intro mixed double p
  have hmixed : ofArguments ("filter" :: mixed) = .filter ⟨".c", true⟩ := rfl
  have hdouble : ofArguments ("filter" :: double) = .filterMisuse ".b" := rfl
  obtain ⟨hiff, -, hrun, -⟩ := filter_arguments mixed
  obtain ⟨hiff', hreport, -, -⟩ := filter_arguments double
  obtain ⟨-, -, -, halone⟩ := filter_arguments ["--stream", ".a", "--batch", "--stream"]
  have hnot : ¬Misused mixed := fun h => by
    obtain ⟨a, ha⟩ := hiff.2 h
    rw [hmixed] at ha
    cases ha
  have hp : compile commandContext ".a" = .ok p := rfl
  refine ⟨⟨hnot, rfl, fun remarks stdin files => (hrun hnot remarks stdin files).1⟩,
    ⟨hdouble, hiff'.1 ⟨_, hdouble⟩, (hreport _ hdouble).2⟩, hp, ?_⟩
  exact (halone ".a" p ["--stream"] ["--batch", "--stream"] hp (by decide) rfl).2

end Invocation

end TreePath
