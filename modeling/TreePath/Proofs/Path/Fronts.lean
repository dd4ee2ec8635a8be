/-
**Fronts of paths.**

A reader of texts faults at the end of a front: what stands before the fault can be completed to a
text of the kind that is read.  Words fault where they start, and an open target can be closed.  As
for calls of conditions, arguments that are missing can be given as noughts, and the parentheses can
be closed one after the other.  A nought need not be of an accepted kind, so all of this is said of
a context in which all kinds are accepted.

Main definitions:

* `IsFront` — a text that can be completed to one with a property;
* `Reading.FaultsIn` — a reading that faults at the end of a front;
* `IsCall`, `IsCallNamed`, `IsCallFrom`, `IsCallArguments`, `IsCallEnd` — what a call is, from each
  of its parts on.

Main results:

* `Reading.FaultsIn.behind`, `Reading.FaultsIn.andThen` — **reading on**;
* `Reading.faultsIn_range`, `Reading.faultsIn_target` — targets;
* `IsArgumentList.isFront` — **arguments that are missing** can be given;
* `IsCall.filterText` — a call behind a parenthesis is a filter.
-/

import TreePath.Proofs.Path.Remainders
import TreePath.Proofs.Path.Widening

set_option relaxedAutoImplicit false
set_option autoImplicit false

namespace TreePath

/-! ### Fronts -/

/-- A text that can be completed to one with a property. -/
def IsFront (L : List Char → Prop) (s : List Char) : Prop := ∃ t, L (s ++ t)

theorem isFront_of {L : List Char → Prop} {s : List Char} (h : L s) : IsFront L s :=
  ⟨[], by rwa [List.append_nil]⟩

/-- A front of a front is a front. -/
theorem IsFront.of_append {L : List Char → Prop} {s t : List Char} (h : IsFront L (s ++ t)) :
    IsFront L s := by
  obtain ⟨u, hu⟩ := h
  rw [List.append_assoc] at hu
  exact ⟨t ++ u, hu⟩

/-- A text behind spaces. -/
def Spaced (L : List Char → Prop) (s : List Char) : Prop :=
  ∃ sp t, s = sp ++ t ∧ IsSpaces sp ∧ L t

/-- Too many arguments, which are wrong before the place where they are found to be so. -/
def Cause.IsSurplus : Cause → Prop
  | .tooManyArguments _ _ => True
  | _ => False

namespace Reading

/-- **A reading that faults at the end of a front**: what stands before the fault can be completed
to a text with a property, unless there are too many arguments. -/
def FaultsIn {α : Type} (L : List Char → Prop) (s : List Char) (r : Reading α) : Prop :=
  ∀ rest cause, r = fault rest cause → ¬cause.IsSurplus →
    ∃ front, s = front ++ rest ∧ IsFront L front

section Readings

variable {α β : Type} {L L' : List Char → Prop} {s t rest : List Char} {r : Reading α}

theorem faultsIn_found (a : α) : (found a rest).FaultsIn L s := by
  intro rest cause h
  cases h

/-- Nothing stands before the beginning of a text. -/
theorem faultsIn_here (cause : Cause) : (fault s cause : Reading α).FaultsIn (· = []) s := by
  intro rest cause' hfault _
  cases hfault
  exact ⟨[], rfl, [], rfl⟩

theorem faultsIn_surplus {cause : Cause} (h : cause.IsSurplus) :
    (fault rest cause : Reading α).FaultsIn L s := by
  intro rest' cause' hfault hcause
  cases hfault
  exact absurd h hcause

/-- A front of what follows a text is a front together with the text. -/
theorem FaultsIn.behind (h : r.FaultsIn L s) (hL : ∀ u, L u → IsFront L' (t ++ u)) :
    r.FaultsIn L' (t ++ s) := by
  intro rest cause hfault hcause
  obtain ⟨front, rfl, u, hu⟩ := h rest cause hfault hcause
  obtain ⟨v, hv⟩ := hL _ hu
  refine ⟨t ++ front, by rw [List.append_assoc], u ++ v, ?_⟩
  simpa only [List.append_assoc] using hv

/-- What faults where it starts, faults at the end of the front behind which it stands. -/
theorem FaultsIn.after (h : r.FaultsIn (· = []) s) (ht : IsFront L t) : r.FaultsIn L (t ++ s) :=
  h.behind fun u hu => by rwa [hu, List.append_nil]

theorem FaultsIn.imp (h : r.FaultsIn L s) (hL : ∀ u, L u → IsFront L' u) : r.FaultsIn L' s :=
  h.behind (t := []) hL

theorem FaultsIn.andThen {next : α → List Char → Reading β} (h : r.FaultsIn L s)
    (hnext : ∀ a rest, r = found a rest → (next a rest).FaultsIn L s) :
    (r.andThen next).FaultsIn L s := by
  cases r with
  | found a rest => exact hnext a rest rfl
  | fault rest cause =>
      intro rest' cause' hfault hcause
      cases hfault
      exact h rest cause rfl hcause

theorem FaultsIn.map (h : r.FaultsIn L s) (f : α → β) : (r.map f).FaultsIn L s :=
  h.andThen fun a _ _ => faultsIn_found (f a)

/-- Spaces before a front are skipped. -/
theorem FaultsIn.spaced (h : r.FaultsIn L (skipSpaces s)) : r.FaultsIn (Spaced L) s := by
  obtain ⟨sp, hsp, hs⟩ := exists_skipSpaces s
  have hbehind : r.FaultsIn (Spaced L) (sp ++ skipSpaces s) :=
    h.behind fun u hu => isFront_of ⟨sp, u, rfl, hsp, hu⟩
  rwa [← hs] at hbehind

end Readings

/-! ### Words fault where they start -/

theorem faultsIn_char (c : Char) (s : List Char) : (char c s).FaultsIn (· = []) s := by
  cases s with
  | nil => exact faultsIn_here _
  | cons d s =>
      rw [char]
      split
      · exact faultsIn_found ()
      · exact faultsIn_here _

theorem faultsIn_bound (s : List Char) : (bound s).FaultsIn (· = []) s := by
  simp only [bound]
  split
  · exact faultsIn_found none
  · split
    · exact faultsIn_found _
    · exact faultsIn_here _

theorem faultsIn_selector (s : List Char) : (selector s).FaultsIn (· = []) s := by
  rw [selector.eq_def]
  split
  · exact faultsIn_found _
  · dsimp only
    split
    · exact faultsIn_here _
    · exact faultsIn_found _

theorem faultsIn_stringLiteral (mark : Char) (s : List Char) :
    (stringLiteral mark s).FaultsIn (· = []) (mark :: s) := by
  rw [stringLiteral]
  split
  · exact faultsIn_here _
  · exact faultsIn_found _

theorem faultsIn_numberLiteral (s : List Char) : (numberLiteral s).FaultsIn (· = []) s := by
  simp only [numberLiteral]
  split
  · split
    · exact faultsIn_here _
    · exact faultsIn_found _
  · split
    · exact faultsIn_found _
    · exact faultsIn_here _

theorem faultsIn_conditionName (ctx : Context) (s : List Char) :
    (conditionName ctx s).FaultsIn (· = []) s := by
  simp only [conditionName]
  split
  · exact faultsIn_here _
  · split
    · exact faultsIn_found _
    · exact faultsIn_here _

/-! ### Targets -/

theorem faultsIn_range (s : List Char) :
    (range s).FaultsIn (fun u => ∃ items, RangeText u items) s := by
  rw [range.eq_def]
  split
  · exact faultsIn_found _
  · refine ((faultsIn_bound s).after (t := []) ⟨[], _, .missing⟩).andThen
      fun start rest hstart => ?_
    rw [rangeFrom.eq_def]
    split
    · next rest =>
        refine FaultsIn.map ?_ _
        rcases exists_of_bound hstart with ⟨rfl, rfl⟩ | ⟨t, n, rfl, rfl, hn⟩
        · exact (faultsIn_bound rest).after (t := [':']) (isFront_of ⟨_, .upTo .missing⟩)
        · have hcolon : ∃ items, RangeText (t ++ [':']) items := ⟨_, .between hn .missing⟩
          rw [List.append_cons]
          exact (faultsIn_bound rest).after (isFront_of hcolon)
    · exact faultsIn_found _

theorem faultsIn_target (ctx : Context) {s : List Char} (hstarts : startsStep s = true) :
    (target ctx s).FaultsIn (fun u => ∃ t, TargetText ctx u t) s := by
  rw [target.eq_def]
  split
  · next rest =>
      refine FaultsIn.andThen ?_ fun items mid hitems => ?_
      · refine (faultsIn_range rest).behind (t := ['[']) ?_
        rintro u ⟨items, hu⟩
        exact ⟨[']'], _, .item hu⟩
      · obtain ⟨t, rfl, ht⟩ := exists_of_range hitems
        exact ((faultsIn_char _ mid).after (t := '[' :: t) ⟨[']'], _, .item ht⟩).map _
  · next rest =>
      split
      · next hallowed =>
          exact ((faultsIn_selector rest).after (t := ['.', '.'])
            ⟨['*'], _, .descendant hallowed .wildcard⟩).map _
      · exact (faultsIn_here _).after (t := []) ⟨['.', '*'], _, .child .wildcard⟩
  · next hitem hdescendant =>
      cases s with
      | nil => cases hstarts
      | cons c rest =>
          rcases (by simpa [startsStep] using hstarts : c = '.' ∨ c = '[') with rfl | rfl
          · exact ((faultsIn_selector rest).after (t := ['.'])
              ⟨['*'], _, .child .wildcard⟩).map _
          · exact absurd rfl (hitem rest)

end Reading

/-! ### Arguments that are missing -/

/-- A number of arguments. -/
def IsArguments (R : List Char → Path → Prop) (n : Nat) (s : List Char) : Prop :=
  ∃ as, ArgumentsText R s as ∧ as.length = n

/-- A number of arguments, which may be none. -/
def IsArgumentList (R : List Char → Path → Prop) (n : Nat) (s : List Char) : Prop :=
  ∃ as, ArgumentListText R s as ∧ as.length = n

section Arguments

variable {R : List Char → Path → Prop}

theorem isSpaces_nil : IsSpaces [] := fun _ h => absurd h List.not_mem_nil

/-- Nought is an argument. -/
theorem argumentText_zero : ArgumentText R ['0'] (.integer 0) :=
  .integer (.mk .missing (by simp [IsDigits]) (by simp) rfl)

/-- One argument is a list of arguments. -/
theorem ArgumentText.singleton {s : List Char} {a : Argument} (h : ArgumentText R s a) :
    ArgumentsText R s [a] := by
  have hlast := ArgumentsText.last h isSpaces_nil
  rwa [List.append_nil] at hlast

/-- One more argument may be given. -/
theorem ArgumentsText.snoc {s t : List Char} {as : List Argument} {a : Argument}
    (h : ArgumentsText R s as) (ha : ArgumentText R t a) :
    ArgumentsText R (s ++ ',' :: t) (as ++ [a]) := by
  induction h with
  | last h hafter =>
      rw [List.append_assoc]
      exact .cons h hafter isSpaces_nil ha.singleton
  | cons h hafter hbefore _ ih =>
      simp only [List.append_assoc, List.cons_append]
      exact .cons h hafter hbefore ih

/-- More arguments may be given. -/
theorem IsArguments.isFront {n : Nat} {s : List Char} (h : IsArguments R n s) (more : Nat) :
    IsFront (IsArguments R (n + more)) s := by
  induction more with
  | zero => exact isFront_of h
  | succ more ih =>
      obtain ⟨t, as, has, hlength⟩ := ih
      refine ⟨t ++ [',', '0'], as ++ [.integer 0], ?_, ?_⟩
      · rw [← List.append_assoc]
        exact has.snoc argumentText_zero
      · rw [List.length_append, hlength, List.length_singleton, Nat.add_assoc]

/-- Arguments that are missing may be given. -/
theorem IsArgumentList.isFront {k n : Nat} {s : List Char} (h : IsArgumentList R k s)
    (hn : k ≤ n) : IsFront (IsArgumentList R n) s := by
  obtain ⟨more, rfl⟩ := Nat.exists_eq_add_of_le hn
  obtain ⟨as, has, rfl⟩ := h
  cases has with
  | given has =>
      obtain ⟨t, bs, hbs, hlength⟩ := IsArguments.isFront ⟨as, has, rfl⟩ more
      exact ⟨t, bs, .given hbs, hlength⟩
  | empty =>
      cases more with
      | zero => exact isFront_of ⟨[], .empty, rfl⟩
      | succ more =>
          obtain ⟨t, bs, hbs, hlength⟩ :=
            IsArguments.isFront (R := R) ⟨_, argumentText_zero.singleton, rfl⟩ more
          exact ⟨'0' :: t, bs, .given hbs, by simp [hlength, Nat.add_comm]⟩

/-! ### What is missing of a call -/

/-- The end of a call. -/
def IsCallEnd (s : List Char) : Prop := ∃ t, s = ')' :: t ∧ Spaced (· = [')']) t

/-- The arguments of a call and what follows them. -/
def IsCallArguments (R : List Char → Path → Prop) (arity : Nat) : List Char → Prop :=
  Spaced fun s => ∃ args t, s = args ++ t ∧ IsArgumentList R arity args ∧ IsCallEnd t

/-- A call from its parenthesis on. -/
def IsCallFrom (R : List Char → Path → Prop) (arity : Nat) (s : List Char) : Prop :=
  ∃ t, s = '(' :: t ∧ IsCallArguments R arity t

/-- A call from its name on. -/
def IsCallNamed (ctx : Context) (R : List Char → Path → Prop) (s : List Char) : Prop :=
  ∃ name c t, s = name ++ t ∧ IsName name ∧ ctx.find? (String.ofList name) = some c ∧
    Spaced (IsCallFrom R c.arity) t

/-- A call from its first character on. -/
def IsCall (ctx : Context) (R : List Char → Path → Prop) (s : List Char) : Prop :=
  ∃ mark negated t, s = mark ++ t ∧ NegationText mark negated ∧ Spaced (IsCallNamed ctx R) t

/-- Some condition has a name by which a filter can call it. -/
def Context.CanCall (ctx : Context) : Prop :=
  ∃ name c, IsName name ∧ ctx.find? (String.ofList name) = some c

theorem exists_isCallEnd : ∃ s, IsCallEnd s :=
  ⟨_, _, rfl, [], [')'], rfl, isSpaces_nil, rfl⟩

theorem exists_isCallFrom (arity : Nat) : ∃ s, IsCallFrom R arity s := by
  have hempty : IsArgumentList R 0 [] := ⟨[], .empty, rfl⟩
  obtain ⟨args, hargs⟩ := hempty.isFront (Nat.zero_le arity)
  obtain ⟨t, ht⟩ := exists_isCallEnd
  exact ⟨_, _, rfl, [], _, rfl, isSpaces_nil, args, t, rfl, hargs, ht⟩

/-- A call behind a parenthesis and spaces is a filter, if all kinds are accepted. -/
theorem IsCall.filterText {ctx : Context} {sp s : List Char} (h : IsCall ctx.widened R s)
    (hsp : IsSpaces sp) : ∃ f, FilterText ctx.widened R ('(' :: (sp ++ s)) f := by
  obtain ⟨mark, negated, _, rfl, hmark, sp₂, _, rfl, hsp₂, name, c, _, rfl, hname, hc,
    sp₃, _, rfl, hsp₃, _, rfl, sp₄, _, rfl, hsp₄, args, _, rfl, ⟨as, has, hlength⟩, _, rfl,
    sp₅, _, rfl, hsp₅, rfl⟩ := h
  rw [Context.find?_widened, Option.map_eq_some_iff] at hc
  obtain ⟨c, hc, rfl⟩ := hc
  rw [Condition.arity_widened, ← accepts_widened_iff] at hlength
  refine ⟨_, .mk hsp hmark hsp₂ hname hsp₃ hsp₄ has hsp₅ ?_ hlength⟩
  rw [Context.find?_widened, hc, Option.map_some]

end Arguments

end TreePath
