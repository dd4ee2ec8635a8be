/-
**A cursor only moves on.**

The readers of an expression share one cursor.  Many of them may read nothing at all: a sign, a
bound, spaces, a filter.  That the whole comes to an end nevertheless rests on a few marks, which
are always passed: a step takes two bytes and an argument one, whatever else they hold.  Nested
paths stand behind such marks, so the bytes that pay for their steps are not those that pay for the
steps around them.

`Scan.Progress` says this of one part of an expression, given how references in it are read.  It
also says where references are read: behind a mark `@` that lies further on.  This is said without
a list of the calls that are made: what a part comes to depends on nothing else.

Main definitions:

* `Path.stepCount` — the steps of a path and of the paths in it, at every depth;
* `Cursor.Onward` — a cursor that was never moved back, nor past the end of the text;
* `BehindMark` — cursors right behind a mark `@`;
* `Scan.Pays` — a reader of references that passes two bytes for every step;
* `Scan.Progress` — a part of an expression that moves on, and asks for references behind marks.

Main results:

* `Scan.Progress.bind` — parts one after the other;
* `Scan.progress_argument`, `Scan.progress_step`, `Scan.progress_steps` — **an argument takes a byte
  and a step takes two**, besides those of the paths in them.
-/

import TreePath.Proofs.Path.Scanning
import TreePath.Proofs.Path.Quotes

set_option relaxedAutoImplicit false
set_option autoImplicit false

namespace TreePath

/-! ### Counting steps -/

/-- How many steps some paths have, without the paths in them. -/
def stepsIn (ps : List Path) : Nat := total (fun p => p.steps.length) ps

@[simp] theorem stepsIn_nil : stepsIn [] = 0 := rfl

@[simp] theorem stepsIn_append (ps qs : List Path) : stepsIn (ps ++ qs) = stepsIn ps + stepsIn qs :=
  total_append _ ps qs

/-- How many steps a path has, together with those of the paths in it at every depth. -/
def Path.stepCount (p : Path) : Nat := stepsIn (p :: p.references)

theorem Path.stepCount_mk (source : String) (sts : List Step) :
    Path.stepCount ⟨source, sts⟩ = sts.length + stepsIn (referencesOfSteps sts) := by
  rw [Path.stepCount, Path.references]
  rfl

/-! ### Cursors that move on -/

/-- **A cursor that was moved on**: act by act, and after each of them it stood where it was or
further on, and not past the end of the text. -/
inductive Cursor.Onward (text : List Char) (c : Cursor) : Cursor → Prop
  | refl : Onward text c c
  | act {c' : Cursor} {a : Act} (h : Onward text c c')
      (hle : c'.place ≤ Cursor.place ⟨a :: c'.acts⟩)
      (hend : Cursor.place ⟨a :: c'.acts⟩ ≤ byteLength text) : Onward text c ⟨a :: c'.acts⟩

namespace Cursor.Onward

variable {text : List Char} {c c' c'' : Cursor}

theorem trans (h : c.Onward text c') (h' : c'.Onward text c'') : c.Onward text c'' := by
  induction h' with
  | refl => exact h
  | act _ hle hend ih => exact .act ih hle hend

theorem place_le (h : c.Onward text c') : c.place ≤ c'.place := by
  induction h with
  | refl => exact Nat.le_refl _
  | act _ hle _ ih => exact ih.trans hle

theorem place_le_end (h : c.Onward text c') (hc : c.place ≤ byteLength text) :
    c'.place ≤ byteLength text := by
  cases h with
  | refl => exact hc
  | act _ _ hend => exact hend

/-- The cursor is put to a place further on. -/
theorem stop {n : Nat} (hle : c.place ≤ n) (hend : n ≤ byteLength text) :
    c.Onward text ⟨.stop n :: c.acts⟩ :=
  .act .refl hle hend

/-- An act that does not move the cursor. -/
theorem stay {a : Act} (hstays : Cursor.place ⟨a :: c.acts⟩ = c.place)
    (hc : c.place ≤ byteLength text) : c.Onward text ⟨a :: c.acts⟩ :=
  .act .refl (Nat.le_of_eq hstays.symm) (hstays.symm ▸ hc)

end Cursor.Onward

/-- A cursor right behind a mark `@`, which stands at a place or further on. -/
def BehindMark (text : List Char) (place : Nat) (d : Cursor) : Prop :=
  ∃ n, place ≤ n ∧ (bytes text)[n]? = some '@'.toUInt8 ∧ d.place = n + 1

theorem BehindMark.mono {text : List Char} {m n : Nat} {d : Cursor} (h : BehindMark text n d)
    (hmn : m ≤ n) : BehindMark text m d := by
  obtain ⟨k, hk, hbyte, hplace⟩ := h
  exact ⟨k, hmn.trans hk, hbyte, hplace⟩

namespace Scan

/-! ### Parts that move on -/

/-- What a scan that moves on comes to: an error, or something of which `Q` holds. -/
inductive Ends (text : List Char) (c : Cursor) {α : Type} (Q : α → Cursor → Prop) :
    EStateM.Result Halt Cursor α → Prop
  | ok {a : α} {c' : Cursor} (h : c.Onward text c') (hQ : Q a c') : Ends text c Q (.ok a c')
  | error {e : Halt} {c' : Cursor} (h : c.Onward text c') : Ends text c Q (.error e c')

theorem Ends.after {α : Type} {text : List Char} {c c' : Cursor} {Q : α → Cursor → Prop}
    {result : EStateM.Result Halt Cursor α} (h : Ends text c' Q result) (hc : c.Onward text c') :
    Ends text c Q result := by
  cases h with
  | ok h hQ => exact .ok (hc.trans h) hQ
  | error h => exact .error (hc.trans h)

/-- References are read by a scan that moves on and passes two bytes for every step. -/
def Pays (text : List Char) (read : Scan Path) : Prop :=
  ∀ c, c.place ≤ byteLength text →
    Ends text c (fun p c' => c.place + 2 * p.stepCount ≤ c'.place) (read c)

/-- **A part of an expression that moves on** from a cursor, given how references in it are read,
and comes to something of which `Q` holds.  References are read behind marks that lie further on:
the part comes to the same if they are read in another way elsewhere. -/
structure Progress (text : List Char) (c : Cursor) {α : Type} (part : Scan Path → Scan α)
    (Q : α → Cursor → Prop) : Prop where
  /-- The cursor is moved on, and `Q` holds. -/
  ends : ∀ read, Pays text read → c.place ≤ byteLength text → Ends text c Q (part read c)
  /-- References are read behind marks. -/
  congr : ∀ read other, Pays text read → c.place ≤ byteLength text →
    (∀ d, BehindMark text c.place d → other d = read d) → part other c = part read c

section Rules

variable {α β : Type} {text : List Char} {c : Cursor} {Q : α → Cursor → Prop}
  {R : β → Cursor → Prop}

/-- A part without references. -/
theorem Progress.of_ends {x : Scan α} (h : c.place ≤ byteLength text → Ends text c Q (x c)) :
    Progress text c (fun _ => x) Q :=
  ⟨fun _ _ => h, fun _ _ _ _ _ => rfl⟩

theorem Progress.pure {a : α} (h : Q a c) : Progress text c (fun _ => pure a) Q :=
  .of_ends fun _ => .ok .refl h

theorem progress_faultAt (offset : Nat) (cause : Cause) :
    Progress text c (fun _ => faultAt offset cause) Q :=
  .of_ends fun _ => .error .refl

theorem progress_exhausted : Progress text c (fun _ => throw .exhausted) Q :=
  .of_ends fun _ => .error .refl

/-- Looking at something without an act. -/
theorem Progress.observe {x : Scan β} {b : β} {F : Scan Path → β → Scan α} (hx : x c = .ok b c)
    (h : Progress text c (fun read => F read b) Q) :
    Progress text c (fun read => x >>= F read) Q := by
  refine ⟨fun read hread hc => ?_, fun read other hread hc hother => ?_⟩
  · rw [bind_of_ok hx]
    exact h.ends read hread hc
  · rw [bind_of_ok hx, bind_of_ok hx]
    exact h.congr read other hread hc hother

/-- **Parts one after the other.** -/
theorem Progress.bind {X : Scan Path → Scan α} {F : Scan Path → α → Scan β}
    (hX : Progress text c X Q)
    (hF : ∀ a c', c.Onward text c' → Q a c' → Progress text c' (fun read => F read a) R) :
    Progress text c (fun read => X read >>= F read) R := by
  refine ⟨fun read hread hc => ?_, fun read other hread hc hother => ?_⟩
  · have hends := hX.ends read hread hc
    simp only [Bind.bind, EStateM.bind]
    generalize X read c = result at hends
    cases hends with
    | ok h hQ => exact ((hF _ _ h hQ).ends read hread (h.place_le_end hc)).after h
    | error h => exact .error h
  · have hends := hX.ends read hread hc
    have hsame := hX.congr read other hread hc hother
    simp only [Bind.bind, EStateM.bind]
    rw [hsame]
    generalize X read c = result at hends
    cases hends with
    | ok h hQ =>
        -- The second part starts further on, so it asks in fewer places.
        exact (hF _ _ h hQ).congr read other hread (h.place_le_end hc) fun d hd =>
          hother d (hd.mono h.place_le)
    | error h => rfl

theorem Progress.imp {X : Scan Path → Scan α} {Q' : α → Cursor → Prop} (hX : Progress text c X Q)
    (h : ∀ a c', c.Onward text c' → Q a c' → Q' a c') : Progress text c X Q' := by
  refine ⟨fun read hread hc => ?_, hX.congr⟩
  have hends := hX.ends read hread hc
  generalize X read c = result at hends
  cases hends with
  | ok hc' hQ => exact .ok hc' (h _ _ hc' hQ)
  | error hc' => exact .error hc'

theorem Progress.ite {p : Prop} [Decidable p] {X Y : Scan Path → Scan α}
    (hX : p → Progress text c X Q) (hY : ¬p → Progress text c Y Q) :
    Progress text c (fun read => if p then X read else Y read) Q := by
  by_cases hp : p
  · simpa only [if_pos hp] using hX hp
  · simpa only [if_neg hp] using hY hp

end Rules

/-! ### What is done with a cursor -/

section Operations

variable {text : List Char} {c : Cursor}

theorem atEnd_eq (text : List Char) (c : Cursor) :
    atEnd text c = .ok (decide ((bytes text).length ≤ c.place)) c := rfl

theorem current_eq (text : List Char) (c : Cursor) :
    current text c = .ok ((bytes text).getD c.place 0) c := rfl

/-- A cursor before a byte that is not zero is not at the end. -/
theorem getElem?_of_getD_eq {place : Nat} {b : UInt8} (hne : b ≠ 0)
    (h : (bytes text).getD place 0 = b) : (bytes text)[place]? = some b := by
  rw [List.getD_eq_getElem?_getD] at h
  cases hb : (bytes text)[place]? with
  | none =>
      rw [hb] at h
      exact absurd h.symm hne
  | some b' =>
      rw [hb] at h
      exact congrArg some h

theorem lt_of_getElem?_bytes {place : Nat} {b : UInt8} (h : (bytes text)[place]? = some b) :
    place < byteLength text := by
  rw [← length_bytes]
  exact (List.getElem?_eq_some_iff.1 h).1

/-- At the end the byte is zero. -/
theorem getD_of_le {place : Nat} (h : byteLength text ≤ place) : (bytes text).getD place 0 = 0 := by
  rw [List.getD_eq_getElem?_getD, List.getElem?_eq_none (by simpa using h), Option.getD_none]

/-- A byte of a kind to which zero does not belong is one of the text. -/
theorem lt_of_byte {p : UInt8 → Bool} (hzero : p 0 = false) {place : Nat}
    (h : p ((bytes text).getD place 0) = true) : place < byteLength text := by
  by_contra hge
  rw [getD_of_le (Nat.not_lt.1 hge), hzero] at h
  cases h

/-- Before the end, the cursor is moved by one byte. -/
theorem advance_eq (h : c.place < byteLength text) :
    advance text c = .ok () ⟨.stop (c.place + 1) :: c.acts⟩ := by
  rw [advance, bind_of_ok (atEnd_eq text c), if_neg (by simpa using h)]
  rfl

theorem progress_advance : Progress text c (fun _ => advance text) fun _ c' =>
    c.place < byteLength text → c.place + 1 ≤ c'.place := by
  refine .of_ends fun _ => ?_
  by_cases h : c.place < byteLength text
  · rw [advance_eq h]
    exact .ok (.stop (Nat.le_succ _) h) fun _ => Nat.le_refl _
  · rw [advance, bind_of_ok (atEnd_eq text c), if_pos (by simpa using h)]
    exact .ok .refl fun hlt => absurd hlt h

theorem progress_eat (mark : Char) :
    Progress text c (fun _ => eat text mark) fun b c' => b = true → c.place + 1 ≤ c'.place := by
  refine .of_ends fun _ => ?_
  rw [eat, bind_of_ok (atEnd_eq text c), bind_of_ok (current_eq text c)]
  split
  · next hcond =>
      have hlt : c.place < byteLength text := by simpa using (Bool.and_eq_true_iff.1 hcond).1
      exact .ok (.stop (Nat.le_succ _) hlt) fun _ => Nat.le_refl _
  · exact .ok .refl fun hfalse => by cases hfalse

theorem progress_eatSign : Progress text c (fun _ => eatSign text) fun _ _ => True := by
  unfold eatSign
  refine (progress_eat '-').bind fun signed c₁ _ _ => ?_
  refine .ite (fun _ => .pure trivial) fun _ => ?_
  exact (progress_eat '+').imp fun _ _ _ _ => trivial

/-- A run of bytes is passed one by one. -/
theorem ends_eatRun (p : UInt8 → Bool) {left : List UInt8}
    (h : c.place + left.length ≤ byteLength text) :
    Ends text c (fun _ _ => True) (eatRun p left c) := by
  induction left generalizing c with
  | nil => exact .ok (.stop (Nat.le_refl _) h) trivial
  | cons b left ih =>
      rw [List.length_cons] at h
      rw [eatRun]
      split
      · have hrest := @ih ⟨.pass (c.place + 1) :: c.acts⟩
          (show c.place + 1 + left.length ≤ byteLength text by omega)
        exact hrest.after (.act .refl (Nat.le_succ _)
          (show c.place + 1 ≤ byteLength text by omega))
      · exact .ok (.stop (Nat.le_refl _) (by omega)) trivial

theorem progress_eatWhile (p : UInt8 → Bool) :
    Progress text c (fun _ => eatWhile text p) fun _ _ => True := by
  refine .of_ends fun hc => ends_eatRun p ?_
  rw [List.length_drop, length_bytes]
  omega

theorem progress_eatSpaces : Progress text c (fun _ => eatSpaces text) fun _ _ => True :=
  progress_eatWhile _

theorem progress_eatUntil (mark : Char) :
    Progress text c (fun _ => eatUntil text mark) fun _ _ => True := by
  refine .of_ends fun hc => ?_
  rw [eatUntil, bind_of_ok (Cursor.Before.place c)]
  cases hfound : ((bytes text).drop c.place).findIdx? (· == mark.toUInt8) with
  | some n =>
      have hn := (List.findIdx?_eq_some_iff_findIdx_eq.1 hfound).1
      rw [List.length_drop, length_bytes] at hn
      exact .ok (.stop (Nat.le_add_right _ n) (by omega)) trivial
  | none =>
      rw [length_bytes]
      exact .ok (.stop hc (Nat.le_refl _)) trivial

theorem progress_cutFrom (start : Nat) :
    Progress text c (fun _ => cutFrom text start) fun piece c' =>
      piece = (slice? text start c.place).getD [] ∧ c'.place = c.place := by
  refine .of_ends fun hc => ?_
  rw [cutFrom_eq]
  exact .ok (.stay rfl hc) ⟨rfl, rfl⟩

theorem progress_unexpected {α : Type} {Q : α → Cursor → Prop} (expected : Expected) :
    Progress text c (fun _ => unexpected text expected) Q := by
  refine .of_ends fun hc => ?_
  rw [unexpected, bind_of_ok (quote_eq text c)]
  exact .error (.stay rfl hc)

/-- Nothing is cut out unless bytes were passed. -/
theorem lt_of_slice? {start stop : Nat} (h : (slice? text start stop).getD [] ≠ []) :
    start < stop := by
  rw [slice?] at h
  rcases Nat.lt_trichotomy start stop with hlt | rfl | hgt
  · exact hlt
  · refine absurd ?_ h
    rw [if_pos (Nat.le_refl _), Nat.sub_self]
    cases splitBytes? start text <;> simp [splitBytes?]
  · rw [if_neg (by omega)] at h
    exact absurd rfl h

end Operations

/-! ### Words -/

section Words

variable {text : List Char} {c : Cursor}

theorem progress_expect (mark : Char) :
    Progress text c (fun _ => expect text mark) fun _ c' => c.place + 1 ≤ c'.place := by
  unfold expect
  refine (progress_eat mark).bind fun found c₁ _ hfound => ?_
  exact .ite (fun hyes => .pure (hfound hyes)) fun _ => progress_unexpected _

theorem progress_name (expected : Expected) :
    Progress text c (fun _ => name text expected) fun _ c' => c.place + 1 ≤ c'.place := by
  unfold name
  refine .observe (Cursor.Before.place c) ?_
  refine (progress_eatWhile isNameByte).bind fun _ c₁ _ _ => ?_
  refine (progress_cutFrom c.place).bind fun characters c₂ _ ⟨hcut, hplace⟩ => ?_
  refine .ite (fun _ => progress_unexpected _) fun hne => .pure ?_
  have hlt := lt_of_slice? (hcut ▸ mt List.isEmpty_iff.2 hne)
  omega

theorem progress_selector :
    Progress text c (fun _ => selector text) fun _ c' => c.place + 1 ≤ c'.place := by
  unfold selector
  refine (progress_eat '*').bind fun found c₁ hc₁ hfound => ?_
  refine .ite (fun hyes => .pure (hfound hyes)) fun _ => ?_
  refine (progress_name .selector).bind fun _ c₂ _ hname => .pure ?_
  have := hc₁.place_le
  omega

theorem progress_bound : Progress text c (fun _ => bound text) fun _ _ => True := by
  unfold bound
  refine .observe (Cursor.Before.place c) ?_
  refine progress_eatSign.bind fun _ c₁ _ _ => ?_
  refine (progress_eatWhile isDigitByte).bind fun _ c₂ _ _ => ?_
  refine .observe (Cursor.Before.place c₂) ?_
  refine .ite (fun _ => .pure trivial) fun _ => ?_
  refine (progress_cutFrom c.place).bind fun digits c₃ _ _ => ?_
  cases Numeral.integer? digits with
  | some n => exact .pure trivial
  | none => exact progress_faultAt _ _

/-- A colon and perhaps a bound, or neither. -/
theorem progress_lastBound (found : Option Int64 → Option Slice) (missing : Option Slice) :
    Progress text c (fun _ => do
      if ← eat text ':' then
        let last ← bound text
        return found last
      else return missing) fun _ _ => True := by
  refine (progress_eat ':').bind fun _ c₁ _ _ => ?_
  refine .ite (fun _ => ?_) fun _ => .pure trivial
  exact progress_bound.bind fun _ _ _ _ => .pure trivial

theorem progress_rangeFrom (first : Option Int64) :
    Progress text c (fun _ => rangeFrom text first) fun _ _ => True := by
  cases first with
  | none => exact progress_lastBound _ _
  | some first => exact progress_lastBound _ _

theorem progress_range : Progress text c (fun _ => range text) fun _ _ => True := by
  unfold range
  refine (progress_eat '*').bind fun _ c₁ _ _ => ?_
  refine .ite (fun _ => .pure trivial) fun _ => ?_
  exact progress_bound.bind fun first _ _ _ => progress_rangeFrom first

theorem progress_stringLiteral (mark : Char) (h : c.place < byteLength text) :
    Progress text c (fun _ => stringLiteral text mark) fun _ c' => c.place + 1 ≤ c'.place := by
  unfold stringLiteral
  refine .observe (Cursor.Before.place c) ?_
  refine progress_advance.bind fun _ c₁ _ hopen => ?_
  refine .observe (Cursor.Before.place c₁) ?_
  refine (progress_eatUntil mark).bind fun closed c₂ hc₂ _ => ?_
  refine .ite (fun _ => ?_) fun _ => progress_faultAt _ _
  refine (progress_cutFrom c₁.place).bind fun content c₃ hc₃ _ => ?_
  refine progress_advance.bind fun _ c₄ hc₄ _ => .pure ?_
  exact (hopen h).trans ((hc₂.trans (hc₃.trans hc₄)).place_le)

/-- A number is not made of nothing: neither is an integer, and a float has a point. -/
theorem progress_numberLiteral :
    Progress text c (fun _ => numberLiteral text)
      fun a c' => c.place + 1 ≤ c'.place ∧ a.references = [] := by
  unfold numberLiteral
  refine .observe (Cursor.Before.place c) ?_
  refine progress_eatSign.bind fun _ c₁ hc₁ _ => ?_
  refine (progress_eatWhile isDigitByte).bind fun _ c₂ hc₂ _ => ?_
  have hle := (hc₁.trans hc₂).place_le
  refine (progress_eat '.').bind fun pointed c₃ hc₃ hpoint => ?_
  refine .ite (fun hyes => ?_) fun _ => ?_
  · refine (progress_eatWhile isDigitByte).bind fun _ c₄ hc₄ _ => ?_
    refine (progress_cutFrom c.place).bind fun digits c₅ hc₅ _ => ?_
    have hafter := (hc₄.trans hc₅).place_le
    have := hpoint hyes
    cases Binary64.ofText? digits with
    | some x => exact .pure ⟨by omega, rfl⟩
    | none => exact progress_faultAt _ _
  · refine (progress_cutFrom c.place).bind fun digits c₄ _ ⟨hcut, hplace⟩ => ?_
    cases hn : Numeral.integer? digits with
    | some n =>
        have hne : digits ≠ [] := by
          rintro rfl
          have hnone : Numeral.integer? [] = none := rfl
          rw [hnone] at hn
          cases hn
        have hlt := lt_of_slice? (hcut ▸ hne)
        exact .pure ⟨by omega, rfl⟩
    | none => exact progress_faultAt _ _

theorem progress_conditionName (ctx : Context) :
    Progress text c (fun _ => conditionName ctx text) fun _ _ => True := by
  unfold conditionName
  refine .observe (Cursor.Before.place c) ?_
  refine (progress_name .conditionName).bind fun key c₁ _ _ => ?_
  cases ctx.find? key with
  | some condition => exact .pure trivial
  | none => exact progress_faultAt _ _

end Words

/-! ### Parts with references -/

section Parts

variable {text : List Char} {c : Cursor}

/-- **A reference stands behind a mark**, and its path pays for all steps in it. -/
theorem progress_mark (hmark : (bytes text)[c.place]? = some '@'.toUInt8) :
    Progress text c (fun read => advance text >>= fun _ => read >>= fun p => pure (Argument.path p))
      fun a c' => c.place + 1 + 2 * stepsIn a.references ≤ c'.place := by
  have hlt := lt_of_getElem?_bytes hmark
  have hadvance := advance_eq hlt
  have hplace : Cursor.place ⟨.stop (c.place + 1) :: c.acts⟩ = c.place + 1 := rfl
  generalize hc₁ : (⟨.stop (c.place + 1) :: c.acts⟩ : Cursor) = c₁ at hadvance hplace
  have honward : c.Onward text c₁ := hc₁ ▸ .stop (Nat.le_succ _) hlt
  refine ⟨fun read hread hc => ?_, fun read other _ _ hother => ?_⟩
  · have hends := hread c₁ (honward.place_le_end hc)
    rw [bind_of_ok hadvance]
    simp only [Bind.bind, EStateM.bind]
    generalize read c₁ = result at hends
    cases hends with
    | ok h hpaid =>
        refine .ok (honward.trans h) ?_
        rw [hplace] at hpaid
        exact hpaid
    | error h => exact .error (honward.trans h)
  · rw [bind_of_ok hadvance, bind_of_ok hadvance]
    simp only [Bind.bind, EStateM.bind]
    rw [hother c₁ ⟨c.place, Nat.le_refl _, hmark, hplace⟩]

theorem progress_argument : Progress text c (fun read => argument text read)
    fun a c' => c.place + 1 + 2 * stepsIn a.references ≤ c'.place := by
  unfold argument
  refine .observe (current_eq text c) ?_
  refine .ite (fun hmark => ?_) fun _ => .ite (fun hquote => ?_) fun _ =>
    .ite (fun _ => ?_) fun _ => progress_unexpected _
  · exact progress_mark (getElem?_of_getD_eq (by decide) hmark)
  · have hlt := lt_of_byte (p := isQuoteByte) rfl hquote
    exact (progress_stringLiteral _ hlt).bind fun _ _ _ htaken => .pure htaken
  · refine progress_numberLiteral.imp fun a _ _ ⟨htaken, hnone⟩ => ?_
    rw [hnone]
    exact htaken

theorem progress_arguments (condition : Condition) (place : Nat) (signature : List KindSet) :
    Progress text c (fun read => arguments text read condition place signature)
      fun as c' => c.place + 2 * stepsIn (referencesOfArguments as) ≤ c'.place := by
  induction signature generalizing place c with
  | nil =>
      unfold arguments
      refine progress_eatSpaces.bind fun _ c₁ _ _ => ?_
      exact .observe (Cursor.Before.place c₁) (progress_faultAt _ _)
  | cons accepted signature ih =>
      unfold arguments
      refine progress_eatSpaces.bind fun _ c₁ hc₁ _ => ?_
      refine .observe (Cursor.Before.place c₁) ?_
      refine progress_argument.bind fun a c₂ hc₂ hargument => ?_
      refine .ite (fun _ => ?_) fun _ => progress_faultAt _ _
      refine progress_eatSpaces.bind fun _ c₃ hc₃ _ => ?_
      refine (progress_eat ',').bind fun _ c₄ hc₄ _ => ?_
      have hbefore := hc₁.place_le
      have hafter := (hc₃.trans hc₄).place_le
      refine .ite (fun _ => ?_) fun _ => .pure ?_
      · refine (ih (place + 1)).bind fun more c₅ _ hmore => .pure ?_
        rw [referencesOfArguments, stepsIn_append]
        omega
      · rw [referencesOfArguments, stepsIn_append]
        simp only [referencesOfArguments, stepsIn_nil]
        omega

theorem progress_givenArguments (condition : Condition) :
    Progress text c (fun read => givenArguments text read condition)
      fun as c' => c.place + 2 * stepsIn (referencesOfArguments as) ≤ c'.place := by
  unfold givenArguments
  refine .observe (current_eq text c) ?_
  exact .ite (fun _ => .pure (Nat.le_refl _)) fun _ => progress_arguments condition 0 _

theorem progress_argumentList (condition : Condition) :
    Progress text c (fun read => argumentList text read condition)
      fun as c' => c.place + 2 * stepsIn (referencesOfArguments as) ≤ c'.place := by
  unfold argumentList
  refine progress_eatSpaces.bind fun _ c₁ hc₁ _ => ?_
  have hbefore := hc₁.place_le
  refine (progress_givenArguments condition).bind fun as c₂ _ htaken => ?_
  refine .ite (fun _ => .observe (Cursor.Before.place c₂) (progress_faultAt _ _)) fun _ => ?_
  exact .pure (by omega)

theorem progress_call (ctx : Context) : Progress text c (fun read => call ctx text read)
    fun f c' => c.place + 2 * stepsIn f.references ≤ c'.place := by
  unfold call
  refine progress_eatSpaces.bind fun _ c₁ hc₁ _ => ?_
  refine (progress_eat '!').bind fun negated c₂ hc₂ _ => ?_
  refine progress_eatSpaces.bind fun _ c₃ hc₃ _ => ?_
  refine (progress_conditionName ctx).bind fun condition c₄ hc₄ _ => ?_
  refine progress_eatSpaces.bind fun _ c₅ hc₅ _ => ?_
  refine (progress_expect '(').bind fun _ c₆ hc₆ _ => ?_
  have hbefore := (hc₁.trans (hc₂.trans (hc₃.trans (hc₄.trans (hc₅.trans hc₆))))).place_le
  refine (progress_argumentList condition).bind fun given c₇ _ htaken => ?_
  refine (progress_expect ')').bind fun _ c₈ hc₈ _ => ?_
  refine progress_eatSpaces.bind fun _ c₉ hc₉ _ => ?_
  refine (progress_expect ')').bind fun _ c₁₀ hc₁₀ _ => .pure ?_
  have hafter := (hc₈.trans (hc₉.trans hc₁₀)).place_le
  rw [Filter.references]
  omega

theorem progress_filter (ctx : Context) (t : Target) :
    Progress text c (fun read => filter ctx text read)
      fun f c' => c.place + 2 * stepsIn (Step.mk t f).references ≤ c'.place := by
  unfold filter
  refine (progress_eat '(').bind fun _ c₁ hc₁ _ => ?_
  have hopen := hc₁.place_le
  refine .ite (fun _ => ?_) fun _ => .pure hopen
  refine (progress_call ctx).bind fun f c₂ _ htaken => .pure ?_
  rw [Step.references]
  omega

/-! ### Steps -/

/-- A point and a name, or the mark for all of them. -/
theorem progress_memberStep (ctx : Context) (h : c.place < byteLength text) :
    Progress text c (fun read => memberStep ctx text read)
      fun st c' => c.place + 2 + 2 * stepsIn st.references ≤ c'.place := by
  unfold memberStep
  refine .observe (Cursor.Before.place c) ?_
  refine progress_advance.bind fun _ c₁ _ hpoint => ?_
  refine (progress_eat '.').bind fun descendant c₂ hc₂ _ => ?_
  have hstart := (hpoint h).trans hc₂.place_le
  refine .ite (fun _ => progress_faultAt _ _) fun _ => ?_
  refine progress_selector.bind fun sel c₃ _ hselector => ?_
  have hfilter : Progress text c₃ (fun read => filter ctx text read) _ :=
    progress_filter ctx (if descendant then .descendant sel else .child sel)
  refine hfilter.bind fun f c₄ _ htaken => .pure ?_
  omega

/-- Two brackets. -/
theorem progress_itemStep (ctx : Context) (h : c.place < byteLength text) :
    Progress text c (fun read => itemStep ctx text read)
      fun st c' => c.place + 2 + 2 * stepsIn st.references ≤ c'.place := by
  unfold itemStep
  refine progress_advance.bind fun _ c₁ _ hopen => ?_
  refine progress_range.bind fun items c₂ hc₂ _ => ?_
  have hstart := (hopen h).trans hc₂.place_le
  refine (progress_expect ']').bind fun _ c₃ _ hclose => ?_
  refine (progress_filter ctx (.item items)).bind fun f c₄ _ htaken => .pure ?_
  omega

/-- **A step takes two bytes**, besides those of the paths in it. -/
theorem progress_step (ctx : Context) : Progress text c (fun read => step ctx text read)
    fun found c' => ∀ st, found = some st → c.place + 2 + 2 * stepsIn st.references ≤ c'.place := by
  unfold step
  refine .observe (current_eq text c) ?_
  refine .ite (fun hpoint => ?_) fun _ => .ite (fun hbracket => ?_) fun _ => .pure nofun
  · have hlt := lt_of_getElem?_bytes (getElem?_of_getD_eq (by decide) hpoint)
    refine (progress_memberStep ctx hlt).bind fun st c₁ _ htaken => .pure ?_
    rintro _ ⟨⟩
    exact htaken
  · have hlt := lt_of_getElem?_bytes (getElem?_of_getD_eq (by decide) hbracket)
    refine (progress_itemStep ctx hlt).bind fun st c₁ _ htaken => .pure ?_
    rintro _ ⟨⟩
    exact htaken

/-- **Steps take two bytes each**, and so do the steps of the paths in them. -/
theorem progress_steps (ctx : Context) (rounds : Nat) :
    Progress text c (fun read => steps ctx text read rounds)
      fun sts c' => c.place + 2 * (sts.length + stepsIn (referencesOfSteps sts)) ≤ c'.place := by
  induction rounds generalizing c with
  | zero => exact progress_exhausted
  | succ rounds ih =>
      unfold steps
      refine (progress_step ctx).bind fun found c₁ hc₁ htaken => ?_
      cases found with
      | some st =>
          have hstep := htaken st rfl
          refine ih.bind fun more c₂ _ hmore => .pure ?_
          rw [referencesOfSteps, stepsIn_append, List.length_cons]
          omega
      | none => exact .pure hc₁.place_le

end Parts

end Scan

end TreePath
