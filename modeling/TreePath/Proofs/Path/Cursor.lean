/-
**A cursor over the bytes of an expression.**

An expression can be read byte by byte.  Every mark of the grammar is a single byte, and no byte of
a character beyond ASCII is a mark, a digit or a space, so it does not matter that the bytes of one
character are passed one after the other.

A cursor is a place among the bytes.  Nothing that is done with it fails: past the end of the text
the byte at the cursor is zero, a text cut out between two places is empty if one of them lies
inside of a character, and no character is quoted there.  A cursor that stopped in such a place
would go unnoticed.  So it keeps account of what is done with it: where it passes, where it comes to
a stop, what is cut out and what is quoted.  `Act.Sound` says that this is done in sound places, and
each operation is shown to keep the account sound and to bring the cursor before the text that a
reader of characters would leave.

Main definitions:

* `bytes`, `IsBoundary` — the bytes of a text, and the places between its characters;
* `slice?`, `charAt?` — the text between two places, and the character at one;
* `Act`, `Cursor`, `Scan` — a cursor with its account, and computations that use one;
* `Scan.current`, `Scan.eat`, `Scan.eatWhile`, `Scan.eatUntil`, `Scan.cutFrom`, `Scan.quote` — what
  is done with a cursor;
* `Act.Sound`, `Cursor.Before` — what is done in sound places, and a cursor before a rest of a text.

Main results:

* `ByteClass.takeWhile_bytes` — **a run of bytes is a run of characters**;
* `splitBytes?_eq_some_iff` — a text is split exactly between its characters;
* `Cursor.Before.eat`, `Cursor.Before.eatWhile`, `Cursor.Before.eatUntil`, `Cursor.Before.cutFrom`,
  `Cursor.Before.quote` — the operations, as seen by a reader of characters.
-/

import TreePath.Proofs.Path.Words

set_option relaxedAutoImplicit false
set_option autoImplicit false

namespace TreePath

/-! ### Bytes -/

/-- The bytes of a text in UTF-8. -/
def bytes (s : List Char) : List UInt8 := s.flatMap String.utf8EncodeChar

@[simp] theorem bytes_nil : bytes [] = [] := rfl

@[simp] theorem bytes_cons (c : Char) (s : List Char) :
    bytes (c :: s) = String.utf8EncodeChar c ++ bytes s := rfl

@[simp] theorem bytes_append (s t : List Char) : bytes (s ++ t) = bytes s ++ bytes t :=
  List.flatMap_append

@[simp] theorem byteLength_nil : byteLength [] = 0 := rfl

@[simp] theorem byteLength_cons (c : Char) (s : List Char) :
    byteLength (c :: s) = c.utf8Size + byteLength s := rfl

@[simp] theorem byteLength_append (s t : List Char) :
    byteLength (s ++ t) = byteLength s + byteLength t := total_append _ s t

@[simp] theorem length_bytes (s : List Char) : (bytes s).length = byteLength s := by
  induction s with
  | nil => rfl
  | cons c s ih => rw [bytes_cons, List.length_append, String.length_utf8EncodeChar, ih]; rfl

theorem byteLength_eq_zero_iff {s : List Char} : byteLength s = 0 ↔ s = [] := by
  cases s with
  | nil => simp
  | cons c s =>
      have := c.utf8Size_pos
      simp only [byteLength_cons, reduceCtorEq, iff_false]
      omega

theorem length_le_byteLength (s : List Char) : s.length ≤ byteLength s := by
  induction s with
  | nil => exact Nat.le_refl 0
  | cons c s ih =>
      have := c.utf8Size_pos
      rw [List.length_cons, byteLength_cons]
      omega

/-- An ASCII character is a single byte. -/
theorem utf8EncodeChar_of_lt {c : Char} (h : c.toNat < 128) :
    String.utf8EncodeChar c = [c.toUInt8] := by
  refine String.utf8EncodeChar_eq_singleton ?_
  rw [Char.utf8Size_eq_one_iff, UInt32.le_iff_toNat_le]
  exact Nat.le_of_lt_succ h

/-- No byte of a character beyond ASCII is an ASCII character. -/
theorem le_of_mem_utf8EncodeChar {c : Char} (h : 128 ≤ c.toNat) {b : UInt8}
    (hb : b ∈ String.utf8EncodeChar c) : 128 ≤ b.toNat := by
  have hv : ¬c.val.toNat ≤ 127 := Nat.not_le.2 h
  simp only [String.utf8EncodeChar, if_neg hv] at hb
  generalize c.val.toNat = v at hb
  -- One case for each number of bytes; in all of them every byte has its highest bit set.
  split at hb
  · simp only [List.mem_cons, List.not_mem_nil, or_false] at hb
    rcases hb with rfl | rfl <;> rw [UInt8.toNat_ofNat'] <;> omega
  · split at hb
    · simp only [List.mem_cons, List.not_mem_nil, or_false] at hb
      rcases hb with rfl | rfl | rfl <;> rw [UInt8.toNat_ofNat'] <;> omega
    · simp only [List.mem_cons, List.not_mem_nil, or_false] at hb
      rcases hb with rfl | rfl | rfl | rfl <;> rw [UInt8.toNat_ofNat'] <;> omega

/-! ### Kinds of bytes -/

/-- A kind of bytes that belongs to a kind of characters: all bytes of a character of that kind are
of this kind, and no byte of any other character. -/
def ByteClass (p : UInt8 → Bool) (q : Char → Bool) : Prop :=
  ∀ c, ∀ b ∈ String.utf8EncodeChar c, p b = q c

section Classes

variable {p : UInt8 → Bool} {q : Char → Bool}

/-- It is enough to look at ASCII, and at all that is beyond it at once. -/
theorem ByteClass.of_ascii (ascii : ∀ n < 128, p (Char.ofNat n).toUInt8 = q (Char.ofNat n))
    (beyond : ∀ (c : Char) (b : UInt8), 128 ≤ c.toNat → 128 ≤ b.toNat → p b = q c) :
    ByteClass p q := by
  intro c b hb
  by_cases hc : c.toNat < 128
  · rw [utf8EncodeChar_of_lt hc, List.mem_singleton] at hb
    have := ascii c.toNat hc
    rwa [Char.ofNat_toNat, ← hb] at this
  · exact beyond c b (Nat.not_lt.1 hc) (le_of_mem_utf8EncodeChar (Nat.not_lt.1 hc) hb)

theorem ByteClass.or {p' : UInt8 → Bool} {q' : Char → Bool} (h : ByteClass p q)
    (h' : ByteClass p' q') : ByteClass (fun b => p b || p' b) (fun c => q c || q' c) := by
  intro c b hb
  dsimp only
  rw [h c b hb, h' c b hb]

/-- **A run of bytes is a run of characters.** -/
theorem ByteClass.takeWhile_bytes (h : ByteClass p q) (s : List Char) :
    (bytes s).takeWhile p = bytes (s.takeWhile q) := by
  induction s with
  | nil => rfl
  | cons c s ih =>
      rw [bytes_cons]
      cases hc : q c with
      | true =>
          rw [List.takeWhile_append_of_pos fun b hb => (h c b hb).trans hc,
            List.takeWhile_cons_of_pos hc, ih, bytes_cons]
      | false =>
          obtain ⟨b, bs, hbs⟩ := List.exists_cons_of_ne_nil (@String.utf8EncodeChar_ne_nil c)
          have hb : p b = false := (h c b (by simp [hbs])).trans hc
          rw [List.takeWhile_cons_of_neg (by simp [hc]), hbs, List.cons_append,
            List.takeWhile_cons_of_neg (by simp [hb]), bytes_nil]

end Classes

/-- The byte of an ASCII character. -/
theorem byteClass_mark {mark : Char} (hmark : mark.toNat < 128) :
    ByteClass (· == mark.toUInt8) (· == mark) := by
  have hbyte : mark.toUInt8.toNat = mark.toNat := Nat.mod_eq_of_lt (Nat.lt_trans hmark (by decide))
  intro c b hb
  rw [Bool.eq_iff_iff, beq_iff_eq, beq_iff_eq]
  by_cases hc : c.toNat < 128
  · have hc' : c.toUInt8.toNat = c.toNat := Nat.mod_eq_of_lt (Nat.lt_trans hc (by decide))
    rw [utf8EncodeChar_of_lt hc, List.mem_singleton] at hb
    rw [hb, ← UInt8.toNat_inj, hc', hbyte, Char.toNat_inj]
  · have hle := le_of_mem_utf8EncodeChar (Nat.not_lt.1 hc) hb
    constructor
    · rintro rfl
      omega
    · rintro rfl
      exact absurd hmark hc

/-- The first byte of a mark is found where the mark is. -/
theorem findIdx?_bytes {mark : Char} (hmark : mark.toNat < 128) (s : List Char) :
    (bytes s).findIdx? (· == mark.toUInt8) = if (s.dropWhile (· != mark)).isEmpty then none
      else some (byteLength (s.takeWhile (· != mark))) := by
  induction s with
  | nil => rfl
  | cons c s ih =>
      have hclass := byteClass_mark hmark c
      rw [bytes_cons, List.findIdx?_append, ih]
      by_cases hc : c = mark
      · subst hc
        rw [utf8EncodeChar_of_lt hmark]
        simp
      · have hnone : (String.utf8EncodeChar c).findIdx? (· == mark.toUInt8) = none := by
          rw [List.findIdx?_eq_none_iff]
          intro b hb
          exact (hclass b hb).trans (beq_eq_false_iff_ne.2 hc)
        rw [hnone, Option.none_or, String.length_utf8EncodeChar,
          List.dropWhile_cons_of_pos (by simpa using hc),
          List.takeWhile_cons_of_pos (by simpa using hc)]
        split <;> simp [Nat.add_comm]

/-- Digits, as bytes. -/
def isDigitByte (b : UInt8) : Bool := 48 ≤ b && b ≤ 57

/-- ASCII letters and digits, low lines, hyphens, and all bytes of characters beyond ASCII. -/
def isNameByte (b : UInt8) : Bool :=
  isDigitByte b || (65 ≤ b && b ≤ 90) || (97 ≤ b && b ≤ 122) || b == '_'.toUInt8 ||
    b == '-'.toUInt8 || 128 ≤ b

/-- No character beyond ASCII is a digit. -/
theorem isDigit_eq_false_of_le {c : Char} (h : 128 ≤ c.toNat) : c.isDigit = false := by
  rw [Bool.eq_false_iff]
  intro hdigit
  have hle : c.toNat ≤ 57 := by
    simp only [Char.isDigit, Bool.and_eq_true, decide_eq_true_eq] at hdigit
    exact hdigit.2
  omega

theorem byteClass_isDigitByte : ByteClass isDigitByte Char.isDigit := by
  refine .of_ascii (by decide) fun c b hc hb => ?_
  rw [isDigit_eq_false_of_le hc, isDigitByte, Bool.and_eq_false_iff, decide_eq_false_iff_not,
    decide_eq_false_iff_not]
  refine .inr fun hle => ?_
  have : b.toNat ≤ 57 := UInt8.le_iff_toNat_le.1 hle
  omega

theorem byteClass_isNameByte : ByteClass isNameByte isNameChar := by
  refine .of_ascii (by decide) fun c b hc hb => ?_
  have hbyte : isNameByte b = true := by
    simp only [isNameByte, Bool.or_eq_true, decide_eq_true_eq]
    exact .inr (UInt8.le_iff_toNat_le.2 hb)
  rw [hbyte, isNameChar_iff.2 (.inr (.inr (.inr hc)))]

/-! ### Places between characters -/

/-- A place between two characters of a text, or at an end of it. -/
def IsBoundary (text : List Char) (place : Nat) : Prop :=
  ∃ front rest, text = front ++ rest ∧ place = byteLength front

/-- A text parted after its first `n` bytes, unless these end inside of a character. -/
def splitBytes? : Nat → List Char → Option (List Char × List Char)
  | 0, s => some ([], s)
  | _ + 1, [] => none
  | n + 1, c :: s =>
    if c.utf8Size ≤ n + 1 then
      (splitBytes? (n + 1 - c.utf8Size) s).map fun parts => (c :: parts.1, parts.2)
    else none

/-- The text between two places, which both have to be boundaries. -/
def slice? (text : List Char) (start stop : Nat) : Option (List Char) :=
  if start ≤ stop then
    (splitBytes? start text).bind fun parts =>
      (splitBytes? (stop - start) parts.2).map fun parts => parts.1
  else none

/-- The character at a place, which has to be a boundary. -/
def charAt? (text : List Char) (place : Nat) : Option Char :=
  (splitBytes? place text).bind fun parts => parts.2.head?

/-- **A text is split exactly between its characters.** -/
theorem splitBytes?_eq_some_iff {n : Nat} {s front rest : List Char} :
    splitBytes? n s = some (front, rest) ↔ s = front ++ rest ∧ n = byteLength front := by
  induction s generalizing n front with
  | nil =>
      cases n with
      | zero => cases front <;> simp [splitBytes?, eq_comm]
      | succ n => cases front <;> simp [splitBytes?]
  | cons c s ih =>
      have hpos := c.utf8Size_pos
      cases n with
      | zero =>
          cases front with
          | nil => simp [splitBytes?, eq_comm]
          | cons d front =>
              have := d.utf8Size_pos
              simp only [splitBytes?, Option.some.injEq, Prod.mk.injEq, reduceCtorEq, false_and,
                byteLength_cons, false_iff, not_and]
              omega
      | succ n =>
          rw [splitBytes?]
          cases front with
          | nil => split <;> simp
          | cons d front =>
              split
              · next hle =>
                  simp only [Option.map_eq_some_iff, Prod.mk.injEq, List.cons.injEq, Prod.exists,
                    List.cons_append, byteLength_cons]
                  constructor
                  · rintro ⟨_, _, hs, ⟨rfl, rfl⟩, rfl⟩
                    obtain ⟨rfl, hn⟩ := ih.1 hs
                    exact ⟨⟨rfl, rfl⟩, by omega⟩
                  · rintro ⟨⟨rfl, rfl⟩, hn⟩
                    exact ⟨_, _, ih.2 ⟨rfl, by omega⟩, ⟨rfl, rfl⟩, rfl⟩
              · next hlt =>
                  -- The place lies inside of the first character.
                  simp only [reduceCtorEq, List.cons_append, List.cons.injEq, byteLength_cons,
                    false_iff, not_and]
                  rintro ⟨rfl, -⟩
                  omega

theorem slice?_append (front piece rest : List Char) :
    slice? (front ++ (piece ++ rest)) (byteLength front) (byteLength (front ++ piece)) =
      some piece := by
  rw [slice?, if_pos (by simp), splitBytes?_eq_some_iff.2 ⟨rfl, rfl⟩, Option.bind_some,
    byteLength_append, Nat.add_sub_cancel_left, splitBytes?_eq_some_iff.2 ⟨rfl, rfl⟩]
  rfl

theorem charAt?_append (front rest : List Char) :
    charAt? (front ++ rest) (byteLength front) = rest.head? := by
  rw [charAt?, splitBytes?_eq_some_iff.2 ⟨rfl, rfl⟩]
  rfl

/-! ### Cursors -/

/-- What is done with a cursor. -/
inductive Act where
  /-- It passes a byte, and others may follow at once. -/
  | pass (place : Nat)
  /-- It has been moved. -/
  | stop (place : Nat)
  /-- A text is cut out between two places, unless one of them is no boundary. -/
  | cut (start finish : Nat) (piece : Option (List Char))
  /-- The character at a place is quoted, if there is one. -/
  | quote (place : Nat) (found : Option Char)

/-- Where an act brings the cursor, if it moves it. -/
def Act.place? : Act → Option Nat
  | .pass place => some place
  | .stop place => some place
  | .cut _ _ _ => none
  | .quote _ _ => none

/-- A cursor, given by all that was done with it: it cannot move without account. -/
structure Cursor where
  /-- What was done so far, the latest first. -/
  acts : List Act

/-- How many bytes stand before the cursor: it is where it was brought last. -/
def Cursor.place (c : Cursor) : Nat := (c.acts.findSome? Act.place?).getD 0

/-- The cursor at the beginning of a text. -/
def Cursor.start : Cursor := ⟨[.stop 0]⟩

/-- Why a computation with a cursor ends early. -/
inductive Halt where
  /-- A fault of the text. -/
  | fault (offset : Nat) (cause : Cause)
  /-- More rounds or levels than it was allowed. -/
  | exhausted

/-- Computations that use a cursor. -/
abbrev Scan := EStateM Halt Cursor

namespace Scan

section Operations

variable {α : Type} (text : List Char)

/-- The place of the cursor. -/
def place : Scan Nat := do return (← get).place

/-- The byte at the cursor, or zero at the end of the text. -/
def current : Scan UInt8 := do return (bytes text).getD (← place) 0

/-- Whether the cursor is at the end of the text. -/
def atEnd : Scan Bool := do return decide ((bytes text).length ≤ (← place))

/-- Puts the cursor to a place. -/
def moveTo (place : Nat) : Scan Unit := modify fun c => ⟨.stop place :: c.acts⟩

/-- Moves over one byte, except at the end of the text. -/
def advance : Scan Unit := do
  if ← atEnd text then return ()
  else moveTo ((← place) + 1)

/-- Moves over a mark, if it comes next. -/
def eat (mark : Char) : Scan Bool := do
  if !(← atEnd text) && (← current text) == mark.toUInt8 then
    moveTo ((← place) + 1)
    return true
  else return false

/-- Moves over a sign, if one comes next. -/
def eatSign : Scan Bool := do
  if ← eat text '-' then return true
  else eat text '+'

/-- Passes bytes of a kind one by one, given those that are left. -/
def eatRun (p : UInt8 → Bool) : List UInt8 → Scan Unit
  | [] => do moveTo (← place)
  | b :: left => do
    if p b then
      modify fun c => ⟨.pass (c.place + 1) :: c.acts⟩
      eatRun p left
    else moveTo (← place)

/-- Moves over all bytes of a kind that come next. -/
def eatWhile (p : UInt8 → Bool) : Scan Unit := do eatRun p ((bytes text).drop (← place))

/-- Moves over all spaces that come next. -/
def eatSpaces : Scan Unit := eatWhile text (· == ' '.toUInt8)

/-- Moves to the next place of a mark, or to the end of the text if there is none. -/
def eatUntil (mark : Char) : Scan Bool := do
  match ((bytes text).drop (← place)).findIdx? (· == mark.toUInt8) with
  | some n =>
    moveTo ((← place) + n)
    return true
  | none =>
    moveTo (bytes text).length
    return false

/-- Cuts out the text from a place up to the cursor, or else the empty text. -/
def cutFrom (start : Nat) : Scan (List Char) := do
  let piece := slice? text start (← place)
  modify fun c => ⟨.cut start c.place piece :: c.acts⟩
  return piece.getD []

/-- Quotes the character at the cursor. -/
def quote : Scan (Option Char) := do
  let found := charAt? text (← place)
  modify fun c => ⟨.quote c.place found :: c.acts⟩
  return found

/-- Ends with a fault. -/
def faultAt (offset : Nat) (cause : Cause) : Scan α := throw (.fault offset cause)

/-- Ends with a fault at the cursor, where something else was expected. -/
def unexpected (expected : Expected) : Scan α := do
  let found ← quote text
  faultAt (← place) (.unexpected found expected)

end Operations

end Scan

/-! ### Sound places -/

/-- **What is done in sound places**: the cursor passes inside of the text and stops between
characters, and what is cut out and quoted there is part of the text. -/
def Act.Sound (text : List Char) : Act → Prop
  | .pass place => place ≤ byteLength text
  | .stop place => IsBoundary text place
  | .cut start finish piece => ∃ front part rest, text = front ++ (part ++ rest) ∧
      start = byteLength front ∧ finish = byteLength (front ++ part) ∧ piece = some part
  | .quote place found => ∃ front rest, text = front ++ rest ∧ place = byteLength front ∧
      found = rest.head?

/-- **A cursor before a rest of a text**, all acts of which were sound. -/
structure Cursor.Before (text rest : List Char) (c : Cursor) : Prop where
  /-- The rest is the end of the text. -/
  suffix : rest <:+ text
  /-- The cursor stands where the rest begins. -/
  place_add : c.place + byteLength rest = byteLength text
  /-- All acts were sound. -/
  sound : ∀ a ∈ c.acts, a.Sound text

/-- The byte that comes next, or zero at the end. -/
def firstByte (rest : List Char) : UInt8 := (bytes rest).headD 0

/-- The first byte shows of which kind the first character is. -/
theorem ByteClass.firstByte {p : UInt8 → Bool} {q : Char → Bool} (h : ByteClass p q)
    (hzero : p 0 = false) (rest : List Char) : p (firstByte rest) = rest.head?.any q := by
  cases rest with
  | nil => exact hzero
  | cons c rest =>
      obtain ⟨b, bs, hbs⟩ := List.exists_cons_of_ne_nil (@String.utf8EncodeChar_ne_nil c)
      rw [TreePath.firstByte, bytes_cons, hbs, List.cons_append, List.headD_cons, List.head?_cons,
        h c b (by simp [hbs]), Option.any_some]

/-- A mark comes next exactly where its byte does. -/
theorem firstByte_eq_iff {mark : Char} (hmark : mark.toNat < 128) (hne : mark.toUInt8 ≠ 0)
    {rest : List Char} : firstByte rest = mark.toUInt8 ↔ rest.head? = some mark := by
  have := (byteClass_mark hmark).firstByte (by simpa using hne.symm) rest
  rw [Bool.eq_iff_iff, beq_iff_eq, Option.any_eq_true] at this
  simpa using this

/-- The computation goes on with what the first part of it came to. -/
theorem Scan.bind_of_ok {α β : Type} {x : Scan α} {f : α → Scan β} {a : α} {c c' : Cursor}
    (h : x c = .ok a c') : (x >>= f) c = f a c' := by
  simp only [bind, EStateM.bind, h]

theorem Scan.cutFrom_eq (text : List Char) (start : Nat) (c : Cursor) :
    Scan.cutFrom text start c = .ok ((slice? text start c.place).getD [])
      ⟨.cut start c.place (slice? text start c.place) :: c.acts⟩ := rfl

theorem Scan.quote_eq (text : List Char) (c : Cursor) :
    Scan.quote text c = .ok (charAt? text c.place)
      ⟨.quote c.place (charAt? text c.place) :: c.acts⟩ := rfl

namespace Cursor.Before

variable {text rest piece : List Char} {c c' : Cursor} {mark : Char}

/-- The text in front of the cursor. -/
theorem exists_front (h : c.Before text rest) :
    ∃ front, text = front ++ rest ∧ c.place = byteLength front := by
  obtain ⟨front, rfl⟩ := h.suffix
  have := h.place_add
  rw [byteLength_append] at this
  exact ⟨front, rfl, by omega⟩

/-- A sound act that does not move the cursor. -/
theorem act (h : c.Before text rest) {a : Act} (ha : a.Sound text) (hstays : a.place? = none) :
    Cursor.place ⟨a :: c.acts⟩ = c.place ∧ Cursor.Before text rest ⟨a :: c.acts⟩ := by
  have hplace : Cursor.place ⟨a :: c.acts⟩ = c.place := by
    rw [Cursor.place, List.findSome?_cons_of_isNone (by rw [hstays]; rfl)]
    rfl
  exact ⟨hplace, h.suffix, hplace ▸ h.place_add, List.forall_mem_cons.2 ⟨ha, h.sound⟩⟩

/-- The bytes that are left are those of the rest. -/
theorem drop_bytes (h : c.Before text rest) : (bytes text).drop c.place = bytes rest := by
  obtain ⟨front, rfl, hplace⟩ := h.exists_front
  rw [hplace, ← length_bytes, bytes_append, List.drop_left]

theorem start (text : List Char) : Cursor.start.Before text text := by
  refine ⟨List.suffix_rfl, Nat.zero_add _, fun a ha => ?_⟩
  rw [Cursor.start, List.mem_singleton] at ha
  subst ha
  exact ⟨[], text, rfl, rfl⟩

theorem place (c : Cursor) : Scan.place c = .ok c.place c := rfl

theorem current (h : c.Before text rest) : Scan.current text c = .ok (firstByte rest) c := by
  have hbyte : (bytes text).getD c.place 0 = firstByte rest := by
    rw [firstByte, ← h.drop_bytes]
    simp [List.getD_eq_getElem?_getD, List.headD_eq_head?_getD, List.head?_drop]
  rw [← hbyte]
  rfl

theorem atEnd (h : c.Before text rest) : Scan.atEnd text c = .ok rest.isEmpty c := by
  have hend : decide ((bytes text).length ≤ c.place) = rest.isEmpty := by
    have := h.place_add
    rw [Bool.eq_iff_iff, decide_eq_true_eq, length_bytes, List.isEmpty_iff,
      ← byteLength_eq_zero_iff]
    omega
  rw [← hend]
  rfl

/-- A cursor that is put before a rest of the text. -/
theorem moveTo (hsound : ∀ a ∈ c.acts, a.Sound text) (hrest : rest <:+ text) {n : Nat}
    (hn : n + byteLength rest = byteLength text) :
    ∃ c', Scan.moveTo n c = .ok () c' ∧ c'.Before text rest := by
  obtain ⟨front, rfl⟩ := hrest
  rw [byteLength_append] at hn
  refine ⟨⟨.stop n :: c.acts⟩, rfl, List.suffix_append front rest, ?_, ?_⟩
  · rw [byteLength_append]
    exact hn
  · exact List.forall_mem_cons.2 ⟨⟨front, rest, rfl, by omega⟩, hsound⟩

/-- A mark at the cursor is moved over. -/
theorem moveTo_mark (h : c.Before text (mark :: rest)) (hmark : mark.toNat < 128) :
    ∃ c', Scan.moveTo (c.place + 1) c = .ok () c' ∧ c'.Before text rest := by
  have hsize : mark.utf8Size = 1 := by
    rw [← String.length_utf8EncodeChar, utf8EncodeChar_of_lt hmark, List.length_singleton]
  have hplace := h.place_add
  rw [byteLength_cons, hsize] at hplace
  exact moveTo h.sound ((List.suffix_cons mark rest).trans h.suffix) (by omega)

theorem advance (h : c.Before text (mark :: rest)) (hmark : mark.toNat < 128) :
    ∃ c', Scan.advance text c = .ok () c' ∧ c'.Before text rest := by
  obtain ⟨c', hmove, h'⟩ := h.moveTo_mark hmark
  refine ⟨c', ?_, h'⟩
  rw [Scan.advance, Scan.bind_of_ok h.atEnd]
  exact hmove

/-- **A mark is eaten where it comes next**, and nothing happens elsewhere. -/
theorem eat (h : c.Before text rest) (mark : Char) (hmark : mark.toNat < 128)
    (hne : mark.toUInt8 ≠ 0) :
    (∃ rest' c', rest = mark :: rest' ∧ Scan.eat text mark c = .ok true c' ∧
      c'.Before text rest') ∨
    (Stops (· == mark) rest ∧ Scan.eat text mark c = .ok false c) := by
  have hbyte := @firstByte_eq_iff mark hmark hne rest
  rw [Scan.eat, Scan.bind_of_ok h.atEnd, Scan.bind_of_ok h.current]
  cases rest with
  | nil => exact .inr ⟨stops_nil _, rfl⟩
  | cons d rest =>
      by_cases hd : d = mark
      · subst hd
        obtain ⟨c', hmove, h'⟩ := h.moveTo_mark hmark
        refine .inl ⟨rest, c', rfl, ?_, h'⟩
        rw [hbyte.2 rfl, if_pos (by simp), Scan.bind_of_ok (place c), Scan.bind_of_ok hmove]
        rfl
      · refine .inr ⟨by simpa using hd, ?_⟩
        have hfirst : firstByte (d :: rest) ≠ mark.toUInt8 := fun heq =>
          hd (Option.some.inj (hbyte.1 heq))
        rw [if_neg (by simpa using hfirst)]
        rfl

theorem eatSign (h : c.Before text rest) :
    ∃ signed c', Scan.eatSign text c = .ok signed c' ∧
      c'.Before text (Numeral.takeSign rest).2 := by
  rw [Scan.eatSign]
  rcases h.eat '-' (by decide) (by decide) with
    ⟨rest, c', rfl, heat, h'⟩ | ⟨hminus, heat⟩
  · exact ⟨true, c', by rw [Scan.bind_of_ok heat]; rfl, h'⟩
  · rw [Scan.bind_of_ok heat]
    rcases h.eat '+' (by decide) (by decide) with
      ⟨rest, c', rfl, heat, h'⟩ | ⟨hplus, heat⟩
    · exact ⟨true, c', heat, h'⟩
    · refine ⟨false, c, heat, ?_⟩
      rw [show Numeral.takeSign rest = (false, rest) from
        SignText.missing.takeSign_append (s := rest) fun d hd => by
          simp only [show (d == '-') = false from hminus d hd,
            show (d == '+') = false from hplus d hd, Bool.or_false]]
      exact h

/-- A run of bytes is passed, and the cursor stops after it. -/
theorem eatRun {p : UInt8 → Bool} {left : List UInt8} (hsound : ∀ a ∈ c.acts, a.Sound text)
    (hrest : rest <:+ text)
    (h : c.place + (left.takeWhile p).length + byteLength rest = byteLength text) :
    ∃ c', Scan.eatRun p left c = .ok () c' ∧ c'.Before text rest := by
  induction left generalizing c with
  | nil => exact moveTo hsound hrest h
  | cons b left ih =>
      rw [Scan.eatRun]
      cases hb : p b with
      | true =>
          -- The cursor may now stand inside of a character, but the run is not over there.
          rw [List.takeWhile_cons_of_pos hb, List.length_cons] at h
          have hpass : Act.Sound text (.pass (c.place + 1)) :=
            show c.place + 1 ≤ byteLength text by omega
          have hplace : Cursor.place ⟨.pass (c.place + 1) :: c.acts⟩ = c.place + 1 := rfl
          exact @ih ⟨.pass (c.place + 1) :: c.acts⟩ (List.forall_mem_cons.2 ⟨hpass, hsound⟩)
            (by rw [hplace]; omega)
      | false =>
          rw [List.takeWhile_cons_of_neg (by simp [hb])] at h
          exact moveTo hsound hrest h

/-- **All characters of a kind are passed**, byte by byte. -/
theorem eatWhile {p : UInt8 → Bool} {q : Char → Bool} (hclass : ByteClass p q)
    (h : c.Before text rest) :
    ∃ c', Scan.eatWhile text p c = .ok () c' ∧ c'.Before text (rest.dropWhile q) := by
  have hplace := h.place_add
  rw [← List.takeWhile_append_dropWhile (p := q) (l := rest), byteLength_append] at hplace
  refine eatRun h.sound ((List.dropWhile_suffix q).trans h.suffix) ?_
  rw [h.drop_bytes, hclass.takeWhile_bytes, length_bytes]
  omega

theorem eatSpaces (h : c.Before text rest) :
    ∃ c', Scan.eatSpaces text c = .ok () c' ∧ c'.Before text (skipSpaces rest) :=
  h.eatWhile (byteClass_mark (by decide))

/-- **The cursor comes before the next mark**, or to the end of the text. -/
theorem eatUntil (h : c.Before text rest) (hmark : mark.toNat < 128) :
    ∃ c', Scan.eatUntil text mark c = .ok (!(rest.dropWhile (· != mark)).isEmpty) c' ∧
      c'.Before text (rest.dropWhile (· != mark)) := by
  have hplace := h.place_add
  have hsuffix := (List.dropWhile_suffix (· != mark)).trans h.suffix
  rw [← List.takeWhile_append_dropWhile (p := (· != mark)) (l := rest), byteLength_append] at hplace
  rw [Scan.eatUntil, Scan.bind_of_ok (place c), h.drop_bytes, findIdx?_bytes hmark]
  cases hleft : rest.dropWhile (· != mark) with
  | nil =>
      rw [hleft, byteLength_nil] at hplace
      obtain ⟨c', hmove, h'⟩ := moveTo h.sound (List.nil_suffix (l := text))
        (n := (bytes text).length) (by simp)
      refine ⟨c', ?_, h'⟩
      simp only [List.isEmpty_nil, if_true, Scan.bind_of_ok hmove]
      rfl
  | cons d left =>
      rw [hleft] at hplace hsuffix
      obtain ⟨c', hmove, h'⟩ := moveTo h.sound hsuffix
        (n := c.place + byteLength (rest.takeWhile (· != mark))) (by omega)
      refine ⟨c', ?_, h'⟩
      simp only [List.isEmpty_cons, Bool.false_eq_true, if_false, Scan.bind_of_ok (place c),
        Scan.bind_of_ok hmove]
      rfl

/-- **What is cut out is what the cursor has passed**, character by character. -/
theorem cutFrom (h : c.Before text (piece ++ rest)) (h' : c'.Before text rest) :
    ∃ c'', Scan.cutFrom text c.place c' = .ok piece c'' ∧ c''.Before text rest := by
  obtain ⟨front, rfl, hstart⟩ := h.exists_front
  have hplace := h'.place_add
  have hfinish : c'.place = byteLength (front ++ piece) := by
    simp only [byteLength_append] at hplace ⊢
    omega
  have hpiece : slice? (front ++ (piece ++ rest)) c.place c'.place = some piece := by
    rw [hstart, hfinish]
    exact slice?_append front piece rest
  have hsound : Act.Sound (front ++ (piece ++ rest)) (.cut c.place c'.place (some piece)) :=
    ⟨front, piece, rest, rfl, hstart, hfinish, rfl⟩
  refine ⟨_, ?_, (h'.act hsound rfl).2⟩
  rw [Scan.cutFrom_eq, hpiece]
  rfl

/-- A cursor stands where it stood exactly if it has passed nothing. -/
theorem place_eq_iff (h : c.Before text (piece ++ rest)) (h' : c'.Before text rest) :
    c'.place = c.place ↔ piece = [] := by
  have hplace := h.place_add
  have hplace' := h'.place_add
  rw [byteLength_append] at hplace
  rw [← byteLength_eq_zero_iff]
  omega

/-- **What is quoted is the character that comes next.** -/
theorem quote (h : c.Before text rest) :
    ∃ c', Scan.quote text c = .ok rest.head? c' ∧ c'.place = c.place ∧ c'.Before text rest := by
  obtain ⟨front, rfl, hplace⟩ := h.exists_front
  have hfound : charAt? (front ++ rest) c.place = rest.head? := by
    rw [hplace]
    exact charAt?_append front rest
  have hsound : Act.Sound (front ++ rest) (.quote c.place rest.head?) :=
    ⟨front, rest, rfl, hplace, rfl⟩
  refine ⟨⟨.quote c.place rest.head? :: c.acts⟩, ?_, h.act hsound rfl⟩
  rw [Scan.quote_eq, hfound]

end Cursor.Before

end TreePath
