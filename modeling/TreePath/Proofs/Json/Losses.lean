/-
**What conversions and comparisons lose.**

Documents and values hold different numbers.  A value may hold a floating point number that is not
finite, for which documents have nothing but null; a document may hold an integer that needs all of
64 bits, for which values have nothing but the nearest floating point number.  Everything else goes
both ways as it is, at every depth: integers stay apart from floating point numbers of the same
size, a zero keeps its sign, and keys stay where they are.  So a second way there and back changes
nothing further.

The comparison of documents loses less.  It tells all documents apart that differ in anything but
the sign of a zero.

Main definitions:

* `Value.mapFloats`, `Json.mapNumbers` — a value and a document with other numbers;
* `Value.finiteOrNull`, `Json.Number.narrow` — what is put in place of numbers;
* `Json.Number.dropZeroSign` — a number with a positive zero in place of the negative one.

Main results:

* `Value.ofJson_ofValue` — a value made into a document and back;
* `Json.ofValue_ofJson` — a document made into a value and back;
* `Json.conversion_losses` — **what the ways there and back lose**;
* `Json.same_iff` — **what the comparison of documents loses**.
-/

import TreePath.Proofs.Binary64.Nearest
import TreePath.Proofs.Json.Conversion

set_option relaxedAutoImplicit false
set_option autoImplicit false

namespace TreePath

/-! ### Induction on the parts -/

/-- An induction on a document that goes down to its elements and members. -/
@[elab_as_elim]
theorem Json.induction_parts {motive : Json → Prop} (null : motive .null)
    (bool : ∀ b, motive (.bool b)) (number : ∀ n, motive (.number n))
    (string : ∀ s, motive (.string s))
    (array : ∀ items, (∀ v ∈ items, motive v) → motive (.array items))
    (object : ∀ members, (∀ e ∈ members, motive e.2) → motive (.object members)) (j : Json) :
    motive j :=
  @Json.rec motive (fun items => ∀ v ∈ items, motive v) (fun members => ∀ e ∈ members, motive e.2)
    (fun e => motive e.2) null bool number string array object (List.forall_mem_nil _)
    (fun _ _ hv hrest => List.forall_mem_cons.2 ⟨hv, hrest⟩) (List.forall_mem_nil _)
    (fun _ _ he hrest => List.forall_mem_cons.2 ⟨he, hrest⟩) (fun _ _ hv => hv) j

/-- An induction on a value that goes down to its elements and entries. -/
@[elab_as_elim]
theorem Value.induction_parts {motive : Value → Prop} (null : motive .null)
    (bool : ∀ b, motive (.bool b)) (int : ∀ n, motive (.int n)) (float : ∀ x, motive (.float x))
    (string : ∀ s, motive (.string s))
    (list : ∀ items, (∀ v ∈ items, motive v) → motive (.list items))
    (map : ∀ entries, (∀ e ∈ entries, motive e.2) → motive (.map entries)) (v : Value) :
    motive v :=
  @Value.rec motive (fun items => ∀ v ∈ items, motive v) (fun entries => ∀ e ∈ entries, motive e.2)
    (fun e => motive e.2) null bool int float string list map (List.forall_mem_nil _)
    (fun _ _ hv hrest => List.forall_mem_cons.2 ⟨hv, hrest⟩) (List.forall_mem_nil _)
    (fun _ _ he hrest => List.forall_mem_cons.2 ⟨he, hrest⟩) (fun _ _ hv => hv) v

/-! ### Other numbers -/

namespace Value

mutual

/-- A value with something else in place of each floating point number, at every depth. -/
def mapFloats (f : Binary64 → Value) : Value → Value
  | .null => .null
  | .bool b => .bool b
  | .int n => .int n
  | .float x => f x
  | .string s => .string s
  | .list items => .list (mapFloatsOfItems f items)
  | .map entries => .map (mapFloatsOfEntries f entries)

/-- The elements of a list, with something else in place of each floating point number. -/
def mapFloatsOfItems (f : Binary64 → Value) : List Value → List Value
  | [] => []
  | v :: rest => v.mapFloats f :: mapFloatsOfItems f rest

/-- The entries of a map, with something else in place of each floating point number. -/
def mapFloatsOfEntries (f : Binary64 → Value) : List (String × Value) → List (String × Value)
  | [] => []
  | (k, v) :: rest => (k, v.mapFloats f) :: mapFloatsOfEntries f rest

end

variable (f : Binary64 → Value)

theorem mapFloatsOfItems_eq_map (items : List Value) :
    mapFloatsOfItems f items = items.map (mapFloats f) := by
  induction items with
  | nil => rfl
  | cons v rest ih => rw [mapFloatsOfItems, ih, List.map_cons]

theorem mapFloatsOfEntries_eq_map (entries : List (String × Value)) :
    mapFloatsOfEntries f entries = entries.map fun e => (e.1, e.2.mapFloats f) := by
  induction entries with
  | nil => rfl
  | cons e rest ih => rw [mapFloatsOfEntries, ih, List.map_cons]

end Value

namespace Json

mutual

/-- A document with another number in place of each number, at every depth. -/
def mapNumbers (f : Number → Number) : Json → Json
  | .null => .null
  | .bool b => .bool b
  | .number n => .number (f n)
  | .string s => .string s
  | .array items => .array (mapNumbersOfItems f items)
  | .object members => .object (mapNumbersOfMembers f members)

/-- The elements of an array, with another number in place of each number. -/
def mapNumbersOfItems (f : Number → Number) : List Json → List Json
  | [] => []
  | v :: rest => v.mapNumbers f :: mapNumbersOfItems f rest

/-- The members of an object, with another number in place of each number. -/
def mapNumbersOfMembers (f : Number → Number) : List (String × Json) → List (String × Json)
  | [] => []
  | (k, v) :: rest => (k, v.mapNumbers f) :: mapNumbersOfMembers f rest

end

variable (f : Number → Number)

theorem mapNumbersOfItems_eq_map (items : List Json) :
    mapNumbersOfItems f items = items.map (mapNumbers f) := by
  induction items with
  | nil => rfl
  | cons v rest ih => rw [mapNumbersOfItems, ih, List.map_cons]

theorem mapNumbersOfMembers_eq_map (members : List (String × Json)) :
    mapNumbersOfMembers f members = members.map fun e => (e.1, e.2.mapNumbers f) := by
  induction members with
  | nil => rfl
  | cons e rest ih => rw [mapNumbersOfMembers, ih, List.map_cons]

end Json

/-! ### A value made into a document and back -/

/-- A floating point number if it is finite, else null. -/
def Value.finiteOrNull (x : Binary64) : Value := if x.isFinite then .float x else .null

/-- **A value made into a document and back** has null in place of each number that is not
finite. -/
theorem Value.ofJson_ofValue (v : Value) : .ofJson (Json.ofValue v) = v.mapFloats finiteOrNull := by
  induction v using Value.induction_parts with
  | null | bool | string => rfl
  | int n => exact ofInteger_toInt n
  | float x =>
      by_cases h : x.isFinite = true
      · simp [Json.ofValue, Json.Number.ofBinary64?, h, Value.ofJson, mapFloats, finiteOrNull]
      · simp [Json.ofValue, Json.Number.ofBinary64?, h, Value.ofJson, mapFloats, finiteOrNull]
  | list items ih =>
      rw [Json.ofValue, Value.ofJson, mapFloats, itemsOfValues_eq_map, valuesOfItems_eq_map,
        mapFloatsOfItems_eq_map, List.map_map]
      exact congrArg Value.list (List.map_congr_left ih)
  | map entries ih =>
      have hentry : ∀ e ∈ entries, (e.1, Value.ofJson (Json.ofValue e.2)) =
          (e.1, e.2.mapFloats finiteOrNull) := fun e he => by rw [ih e he]
      rw [Json.ofValue, Value.ofJson, mapFloats, membersOfEntries_eq_map, entriesOfMembers_eq_map,
        mapFloatsOfEntries_eq_map, List.map_map]
      exact congrArg Value.map (List.map_congr_left hentry)

/-! ### A document made into a value and back -/

namespace Json

namespace Number

/-- An integer of a document is finite as a floating point number. -/
theorem isFinite_ofInteger {n : Int} (least : -0x8000000000000000 ≤ n)
    (greatest : n < 0x10000000000000000) : (Binary64.ofInt n).isFinite = true :=
  Binary64.isFinite_ofInt (by omega)

/-- A number as a value can hold it: an integer beyond those of 64 bits with sign as the nearest
floating point number, any other number as it is. -/
def narrow : Number → Number
  | .integer n least greatest =>
    if n < 0x8000000000000000 then .integer n least greatest
    else .float (.ofInt n) (isFinite_ofInteger least greatest)
  | .float x finite => .float x finite

/-- Of the integers of documents, the values have those of 64 bits with sign. -/
theorem toInt64?_eq_none_iff {n : Int} (least : -0x8000000000000000 ≤ n) :
    Numeral.toInt64? n = none ↔ 0x8000000000000000 ≤ n := by
  rw [Numeral.toInt64?, ite_eq_right_iff]
  constructor
  · intro h
    by_contra hlt
    cases h ⟨least, Int.not_le.1 hlt⟩
  · rintro h ⟨-, hlt⟩
    omega

/-- An integer made into a value and back. -/
theorem ofValue_ofInteger {n : Int} (least : -0x8000000000000000 ≤ n)
    (greatest : n < 0x10000000000000000) :
    ofValue (.ofInteger n) = .number (narrow (.integer n least greatest)) := by
  rw [Value.ofInteger, narrow]
  split
  · next m hm =>
      have hlt : n < 0x8000000000000000 := by
        by_contra hle
        rw [(toInt64?_eq_none_iff least).2 (Int.not_lt.1 hle)] at hm
        cases hm
      obtain rfl : m.toInt = n := by
        rw [Numeral.toInt64?, if_pos ⟨least, hlt⟩, Option.some.injEq] at hm
        rw [← hm]
        exact Int64.toInt_ofInt_of_le least hlt
      rw [if_pos hlt]
      rfl
  · next hm =>
      have hle := (toInt64?_eq_none_iff least).1 hm
      rw [if_neg (Int.not_lt.2 hle), ofValue, ofBinary64?, dif_pos]

end Number

/-- **A document made into a value and back** has the nearest floating point number in place of each
integer that does not fit 64 bits with sign. -/
theorem ofValue_ofJson (j : Json) : ofValue (.ofJson j) = j.mapNumbers Number.narrow := by
  induction j using Json.induction_parts with
  | null | bool | string => rfl
  | number n =>
      cases n with
      | integer n least greatest => exact Number.ofValue_ofInteger least greatest
      | float x finite => simp [Value.ofJson, ofValue, Number.ofBinary64?, finite, mapNumbers,
          Number.narrow]
  | array items ih =>
      rw [Value.ofJson, ofValue, mapNumbers, valuesOfItems_eq_map, itemsOfValues_eq_map,
        mapNumbersOfItems_eq_map, List.map_map]
      exact congrArg array (List.map_congr_left ih)
  | object members ih =>
      have hmember : ∀ e ∈ members, (e.1, ofValue (.ofJson e.2)) =
          (e.1, e.2.mapNumbers Number.narrow) := fun e he => by rw [ih e he]
      rw [Value.ofJson, ofValue, mapNumbers, entriesOfMembers_eq_map, membersOfEntries_eq_map,
        mapNumbersOfMembers_eq_map, List.map_map]
      exact congrArg object (List.map_congr_left hmember)

/-- A value that comes from a document holds finite numbers only, and survives the way back. -/
theorem ofJson_ofValue_ofJson (j : Json) :
    Value.ofJson (ofValue (.ofJson j)) = Value.ofJson j := by
  rw [Value.ofJson_ofValue]
  induction j using Json.induction_parts with
  | null | bool | string => rfl
  | number n =>
      cases n with
      | integer n least greatest =>
          rw [Value.ofJson, Value.ofInteger]
          split
          · rfl
          · rw [Value.mapFloats, Value.finiteOrNull,
              if_pos (Number.isFinite_ofInteger least greatest)]
      | float x finite => rw [Value.ofJson, Value.mapFloats, Value.finiteOrNull, if_pos finite]
  | array items ih =>
      rw [Value.ofJson, Value.mapFloats, valuesOfItems_eq_map, Value.mapFloatsOfItems_eq_map,
        List.map_map]
      exact congrArg Value.list (List.map_congr_left ih)
  | object members ih =>
      have hmember : ∀ e ∈ members, (e.1, (Value.ofJson e.2).mapFloats Value.finiteOrNull) =
          (e.1, Value.ofJson e.2) := fun e he => by rw [ih e he]
      rw [Value.ofJson, Value.mapFloats, entriesOfMembers_eq_map, Value.mapFloatsOfEntries_eq_map,
        List.map_map]
      exact congrArg Value.map (List.map_congr_left hmember)

/-! ### Keys in order -/

/-- Entries in order are converted as entries in any order would be, each put in the place of its
key. -/
theorem ofValue_map_of_ascending {entries : List (String × Value)}
    (h : Entries.Ascending entries) :
    ofValue (.map entries) = ofMembers (entries.map fun e => (e.1, ofValue e.2)) := by
  have hmembers := Value.ascending_membersOfEntries h
  rw [membersOfEntries_eq_map] at hmembers
  rw [ofValue, membersOfEntries_eq_map, ofMembers, Entries.ofList_of_ascending hmembers]

theorem ofJson_object_of_ascending {members : List (String × Json)}
    (h : Entries.Ascending members) :
    Value.ofJson (.object members) = .ofEntries (members.map fun e => (e.1, .ofJson e.2)) := by
  have hentries : Entries.Ascending (members.map fun e => (e.1, Value.ofJson e.2)) := by
    rw [Entries.Ascending, List.map_map]
    exact h
  rw [Value.ofJson, entriesOfMembers_eq_map, Value.ofEntries, Entries.ofList_of_ascending hentries]

/-! ### What is lost -/

/-- **What the ways there and back lose.**  A value made into a document and back has null in place
of each number that is not finite, and is otherwise the same.  A document made into a value and back
has a nearest floating point number in place of each integer from `2 ^ 63` on, and is otherwise the
same.  Going there and back once more changes nothing further.  On both ways, keys in order make
the same collection whether they are kept or put into it one by one. -/
theorem conversion_losses :
    (∀ v : Value, .ofJson (ofValue v) = v.mapFloats Value.finiteOrNull) ∧
    (∀ j : Json, ofValue (.ofJson j) = j.mapNumbers Number.narrow) ∧
    (∀ n : Number, match n with
      | .integer k least greatest =>
        if k < 0x8000000000000000 then n.narrow = .integer k least greatest
        else ∃ x finite, n.narrow = .float x finite ∧ Binary64.RoundsToEven k x
      | .float x finite => n.narrow = .float x finite) ∧
    (∀ v : Value, let back := Value.ofJson (ofValue v); .ofJson (ofValue back) = back) ∧
    (∀ j : Json, let back := ofValue (.ofJson j); ofValue (.ofJson back) = back) ∧
    (∀ entries : List (String × Value), Entries.Ascending entries →
      ofValue (.map entries) = ofMembers (entries.map fun e => (e.1, ofValue e.2))) ∧
    ∀ members : List (String × Json), Entries.Ascending members →
      Value.ofJson (.object members) = .ofEntries (members.map fun e => (e.1, .ofJson e.2)) := by
  refine ⟨Value.ofJson_ofValue, ofValue_ofJson, ?_, ?_, ?_, ?_, ?_⟩
  · intro n
    cases n with
    | integer k least greatest =>
        by_cases hk : k < 0x8000000000000000
        · simp only [Number.narrow, if_pos hk]
        · simp only [Number.narrow, if_neg hk]
          exact ⟨_, Number.isFinite_ofInteger least greatest, rfl,
            Binary64.roundsToEven_ofInt (by omega)⟩
    | float x finite => rfl
  · intro v
    exact ofJson_ofValue_ofJson (ofValue v)
  · intro j
    exact congrArg ofValue (ofJson_ofValue_ofJson j)
  · intro entries h
    exact ofValue_map_of_ascending h
  · intro members h
    exact ofJson_object_of_ascending h

/-- A map of a not-a-number, a negative zero and a whole floating point number, and an object of the
greatest integers of both kinds. -/
theorem conversion_losses_wide :
    let entries : List (String × Value) :=
      [("a", .float .nan), ("b", .float (.neg .zero)), ("c", .float (.ofInt 1))]
    let members : List (String × Json) :=
      [("a", .number (.integer 0x7fffffffffffffff (by decide) (by decide))),
        ("b", .number (.integer 0xffffffffffffffff (by decide) (by decide)))]
    Entries.Ascending entries ∧ Entries.Ascending members ∧
    .ofJson (ofValue (.map entries)) =
      Value.map [("a", .null), ("b", .float (.neg .zero)), ("c", .float (.ofInt 1))] ∧
    ofValue (.ofJson (.object members)) =
      .object [("a", .number (.integer 0x7fffffffffffffff (by decide) (by decide))),
        ("b", .number (.float ⟨0x43f0000000000000⟩ (by decide)))] ∧
    ofValue (.map entries) = ofMembers (entries.map fun e => (e.1, ofValue e.2)) ∧
    Value.ofJson (.object members) = .ofEntries (members.map fun e => (e.1, .ofJson e.2)) := by
  intro entries members
  have hentries : ["a", "b", "c"].Pairwise (· < ·) := by decide
  have hmembers : ["a", "b"].Pairwise (· < ·) := by decide
  have hwide : Binary64.ofInt 0xffffffffffffffff = ⟨0x43f0000000000000⟩ := by decide +kernel
  obtain ⟨hvalue, hdocument, -, -, -, hmap, hobject⟩ := conversion_losses
  refine ⟨hentries, hmembers, ?_, ?_, hmap _ hentries, hobject _ hmembers⟩
  · have hnan : Binary64.nan.isFinite = false := by decide
    have hzero : (Binary64.neg .zero).isFinite = true := by decide
    have hone : (Binary64.ofInt 1).isFinite = true := by decide +kernel
    rw [hvalue]
    simp [entries, Value.mapFloats, Value.mapFloatsOfEntries, Value.finiteOrNull, hnan, hzero, hone]
  · rw [hdocument]
    simp [members, mapNumbers, mapNumbersOfMembers, Number.narrow, hwide]

end Json

/-! ### The comparison of documents -/

/-- A number, with a positive zero in place of the negative one. -/
def Binary64.dropZeroSign (x : Binary64) : Binary64 := if x.isZero then .zero else x

namespace Binary64

/-- A bit pattern is put together of the sign and the magnitude. -/
theorem toNat_bits (x : Binary64) :
    x.bits.toNat = (if x.isNegative then signBit else 0) + x.magnitude := by
  have hlt := x.bits.toNat_lt
  simp only [isNegative, magnitude, decide_eq_true_eq]
  split
  · simp only [signBit] at *
    omega
  · simp only [signBit] at *
    omega

/-- A number that is not zero is told by its place among all numbers. -/
theorem eq_of_rank_eq {x y : Binary64} (hx : x.magnitude ≠ 0) (h : x.rank = y.rank) : x = y := by
  have hbits : x.bits.toNat = y.bits.toNat := by
    rw [toNat_bits, toNat_bits]
    rw [rank, rank] at h
    cases hxs : x.isNegative <;> cases hys : y.isNegative <;>
      simp only [hxs, hys, Bool.false_eq_true, if_true, if_false] at h ⊢ <;> omega
  exact congrArg ofBits (UInt64.toNat_inj.1 hbits)

theorem magnitude_eq_zero_iff {x : Binary64} : x.magnitude = 0 ↔ x.rank = 0 := by
  rw [rank]
  split <;> omega

theorem rank_dropZeroSign (x : Binary64) : x.dropZeroSign.rank = x.rank := by
  rw [dropZeroSign]
  split
  · next hx => exact (magnitude_eq_zero_iff.1 (beq_iff_eq.1 hx)).symm
  · rfl

/-- The place of a number among all numbers tells it but for the sign of a zero. -/
theorem dropZeroSign_eq_iff {x y : Binary64} :
    x.dropZeroSign = y.dropZeroSign ↔ x.rank = y.rank := by
  constructor
  · intro h
    rw [← rank_dropZeroSign x, h, rank_dropZeroSign]
  · intro h
    by_cases hx : x.magnitude = 0
    · have hy : y.magnitude = 0 := magnitude_eq_zero_iff.2 (h ▸ magnitude_eq_zero_iff.1 hx)
      simp [dropZeroSign, isZero, hx, hy]
    · rw [eq_of_rank_eq hx h]

/-- Numbers are numerically equal when they are the same but for the sign of a zero. -/
theorem numEq_iff {x y : Binary64} (hx : x.isNaN = false) (hy : y.isNaN = false) :
    x.numEq y = true ↔ x.dropZeroSign = y.dropZeroSign := by
  simp [numEq, hx, hy, dropZeroSign_eq_iff]

end Binary64

namespace Json

/-- A number, with a positive zero in place of the negative one. -/
def Number.dropZeroSign : Number → Number
  | .integer n least greatest => .integer n least greatest
  | .float x finite => .float x.dropZeroSign (by rw [Binary64.dropZeroSign]; split <;> trivial)

theorem Number.same_iff (m n : Number) : m.same n = true ↔ m.dropZeroSign = n.dropZeroSign := by
  cases m with
  | integer k => cases n <;> simp [same, dropZeroSign]
  | float x hx =>
      cases n with
      | integer k => simp [same, dropZeroSign]
      | float y hy =>
          rw [same, Binary64.numEq_iff (Binary64.isNaN_eq_false_of_isFinite hx)
            (Binary64.isNaN_eq_false_of_isFinite hy)]
          simp [dropZeroSign]

theorem sameItems_iff {as : List Json} (h : ∀ a ∈ as, ∀ b : Json, a.same b = true ↔
      a.mapNumbers Number.dropZeroSign = b.mapNumbers Number.dropZeroSign) (bs : List Json) :
    sameItems as bs = true ↔
      mapNumbersOfItems Number.dropZeroSign as = mapNumbersOfItems Number.dropZeroSign bs := by
  induction as generalizing bs with
  | nil => cases bs <;> simp [sameItems, mapNumbersOfItems]
  | cons a as ih =>
      obtain ⟨ha, has⟩ := List.forall_mem_cons.1 h
      cases bs with
      | nil => simp [sameItems, mapNumbersOfItems]
      | cons b bs => simp [sameItems, mapNumbersOfItems, ha b, ih has bs]

theorem sameMembers_iff {as : List (String × Json)} (h : ∀ a ∈ as, ∀ b : Json,
      a.2.same b = true ↔
        a.2.mapNumbers Number.dropZeroSign = b.mapNumbers Number.dropZeroSign)
    (bs : List (String × Json)) :
    sameMembers as bs = true ↔
      mapNumbersOfMembers Number.dropZeroSign as = mapNumbersOfMembers Number.dropZeroSign bs := by
  induction as generalizing bs with
  | nil => cases bs <;> simp [sameMembers, mapNumbersOfMembers]
  | cons a as ih =>
      obtain ⟨ha, has⟩ := List.forall_mem_cons.1 h
      cases bs with
      | nil => simp [sameMembers, mapNumbersOfMembers]
      | cons b bs => simp [sameMembers, mapNumbersOfMembers, ha b.2, ih has bs]

/-- **What the comparison of documents loses.**  Two documents are taken for the same when they are
equal but for the signs of zeros. -/
theorem same_iff (a b : Json) :
    a.same b = true ↔ a.mapNumbers Number.dropZeroSign = b.mapNumbers Number.dropZeroSign := by
  induction a using Json.induction_parts generalizing b with
  | null | bool | string => cases b <;> simp [same, mapNumbers]
  | number n => cases b <;> simp [same, mapNumbers, n.same_iff]
  | array items ih => cases b <;> simp [same, mapNumbers, sameItems_iff ih]
  | object members ih => cases b <;> simp [same, mapNumbers, sameMembers_iff ih]

/-- Documents in a row are the same as themselves. -/
theorem sameItems_self (items : List Json) : sameItems items items = true :=
  (sameItems_iff (fun a _ => same_iff a) items).2 rfl

end Json

end TreePath
