/-
**The window that a range selects.**

`Slice.resolve` places both bounds of a range in a sequence of given length.  The rule is short over
the integers: a negative bound counts back from the end, and what falls outside of the sequence is
moved to its nearest end (`Slice.norm`).  A program has words of 64 bits for it: the length must be
turned into a signed number, which fails for the greatest lengths, the bound is added with
saturation, and the sum is turned back.  `Slice.resolveWord?` is that computation, where an
operation whose exact result has no word gives `none`; it always gives an answer, and the answer is
that of `Slice.resolve`.

Main definitions:

* `Slice.norm` — a bound by the rule, over the integers;
* `Slice.resolveWord?` — the first and the last index of a range, with words of 64 bits;
* `Slice.window` — the indices of a range, in order.

Main results:

* `Slice.resolve_eq_norm` — the rule, for every length that is a signed number;
* `Slice.resolveWord?_eq` — with words of 64 bits nothing overflows, for every length;
* `Slice.map_select_window`, `Target.map_select_window` — an item step selects the elements at the
  indices of the window, one after the other;
* `Slice.resolve_window` — a range selects its window, from its text to the nodes that are found.
-/

import TreePath.Condition.Builtin
import TreePath.Proofs.Evaluation.Refinement
import TreePath.Proofs.Path.Recognition

set_option relaxedAutoImplicit false
set_option autoImplicit false

namespace TreePath

namespace Slice

/-! ### The rule -/

/-- The place of a bound in a sequence of `length` elements, over the integers: a negative bound
counts back from the end, and the place is held between the first and the last index. -/
def norm (bound : Int64) (length : Nat) : Int :=
  max 0 (min (if 0 ≤ bound.toInt then bound.toInt else length + bound.toInt) (length - 1))

theorem place_eq_norm (bound : Int64) {length : Nat} (hpos : 0 < length)
    (hmax : length ≤ 0x7fffffffffffffff) : (place bound length : Int) = norm bound length := by
  simp only [place, norm]
  have hmin : min length 0x7fffffffffffffff = length := by omega
  rw [hmin]
  by_cases hbound : bound.toInt < 0
  · rw [if_pos hbound, if_neg (by omega)]
    omega
  · rw [if_neg hbound, if_pos (by omega)]
    omega

/-- **The indices of a range, by the rule.** -/
theorem resolve_eq_norm (s : Slice) {length : Nat} (hmax : length ≤ 0x7fffffffffffffff) :
    s.resolve length =
      if length = 0 ∨ norm s.stop length < norm s.start length then none
      else some ((norm s.start length).toNat, (norm s.stop length).toNat) := by
  by_cases hlength : length = 0
  · rw [resolve, if_pos hlength, if_pos (.inl hlength)]
  · have hstart := place_eq_norm s.start (Nat.pos_of_ne_zero hlength) hmax
    have hstop := place_eq_norm s.stop (Nat.pos_of_ne_zero hlength) hmax
    simp only [resolve, if_neg hlength, ← hstart, ← hstop, Int.toNat_natCast]
    by_cases hle : place s.start length ≤ place s.stop length
    · rw [if_pos hle, if_neg (by omega)]
    · rw [if_neg hle, if_pos (by omega)]

/-! ### Words of 64 bits -/

/-- The word equal to an integer, if there is one. -/
def toWord? (n : Int) : Option UInt64 :=
  if 0 ≤ n ∧ n < 0x10000000000000000 then some (UInt64.ofNat n.toNat) else none

/-- The sum of two signed words, or the signed word nearest to it. -/
def saturatingAdd (a b : Int64) : Int64 :=
  Int64.ofInt (max (-0x8000000000000000) (min (a.toInt + b.toInt) 0x7fffffffffffffff))

/-- A length as a signed word; none counts for more than the greatest. -/
def signedLength (length : UInt64) : Int64 :=
  (Numeral.toInt64? length.toNat).getD Int64.maxValue

/-- Where a bound stands as counted from the start, in the sequence or out of it. -/
def fromStart (bound : Int64) (length : UInt64) : Int64 :=
  if bound < 0 then saturatingAdd (signedLength length) bound else bound

/-- The index that a bound stands for in a sequence of `length` elements.  There is none if the last
index of the sequence is not a word. -/
def placeWord? (bound : Int64) (length : UInt64) : Option UInt64 :=
  if fromStart bound length ≤ 0 then some 0
  else
    (toWord? (length.toNat - 1)).map fun greatest =>
      match toWord? (fromStart bound length).toInt with
      | none => greatest
      | some index => min index greatest

/-- The first and the last index of a range, if it selects anything; `none` on the outside is an
overflow. -/
def resolveWord? (s : Slice) (length : UInt64) : Option (Option (UInt64 × UInt64)) :=
  if length = 0 then some none
  else
    (placeWord? s.start length).bind fun first =>
      (placeWord? s.stop length).map fun last =>
        if first ≤ last then some (first, last) else none

theorem toNat_of_toWord? {n : Int} {w : UInt64} (h : toWord? n = some w) : (w.toNat : Int) = n := by
  simp only [toWord?] at h
  split at h
  · next hn =>
    cases h
    rw [UInt64.toNat_ofNat_of_lt' (by simp only [UInt64.size]; omega)]
    exact Int.toNat_of_nonneg hn.1
  · cases h

theorem toWord?_eq_some {n : Int} (hlow : 0 ≤ n) (hhigh : n < 0x10000000000000000) :
    ∃ w, toWord? n = some w :=
  ⟨_, if_pos ⟨hlow, hhigh⟩⟩

theorem toInt_signedLength (length : UInt64) :
    (signedLength length).toInt = (min length.toNat 0x7fffffffffffffff : Nat) := by
  simp only [signedLength, Numeral.toInt64?]
  split
  · rw [Option.getD_some, Int64.toInt_ofInt_of_le (by omega) (by omega)]
    omega
  · rw [Option.getD_none, Int64.toInt_maxValue]
    omega

/-- A negative number is added to one that is not without reaching either end. -/
theorem toInt_saturatingAdd {a b : Int64} (ha : 0 ≤ a.toInt) (hb : b.toInt < 0) :
    (saturatingAdd a b).toInt = a.toInt + b.toInt := by
  have hlow := b.le_toInt
  have hhigh := a.toInt_lt
  have hexact : max (-0x8000000000000000) (min (a.toInt + b.toInt) 0x7fffffffffffffff) =
      a.toInt + b.toInt := by omega
  rw [saturatingAdd, hexact]
  exact Int64.toInt_ofInt_of_le (by omega) (by omega)

theorem toInt_fromStart (bound : Int64) (length : UInt64) :
    (fromStart bound length).toInt =
      if bound.toInt < 0 then ((min length.toNat 0x7fffffffffffffff : Nat) : Int) + bound.toInt
      else bound.toInt := by
  have hlength := toInt_signedLength length
  by_cases hbound : bound.toInt < 0
  · rw [fromStart, if_pos (Int64.lt_iff_toInt_lt.2 hbound), if_pos hbound,
      toInt_saturatingAdd (by omega) hbound, hlength]
  · rw [fromStart, if_neg (fun h => hbound (Int64.lt_iff_toInt_lt.1 h)), if_neg hbound]

/-- **A bound is placed without an overflow.** -/
theorem placeWord?_eq (bound : Int64) {length : UInt64} (hpos : 0 < length.toNat) :
    ∃ w, placeWord? bound length = some w ∧ w.toNat = place bound length.toNat := by
  have hlt := length.toNat_lt
  have hmax := (fromStart bound length).toInt_lt
  obtain ⟨greatest, hgreatest⟩ := toWord?_eq_some (n := length.toNat - 1) (by omega) (by omega)
  have htop := toNat_of_toWord? hgreatest
  simp only [placeWord?, place, ← toInt_fromStart, hgreatest, Option.map_some]
  by_cases hle : fromStart bound length ≤ 0
  · have : (fromStart bound length).toInt ≤ 0 := Int64.le_iff_toInt_le.1 hle
    refine ⟨0, if_pos hle, ?_⟩
    rw [UInt64.toNat_zero]
    omega
  · have : ¬ (fromStart bound length).toInt ≤ 0 := fun h => hle (Int64.le_iff_toInt_le.2 h)
    obtain ⟨index, hindex⟩ :=
      toWord?_eq_some (n := (fromStart bound length).toInt) (by omega) (by omega)
    have hplace := toNat_of_toWord? hindex
    refine ⟨min index greatest, by rw [if_neg hle, hindex], ?_⟩
    rw [UInt64.toNat_min]
    omega

/-- **The indices of a range are found without an overflow**, whatever the length. -/
theorem resolveWord?_eq (s : Slice) (length : UInt64) :
    ∃ answer, s.resolveWord? length = some answer ∧
      answer.map (fun w => (w.1.toNat, w.2.toNat)) = s.resolve length.toNat := by
  by_cases hlength : length = 0
  · subst hlength
    exact ⟨none, rfl, rfl⟩
  · have hne : length.toNat ≠ 0 := fun h => hlength (UInt64.toNat_inj.1 h)
    obtain ⟨first, hfirst, hstart⟩ := placeWord?_eq s.start (Nat.pos_of_ne_zero hne)
    obtain ⟨last, hlast, hstop⟩ := placeWord?_eq s.stop (Nat.pos_of_ne_zero hne)
    refine ⟨if first ≤ last then some (first, last) else none, ?_, ?_⟩
    · rw [resolveWord?, if_neg hlength, hfirst, hlast, Option.bind_some, Option.map_some]
    · simp only [resolve, if_neg hne, ← hstart, ← hstop, ← UInt64.le_iff_toNat_le]
      split <;> rfl

/-! ### The window -/

/-- **The indices that a range selects** in a sequence of `length` elements, in order. -/
def window (s : Slice) (length : Nat) : List Nat :=
  match s.resolve length with
  | none => []
  | some (first, last) => List.range' first (last + 1 - first)

/-- The window lies in the sequence. -/
theorem lt_of_mem_window {s : Slice} {length i : Nat} (h : i ∈ s.window length) : i < length := by
  simp only [window] at h
  split at h
  · cases h
  · next first last hresolve =>
    have hbounds := resolve_bounds hresolve
    have := List.mem_range'_1.1 h
    omega

/-- **A range selects the elements of its window**, one after the other. -/
theorem map_select_window {α : Type} (s : Slice) (items : List α) :
    (s.select items).map some = (s.window items.length).map fun i => items[i]? := by
  simp only [select, window]
  cases hresolve : s.resolve items.length with
  | none => rfl
  | some bounds =>
      obtain ⟨first, last⟩ := bounds
      have hbounds := resolve_bounds hresolve
      refine List.ext_getElem ?_ fun i hi hi' => ?_
      · simp only [List.length_map, List.length_take, List.length_drop, List.length_range']
        omega
      · simp only [List.length_map, List.length_range'] at hi'
        simp

end Slice

/-! ### What a range selects from a list -/

/-- **An item step selects from a list** the elements of the window, each at its index. -/
theorem Target.map_select_window (range : Slice) {n : Node} {items : List Value}
    (hlist : n.value = .list items) :
    ((Target.item (some range)).select n).map some =
      (range.window items.length).map fun i => items[i]?.map (n.below (.index i)) := by
  have helements : n.elements = items.mapIdx fun i v => n.below (.index i) v := by
    simp only [Node.elements, Node.children, hlist]
  rw [Target.select, Slice.map_select_window, helements, List.length_mapIdx]
  exact List.map_congr_left fun i _ => List.getElem?_mapIdx

/-! ### From the text of a range -/

/-- A filter ends with a bracket. -/
theorem FilterText.getLast?_eq {ctx : Context} {R : List Char → Path → Prop} {s : List Char}
    {f : Filter} (h : FilterText ctx R s f) : s.getLast? = some ')' := by
  cases h with
  | mk => simp only [← List.cons_append, ← List.append_assoc, List.getLast?_concat]

/-- A single step between brackets is an item step without a filter, and the text between them is
that of its range. -/
theorem StepText.rangeText {ctx : Context} {R : List Char → Path → Prop} {s : List Char} {st : Step}
    (h : StepText ctx R ('[' :: (s ++ [']'])) st) :
    ∃ range, RangeText s range ∧ st = ⟨.item range, none⟩ := by
  generalize htext : '[' :: (s ++ [']']) = text at h
  cases h with
  | plain h =>
      cases h with
      | child => cases htext
      | descendant => cases htext
      | item h =>
          obtain ⟨rfl, -⟩ := List.append_inj' (List.cons.inj htext).2 rfl
          exact ⟨_, h, rfl⟩
  | filtered h hf =>
      -- The filter would have to end with the bracket of the range.
      have hlast := hf.getLast?_eq
      rename_i u _ _
      have : u ≠ [] := by rintro rfl; cases hlast
      have hwhole := congrArg List.getLast? htext
      rw [List.getLast?_append_of_ne_nil _ this, hlast, ← List.cons_append,
        List.getLast?_concat] at hwhole
      cases hwhole

theorem steps_of_compile_range {ctx : Context} {text : String} {p : Path}
    (h : compile ctx ("[" ++ text ++ "]") = .ok p) (hone : p.steps.length = 1) :
    ∃ range, RangeText text.toList range ∧ p.steps = [⟨.item range, none⟩] := by
  have hlist : ("[" ++ text ++ "]").toList = '[' :: (text.toList ++ [']']) := by simp
  have htext := compile_eq_ok_iff.1 h
  rw [hlist] at htext
  obtain ⟨hsteps, -⟩ := htext
  generalize hs : '[' :: (text.toList ++ [']']) = s at hsteps
  cases hsteps with
  | nil => cases hs
  | cons hst hrest =>
      have hnil := List.length_eq_zero_iff.1 (Nat.succ.inj hone)
      obtain ⟨range, hrange, rfl⟩ := StepText.rangeText (by
        rw [hs, hrest.eq_nil hnil, List.append_nil]
        exact hst)
      exact ⟨range, hrange, by rw [hnil]⟩

/-- What a path of one item step finds is what the step selects. -/
theorem Path.drain_evaluate_of_steps_eq {p : Path} {range : Option Slice}
    (hp : p.steps = [⟨.item range, none⟩]) (v : Value) :
    (p.evaluate v).drain.1 = (Target.item range).select (.root v) := by
  have hhops : p.hops = [⟨.item range, fun _ => true⟩] := by rw [p.hops_eq_map, hp]; rfl
  have hwalk : walk [] = fun n => [n] := funext walk_nil
  rw [Search.drain_fst, p.nodes_evaluate, hhops, walk_cons, hwalk]
  simp [Target.isDescendant]

/-- **A range selects its window.**  For every length that is a signed number, the indices of a
range are those of the rule: none if the sequence is empty or the range ends before it starts, and
otherwise the places of both bounds.  With words of 64 bits nothing overflows, whatever the length,
and the first index is not after the last, which lies in the sequence.  So a step that is read from
the text of a range selects from a list the elements at the indices from the first to the last, one
after the other, and every one of them is there. -/
theorem Slice.resolve_window :
    (∀ (s : Slice) (length : Nat), length ≤ 0x7fffffffffffffff → s.resolve length =
      if length = 0 ∨ norm s.stop length < norm s.start length then none
      else some ((norm s.start length).toNat, (norm s.stop length).toNat)) ∧
    (∀ (s : Slice) (length : UInt64), ∃ answer, s.resolveWord? length = some answer ∧
      answer.map (fun w => (w.1.toNat, w.2.toNat)) = s.resolve length.toNat ∧
      ∀ first last, answer = some (first, last) → first ≤ last ∧ last < length) ∧
    (∀ (s : Slice) (n : Node) (items : List Value), n.value = .list items →
      (∀ i ∈ s.window items.length, i < items.length) ∧
      ((Target.item (some s)).select n).map some =
        (s.window items.length).map fun i => items[i]?.map (n.below (.index i))) ∧
    ∀ (ctx : Context) (text : String) (p : Path), compile ctx ("[" ++ text ++ "]") = .ok p →
      p.steps.length = 1 → ∃ range, RangeText text.toList range ∧
        p.steps = [⟨.item range, none⟩] ∧ ∀ items : List Value,
          (p.evaluate (.list items)).drain.1.map some =
            (range.elim [] fun s => s.window items.length).map fun i =>
              items[i]?.map ((Node.root (.list items)).below (.index i)) := by
  refine ⟨fun s length => s.resolve_eq_norm, fun s length => ?_,
    fun s n items hlist => ⟨fun i => lt_of_mem_window, Target.map_select_window s hlist⟩,
    fun ctx text p h hone => ?_⟩
  · obtain ⟨answer, hanswer, hmap⟩ := s.resolveWord?_eq length
    refine ⟨answer, hanswer, hmap, ?_⟩
    rintro first last rfl
    have hbounds := resolve_bounds hmap.symm
    exact ⟨UInt64.le_iff_toNat_le.2 hbounds.1, UInt64.lt_iff_toNat_lt.2 hbounds.2⟩
  · obtain ⟨range, hrange, hsteps⟩ := steps_of_compile_range h hone
    refine ⟨range, hrange, hsteps, fun items => ?_⟩
    rw [p.drain_evaluate_of_steps_eq hsteps]
    cases range with
    | none => rfl
    | some s => exact Target.map_select_window s rfl

/-- The least bound and an open end, and a range that is read and followed into a list. -/
theorem resolve_window_from_least :
    Slice.resolve ⟨Int64.minValue, -1⟩ 3 = some (0, 2) ∧
      (Slice.resolveWord? ⟨Int64.minValue, -1⟩ (UInt64.ofNat 0xffffffffffffffff)).isSome = true ∧
      (Target.select (.item (some ⟨1, 5⟩)) (.root (.list [.null, .bool true]))).map some =
        [some ⟨[.index 1], .bool true⟩] ∧
      ∃ p, compile Context.standard ("[" ++ "-2:" ++ "]") = .ok p ∧
        (p.evaluate (.list [.null, .bool true, .int 7])).drain.1.map some =
          [some ⟨[.index 1], .bool true⟩, some ⟨[.index 2], .int 7⟩] := by
  obtain ⟨hnorm, hword, hselect, hcompile⟩ := Slice.resolve_window
  obtain ⟨p, hp, hone⟩ : ∃ p, compile Context.standard ("[" ++ "-2:" ++ "]") = .ok p ∧
      p.steps = [⟨.item (some ⟨-2, -1⟩), none⟩] := ⟨_, rfl, rfl⟩
  refine ⟨(hnorm _ 3 (by decide)).trans (by decide), ?_,
    (hselect ⟨1, 5⟩ _ [.null, .bool true] rfl).2.trans rfl, p, hp, ?_⟩
  · obtain ⟨answer, hanswer, -⟩ := hword ⟨Int64.minValue, -1⟩ (UInt64.ofNat 0xffffffffffffffff)
    rw [hanswer]
    rfl
  · obtain ⟨range, -, hsteps, hdrain⟩ := hcompile Context.standard "-2:" p hp (by rw [hone]; rfl)
    rw [hone] at hsteps
    cases hsteps
    exact (hdrain [.null, .bool true, .int 7]).trans rfl

end TreePath
