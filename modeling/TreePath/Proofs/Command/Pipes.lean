/-
**Filter runs in a row.**

What a filter run writes can be the input of another one.  The matches of a path are written as
documents, and these are read back as the same values: their keys are in order and their numbers
finite, because they come from documents, and they are nested less deep than those, because a path
never leads to the value that it starts from.  The last point leaves just enough room for the array
around the matches of a batch run.

So a second run on the lines of the first finds, one after the other, what its path leads to from
the matches of the first path, and that is what both paths in a row lead to.

Main definitions:

* `documentsOf` — the documents of an input.

Main results:

* `Path.expressible_of_mem_selectAll` — matches can be written and read back, and put into an array;
* `streamOf_textsOf` — values on lines of their own are read as a stream;
* `StreamQuery.run_piped` — **two runs in a row** are one run with both paths in a row.
-/

import TreePath.Proofs.Command.Modes
import TreePath.Proofs.Json.Conversion
import TreePath.Proofs.Path.Concatenation

set_option relaxedAutoImplicit false
set_option autoImplicit false

namespace TreePath

/-! ### What a stream holds -/

/-- Whatever a stream holds is the meaning of a form. -/
theorem StreamOf.exists_decode {α : Type} {decode? : Document → Option α} {s : List Char}
    {values : List α} {complete : Bool} (h : StreamOf decode? s values complete) :
    ∀ a ∈ values, ∃ d, decode? d = some a := by
  induction h with
  | finished | malformed | refused => exact List.forall_mem_nil _
  | value _ hd _ ih => exact List.forall_mem_cons.2 ⟨⟨_, hd⟩, ih⟩

/-! ### Matches as documents -/

section Matches

variable {p : Path} {d : Json} {documents : List Json} {m : Value}

/-- A match in a document that was read is expressible, and leaves room for one more level. -/
theorem Path.expressible_of_mem_select (hp : p.steps ≠ []) {limit : Nat}
    (hd : Json.Expresses limit d) (hm : m ∈ p.select (.ofJson d)) :
    m.Expressible ∧ m.depth < limit := by
  have hinside := Path.inside_of_mem_select hp hm
  exact ⟨hinside.expressible hd.1, Nat.lt_of_lt_of_le hinside.depth_lt hd.2⟩

theorem Path.expressible_of_mem_selectAll (hp : p.steps ≠ []) {limit : Nat} {s : List Char}
    {complete : Bool} (h : StreamOf (Json.ofDocument? limit) s documents complete)
    (hm : m ∈ p.selectAll documents) : m.Expressible ∧ m.depth < limit := by
  obtain ⟨d, hd, hm⟩ := List.mem_flatMap.1 hm
  obtain ⟨form, hform⟩ := h.exists_decode d hd
  exact Path.expressible_of_mem_select hp (Json.expresses_of_ofDocument? hform) hm

/-- What a path leads to from expressible values is found in their documents. -/
theorem Path.selectAll_map_ofValue {vs : List Value} (h : ∀ v ∈ vs, v.Expressible) (q : Path) :
    q.selectAll (vs.map Json.ofValue) = vs.flatMap q.select := by
  rw [Path.selectAll, List.flatMap_map]
  exact List.flatMap_congr fun v hv => by rw [(h v hv).ofJson_ofValue]

/-- Two paths in a row lead to what the second leads to from the matches of the first. -/
theorem Path.selectAll_of_steps_append {p q r : Path} (h : r.steps = p.steps ++ q.steps)
    (documents : List Json) : r.selectAll documents = (p.selectAll documents).flatMap q.select := by
  rw [Path.selectAll, Path.selectAll, List.flatMap_assoc]
  exact List.flatMap_congr fun d _ => Path.select_of_steps_append h _

end Matches

/-! ### Every element of a list -/

/-- The range of all elements selects all of them, of as many as an index can count. -/
theorem Slice.select_full {α : Type} {items : List α} (h : items.length ≤ 0x7fffffffffffffff) :
    full.select items = items := by
  rcases Nat.eq_zero_or_pos items.length with hzero | hpos
  · rw [List.eq_nil_of_length_eq_zero hzero]
    rfl
  · have hfirst : place 0 items.length = 0 := Nat.zero_min _
    have hlast : place (-1) items.length = items.length - 1 := by
      have hminus : ((-1 : Int64).toInt) = -1 := by decide
      simp only [place, hminus]
      rw [if_pos (by decide), Nat.min_eq_left h]
      omega
    have hrange : full.resolve items.length = some (0, items.length - 1) := by
      simp only [resolve, full, hfirst, hlast]
      rw [if_neg (Nat.pos_iff_ne_zero.1 hpos), if_pos (Nat.zero_le _)]
    simp only [select, hrange, List.drop_zero]
    exact List.take_of_length_le (by omega)

/-- The path that leads to every element of a list. -/
def Path.elements : Path := ⟨"[*]", [⟨.item (some .full), none⟩]⟩

theorem Path.compile_elements : compile commandContext "[*]" = .ok Path.elements := rfl

theorem Path.select_elements {items : List Value} (h : items.length ≤ 0x7fffffffffffffff) :
    Path.elements.select (.list items) = items := by
  have hhops : Path.elements.hops = [⟨.item (some .full), fun _ => true⟩] := rfl
  have hhere : follow [] = fun v => [v] := funext follow_nil
  rw [Path.select_eq_follow, hhops, follow_cons, hhere]
  simp [Target.pick, Value.toList?, Slice.select_full h, Target.isDescendant]

/-! ### Lists as documents -/

theorem Value.numbersReadBack_list {vs : List Value}
    (h : ∀ v ∈ vs, (Json.ofValue v).NumbersReadBack) :
    (Json.ofValue (.list vs)).NumbersReadBack := by
  rw [Json.ofValue, itemsOfValues_eq_map, Json.numbersReadBack_array, List.forall_mem_map]
  exact h

/-- The line of a list holds the texts of its elements with commas between them. -/
theorem unlines_textsOf_list (vs : List Value) : unlines (textsOf [.list vs]) =
    "[" ++ String.intercalate "," (textsOf vs) ++ "]\n" := by
  rw [textsOf_eq_map, textsOf_eq_map, ← ofList_flatMap_documentLine, ← ofList_documentLine_array]
  simp [Json.ofValue, itemsOfValues_eq_map]

/-! ### Runs in a row -/

/-- The documents of an input, up to the first place where it cannot be read. -/
def documentsOf (input : String) : List Json :=
  (readAll (Json.ofDocument? Json.nestingLimit) input).values

/-- Values that can be written and read back, each on a line of its own, are read as a stream. -/
theorem streamOf_textsOf {limit : Nat} {vs : List Value}
    (hvs : ∀ v ∈ vs, v.Expressible ∧ v.depth ≤ limit)
    (hnumbers : ∀ v ∈ vs, (Json.ofValue v).NumbersReadBack) :
    StreamOf (Json.ofDocument? limit) (unlines (textsOf vs)).toList (vs.map Json.ofValue) true := by
  let means (j : Json) : Bool := decide (j.depth ≤ limit)
  have hlines : ∀ j ∈ vs.map Json.ofValue, ∃ d, j.ReadAs d ∧
      Json.ofDocument? limit d = if means j then some j else none := by
    refine List.forall_mem_map.2 fun v hv => ?_
    obtain ⟨d, hd⟩ := ((hvs v hv).1.legible (hnumbers v hv)).exists_readAs
    exact ⟨d, hd, by simp [hd.means, means]⟩
  have hall : ∀ j ∈ vs.map Json.ofValue, means j = true :=
    List.forall_mem_map.2 fun v hv => decide_eq_true (hvs v hv).2
  have hstream := streamOf_lines hlines
  rw [List.takeWhile_eq_self_iff.2 hall, List.all_eq_true.2 hall] at hstream
  rw [textsOf_eq_map, ← ofList_flatMap_documentLine, String.toList_ofList]
  exact hstream

namespace StreamQuery

/-- Values that can be written and read back, each on a line of its own, are what a run on these
lines starts from. -/
theorem run_lines {path : String} {p : Path} (hp : compile commandContext path = .ok p)
    {vs : List Value} (hvs : ∀ v ∈ vs, v.Expressible ∧ v.depth ≤ Json.nestingLimit)
    (hnumbers : ∀ v ∈ vs, (Json.ofValue v).NumbersReadBack) :
    run ⟨path, false⟩ (unlines (textsOf vs)) =
      ⟨unlines (textsOf (vs.flatMap p.select)), .ok ⟨vs.length, (vs.flatMap p.select).length⟩⟩ := by
  rw [run_of_streamOf hp (streamOf_textsOf hvs hnumbers), ending,
    Path.selectAll_map_ofValue (fun v hv => (hvs v hv).1), List.length_map]
  rfl

/-- **Two runs in a row.**  Say that a run with a path deals with all of its input, writing each
match on a line of its own, and that the numbers it writes are read back.  Then a run with a second
path succeeds on what the first wrote, and writes what one run with both paths in a row writes for
the input; it counts as many documents as the first run counted matches, and as many matches as
the one run.  And as long as an index can count the matches, a run to every element of a list
succeeds on what the first run writes in one array, and writes each match on a line of its own. -/
theorem run_piped {path next input : String} {p q : Path}
    (hp : compile commandContext path = .ok p) (hq : compile commandContext next = .ok q)
    {counts : StreamCounts} (hrun : (run ⟨path, false⟩ input).result = .ok counts)
    (hnumbers : ∀ m ∈ p.selectAll (documentsOf input), (Json.ofValue m).NumbersReadBack) :
    (∃ found, (run ⟨path ++ next, false⟩ input).result = .ok ⟨counts.documents, found⟩ ∧
      run ⟨next, false⟩ (run ⟨path, false⟩ input).output =
        ⟨(run ⟨path ++ next, false⟩ input).output, .ok ⟨counts.results, found⟩⟩) ∧
    (counts.results ≤ 0x7fffffffffffffff →
      run ⟨"[*]", false⟩ (run ⟨path, true⟩ input).output =
        ⟨(run ⟨path, false⟩ input).output, .ok ⟨1, counts.results⟩⟩) := by
  have hs := compile_eq_ok_iff.1 hp
  obtain ⟨r, hr, hsteps⟩ : ∃ r, compile commandContext (path ++ next) = .ok r ∧
      r.steps = p.steps ++ q.steps := by
    have htext := hs.append (compile_eq_ok_iff.1 hq)
    rw [← String.toList_append] at htext
    exact ⟨_, compile_eq_ok_iff.2 htext, rfl⟩
  obtain ⟨documents, complete, h⟩ :=
    exists_streamOf (Json.ofDocument? Json.nestingLimit) input.toList
  rw [documentsOf, streamOf_iff_readAll.1 h] at hnumbers
  rw [run_of_streamOf hp h false] at hrun
  cases complete with
  | false => cases hrun
  | true =>
      cases hrun
      have hmatches : ∀ m ∈ p.selectAll documents, m.Expressible ∧ m.depth < Json.nestingLimit :=
        fun m hm => Path.expressible_of_mem_selectAll hs.steps_ne_nil h hm
      rw [run_of_streamOf hr h false, run_of_streamOf hp h false, run_of_streamOf hp h true]
      constructor
      · refine ⟨_, rfl, ?_⟩
        have hlines := run_lines hq
          (fun m hm => ⟨(hmatches m hm).1, Nat.le_of_lt (hmatches m hm).2⟩) hnumbers
        rw [← Path.selectAll_of_steps_append hsteps] at hlines
        exact hlines
      · intro hcount
        -- The array around the matches takes the one level that they leave.
        have hdepth : (Value.list (p.selectAll documents)).depth ≤ Json.nestingLimit := by
          rw [Json.nestingLimit, Value.depth_list_le_iff]
          exact fun m hm => Nat.le_of_lt_succ (hmatches m hm).2
        have harray : ∀ v ∈ [Value.list (p.selectAll documents)],
            v.Expressible ∧ v.depth ≤ Json.nestingLimit :=
          List.forall_mem_singleton.2 ⟨.list fun m hm => (hmatches m hm).1, hdepth⟩
        have hlines := run_lines Path.compile_elements harray
          (List.forall_mem_singleton.2 (Value.numbersReadBack_list hnumbers))
        rw [List.flatMap_singleton, Path.select_elements hcount, unlines_textsOf_list] at hlines
        exact hlines

/-- A run to lists, and runs to the elements of the lists and to the lists again. -/
theorem run_piped_lists :
    let p : Path := ⟨".a", [⟨.child (.name "a"), none⟩]⟩
    let input := "\x7b\"a\":[7,\"x\"]\x7d\n\x7b\"a\":[]\x7d\n"
    compile commandContext ".a" = .ok p ∧ compile commandContext "[*]" = .ok Path.elements ∧
      (run ⟨".a", false⟩ input).result = .ok ⟨2, 2⟩ ∧
      (∀ m ∈ p.selectAll (documentsOf input), (Json.ofValue m).NumbersReadBack) ∧
      (∃ found, (run ⟨".a" ++ "[*]", false⟩ input).result = .ok ⟨2, found⟩ ∧
        run ⟨"[*]", false⟩ (run ⟨".a", false⟩ input).output =
          ⟨(run ⟨".a" ++ "[*]", false⟩ input).output, .ok ⟨2, found⟩⟩) ∧
      run ⟨"[*]", false⟩ (run ⟨".a", true⟩ input).output =
        ⟨(run ⟨".a", false⟩ input).output, .ok ⟨1, 2⟩⟩ := by
  intro p input
  let lists := [Value.list [.int 7, .string "x"], .list []]
  let vs := lists.map fun l => Value.map [("a", l)]
  have hinput : input = unlines (textsOf vs) := by rfl
  have hlists : ∀ l ∈ lists, l.Expressible := by
    refine List.forall_mem_cons.2 ⟨.list ?_, List.forall_mem_singleton.2 (.list ?_)⟩
    · exact List.forall_mem_cons.2 ⟨.int 7, List.forall_mem_singleton.2 (.string "x")⟩
    · exact List.forall_mem_nil _
  have hwritten : ∀ l ∈ lists, (Json.ofValue l).NumbersReadBack := by
    have hseven : (Json.Number.ofInt64 7).ReadsBack := Json.Number.readsBack_integer _ _
    refine List.forall_mem_cons.2 ⟨?_, List.forall_mem_singleton.2 (List.forall_mem_nil _)⟩
    exact List.forall_mem_singleton.2 hseven
  have hvs : ∀ v ∈ vs, v.Expressible ∧ v.depth ≤ Json.nestingLimit := by
    refine List.forall_mem_map.2 fun l hl => ⟨.map (List.pairwise_singleton _ _)
      (List.forall_mem_singleton.2 (hlists l hl)), ?_⟩
    have hdepth : l.depth ≤ 1 := by
      rcases List.mem_pair.1 hl with rfl | rfl <;> decide
    exact Value.depth_map_le_iff.2 (List.forall_mem_singleton.2 (Nat.le_trans hdepth (by decide)))
  have hnumbers : ∀ v ∈ vs, (Json.ofValue v).NumbersReadBack :=
    List.forall_mem_map.2 fun l hl =>
      Json.numbersReadBack_object.2 (List.forall_mem_singleton.2 (hwritten l hl))
  have hselect : vs.flatMap p.select = lists := by
    simp [vs, lists, p, Path.select_eq_follow, Path.hops_eq_map, Step.hop, follow_cons,
      Target.pick, Selector.pick, Value.get?, Entries.find?_cons, Target.isDescendant]
  have hp : compile commandContext ".a" = .ok p := rfl
  have hrun : (run ⟨".a", false⟩ input).result = .ok ⟨2, 2⟩ := by
    rw [hinput, run_lines hp hvs hnumbers, hselect]
    rfl
  have hmatches : ∀ m ∈ p.selectAll (documentsOf input), (Json.ofValue m).NumbersReadBack := by
    rw [hinput, documentsOf, streamOf_iff_readAll.1 (streamOf_textsOf hvs hnumbers),
      Path.selectAll_map_ofValue fun v hv => (hvs v hv).1, hselect]
    exact hwritten
  have hpiped := run_piped hp Path.compile_elements hrun hmatches
  exact ⟨hp, Path.compile_elements, hrun, hmatches, hpiped.1, hpiped.2 (by decide)⟩

end StreamQuery

end TreePath
