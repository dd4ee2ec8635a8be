/-
**Filtering is selecting afterwards.**

The filter of a step is asked about one selected node at a time, while the search goes on below that
node whatever the answer.  So a step with a filter leads to those nodes, of all that it leads to
without, on which the filter holds, and in the same order; and asking for the opposite leads to the
others.  This is proved for a single step by going down the tree, and holds of a whole path because
steps in a row are followed one after the other.

What a filter says of a node depends on the value there alone: the condition is called with the
literals and, for each path among the arguments, with all that this path leads to from the value.

Main definitions:

* `Filter.negate` — the filter that asks for the opposite;
* `Argument.given` — what a condition is called with for an argument;
* `negationMark` — how the text of a filter says whether the condition has to fail.

Main results:

* `walk_filter` — **a single step** with a predicate;
* `Path.drain_of_filter` — a path with a filter at any place;
* `StepsText.exists_of_append`, `FilterText.exists_negate` — a path without its last filter, and
  with the opposite one, in terms of its text;
* `Path.filter_last` — **a filter at the end of a path**.
-/

import TreePath.Proofs.Evaluation.Calls
import TreePath.Proofs.Evaluation.Chains
import TreePath.Proofs.Path.References

set_option relaxedAutoImplicit false
set_option autoImplicit false

namespace TreePath

/-! ### Filters on a value -/

/-- The filter that asks for the opposite. -/
def Filter.negate (f : Filter) : Filter := { f with negated := !f.negated }

/-- What a condition is called with for an argument: a literal stands for itself, and a path for all
that it leads to from the value that is tested, in order. -/
def Argument.given (v : Value) : Argument → Resolved
  | .path q => .candidates (q.select v)
  | .string s => .string s
  | .integer n => .integer n
  | .float x => .float x

/-- **A filter calls its condition once**, and what that answers for the value is what counts. -/
theorem Filter.passes_eq_test (f : Filter) (v : Value) : (f.verdict v).passes =
    (f.condition.test (f.arguments.map (Argument.given v)) != f.negated) := by
  have hgiven : (fun a : Argument => (a.resolve v).1) = Argument.given v := by
    funext a
    cases a <;> rfl
  obtain ⟨c, negated, arguments⟩ := f
  rw [← hgiven, ← resolveAll_fst]
  rfl

theorem Filter.passes_negate (f : Filter) (v : Value) :
    (f.negate.verdict v).passes = !(f.verdict v).passes := by
  rw [Filter.passes_eq_test, Filter.passes_eq_test]
  exact Bool.bne_not _ _

/-! ### Steps with and without a filter -/

/-- **A single step** leads to those nodes on which its predicate holds, of all that it leads to
without.  The search below a node that is refused goes on. -/
theorem walk_filter (t : Target) (passes : Value → Bool) (n : Node) :
    walk [⟨t, passes⟩] n = (walk [⟨t, fun _ => true⟩] n).filter fun m => passes m.value := by
  induction n using Node.induction_children with
  | step n ihn =>
      have hbelow : n.children.flatMap (walk [⟨t, passes⟩]) =
          (n.children.flatMap (walk [⟨t, fun _ => true⟩])).filter fun m => passes m.value := by
        rw [List.filter_flatMap]
        exact List.flatMap_congr ihn
      rw [walk_cons, walk_cons, funext walk_nil, List.flatMap_singleton', List.flatMap_singleton',
        List.filter_append, hbelow]
      congr 1
      · simp
      · split <;> rfl

/-- A descendant step goes on below what it selects: it leads to all that it leads to from there. -/
theorem walk_descendant_trans {t : Target} (ht : t.isDescendant = true) {passes : Value → Bool}
    {n c m : Node} (hc : c ∈ walk [⟨t, passes⟩] n) (hm : m ∈ walk [⟨t, passes⟩] c) :
    m ∈ walk [⟨t, passes⟩] n := by
  induction n using Node.induction_children with
  | step n ihn =>
      refine mem_walk_hop.2 (.inr ⟨ht, ?_⟩)
      rcases mem_walk_hop.1 hc with ⟨hselect, -⟩ | ⟨-, d, hd, hbelow⟩
      · exact ⟨c, (t.select_sublist n).subset hselect, hm⟩
      · exact ⟨d, hd, ihn d hd hbelow⟩

theorem Path.drain_of_steps_append {p : Path} {init rest : List Step}
    (hp : p.steps = init ++ rest) (root : Value) : (p.evaluate root).drain.1 =
      (walk (init.map Step.hop) (.root root)).flatMap (walk (rest.map Step.hop)) := by
  rw [Search.drain_fst, p.nodes_evaluate, p.hops_eq_map, hp, List.map_append, walk_append]

/-- A path with a filter at any place leads to what the steps after it lead to from those nodes, of
all that the path up to there leads to without the filter, on which the filter holds. -/
theorem Path.drain_of_filter {p plain : Path} {init rest : List Step} {t : Target} {f : Filter}
    (hp : p.steps = init ++ ⟨t, some f⟩ :: rest) (hplain : plain.steps = init ++ [⟨t, none⟩])
    (root : Value) : (p.evaluate root).drain.1 =
      ((plain.evaluate root).drain.1.filter fun n => (f.verdict n.value).passes).flatMap
        (walk (rest.map Step.hop)) := by
  have hstep (n : Node) : walk (Step.hop ⟨t, some f⟩ :: rest.map Step.hop) n =
      ((walk [Step.hop ⟨t, none⟩] n).filter fun m => (f.verdict m.value).passes).flatMap
        (walk (rest.map Step.hop)) := by
    have hfilter := walk_filter t f.holds n
    simp only [← f.passes_verdict] at hfilter
    exact (walk_append [⟨t, f.holds⟩] _ n).trans (congrArg (List.flatMap _) hfilter)
  rw [drain_of_steps_append hp, drain_of_steps_append hplain, List.filter_flatMap,
    List.flatMap_assoc]
  exact List.flatMap_congr fun n _ => hstep n

/-! ### Texts with and without a filter -/

/-- The mark at the start of a filter that says whether the condition has to fail. -/
def negationMark (negated : Bool) : String := if negated then "!" else ""

theorem negationText_iff {mark : List Char} {negated : Bool} :
    NegationText mark negated ↔ mark = (negationMark negated).toList := by
  constructor
  · intro h
    cases h <;> rfl
  · rintro rfl
    cases negated
    · exact .missing
    · exact .given

section Texts

variable {ctx : Context} {R : List Char → Path → Prop}

/-- Steps in a row stand one list after another in their text. -/
theorem StepsText.exists_of_append {s : List Char} {sts more : List Step}
    (h : StepsText ctx R s (sts ++ more)) :
    ∃ a b, s = a ++ b ∧ StepsText ctx R a sts ∧ StepsText ctx R b more := by
  induction sts generalizing s with
  | nil => exact ⟨[], s, rfl, .nil, h⟩
  | cons st sts ih =>
      cases h with
      | @cons u v _ _ hst hrest =>
          obtain ⟨a, b, rfl, ha, hb⟩ := ih hrest
          exact ⟨u ++ a, b, (List.append_assoc _ _ _).symm, .cons hst ha, hb⟩

/-- With the mark put in or left out, the text of a filter is that of the opposite filter. -/
theorem FilterText.exists_negate {u : List Char} {f : Filter} (h : FilterText ctx R u f) :
    ∃ before after, u = before ++ ((negationMark f.negated).toList ++ after) ∧
      FilterText ctx R (before ++ ((negationMark !f.negated).toList ++ after)) f.negate := by
  cases h with
  | @mk sp₁ sp₂ sp₃ sp₄ sp₅ mark name args negated c as hsp₁ hmark hsp₂ hname hsp₃ hsp₄ hargs hsp₅
      registered accepts =>
      rw [negationText_iff.1 hmark]
      exact ⟨'(' :: sp₁, _, rfl, .mk hsp₁ (negationText_iff.2 rfl) hsp₂ hname hsp₃ hsp₄ hargs hsp₅
        registered accepts⟩

/-- **A path whose last step has a filter, in terms of its text**: without the filter and with the
mark put in or left out it is the text of the path without the filter, and of the one with the
opposite filter. -/
theorem PathText.exists_of_filter_last {s : List Char} {p : Path} (h : PathText ctx s p)
    {init : List Step} {t : Target} {f : Filter} (hp : p.steps = init ++ [⟨t, some f⟩]) :
    ∃ front before after, s = front ++ (before ++ ((negationMark f.negated).toList ++ after)) ∧
      PathText ctx front ⟨String.ofList front, init ++ [⟨t, none⟩]⟩ ∧
      ∀ other, other = front ++ (before ++ ((negationMark !f.negated).toList ++ after)) →
        PathText ctx other ⟨String.ofList other, init ++ [⟨t, some f.negate⟩]⟩ := by
  cases h with
  | @mk _ sts hsteps _ =>
      obtain rfl : sts = init ++ [⟨t, some f⟩] := hp
      obtain ⟨a, b, rfl, ha, hb⟩ := hsteps.exists_of_append
      cases hb with
      | cons hst hnil =>
          obtain rfl := hnil.eq_nil rfl
          cases hst with
          | @filtered target u _ _ ht hf =>
              obtain ⟨before, after, rfl, hnegate⟩ := hf.exists_negate
              have hsteps {u : List Char} {st : Step} (hst : StepText ctx (PathText ctx) u st) :
                  StepsText ctx (PathText ctx) (a ++ u) (init ++ [st]) := by
                have hone : StepsText ctx (PathText ctx) (u ++ []) [st] := .cons hst .nil
                rw [List.append_nil] at hone
                exact ha.append hone
              refine ⟨a ++ target, before, after, by simp, .mk (hsteps (.plain ht)) (by simp), ?_⟩
              rintro _ rfl
              rw [List.append_assoc]
              exact .mk (hsteps (.filtered ht hnegate)) (by simp)

end Texts

/-! ### A filter at the end -/

/-- **Filtering is selecting afterwards**, for a path whose last step has a filter.  The path leads
to those nodes on which the filter holds, of all that it leads to without this filter, in the same
order; and with the opposite filter it leads to the others.  Whether the filter holds on a node
depends on the value there alone: it is what the condition answers for the literals and for all that
each path among the arguments leads to from there, turned around by the mark.  If the path was
compiled from a text, then each path among the arguments is what its own text compiles to, and the
path without the filter and the one with the opposite filter are what the text compiles to when it
stops before the filter, and when the mark is put in or left out. -/
theorem Path.filter_last {p : Path} {init : List Step} {t : Target} {f : Filter}
    (hp : p.steps = init ++ [⟨t, some f⟩]) :
    (∀ plain other : Path, plain.steps = init ++ [⟨t, none⟩] →
      other.steps = init ++ [⟨t, some f.negate⟩] → ∀ root : Value,
        (p.evaluate root).drain.1 =
          (plain.evaluate root).drain.1.filter (fun n => (f.verdict n.value).passes) ∧
        (other.evaluate root).drain.1 =
          (plain.evaluate root).drain.1.filter (fun n => !(f.verdict n.value).passes) ∧
        (t.isDescendant = true → ∀ c ∈ (plain.evaluate root).drain.1,
          (f.verdict c.value).passes = false → ∀ m ∈ walk [⟨t, f.holds⟩] c,
            m ∈ (p.evaluate root).drain.1)) ∧
    (∀ v, (f.verdict v).passes =
      (f.condition.test (f.arguments.map (Argument.given v)) != f.negated)) ∧
    ∀ (ctx : Context) (expression : String), compile ctx expression = .ok p →
      (∀ q, .path q ∈ f.arguments → compile ctx q.source = .ok q) ∧
      ∃ front before after : String,
        expression = front ++ before ++ negationMark f.negated ++ after ∧
        compile ctx front = .ok ⟨front, init ++ [⟨t, none⟩]⟩ ∧
        compile ctx (front ++ before ++ negationMark (!f.negated) ++ after) =
          .ok ⟨front ++ before ++ negationMark (!f.negated) ++ after,
            init ++ [⟨t, some f.negate⟩]⟩ := by
  have hfilter {r plain : Path} {g : Filter} (hr : r.steps = init ++ [⟨t, some g⟩])
      (hplain : plain.steps = init ++ [⟨t, none⟩]) (root : Value) : (r.evaluate root).drain.1 =
        (plain.evaluate root).drain.1.filter fun n => (g.verdict n.value).passes := by
    rw [Path.drain_of_filter hr hplain, List.map_nil, funext walk_nil, List.flatMap_singleton']
  refine ⟨fun plain other hplain hother root => ⟨hfilter hp hplain root, ?_, ?_⟩,
    f.passes_eq_test, fun ctx expression h => ⟨fun q hq => ?_, ?_⟩⟩
  · rw [hfilter hother hplain]
    simp only [f.passes_negate]
  · intro ht c hc _ m hm
    rw [walk_filter, List.mem_filter, ← f.passes_verdict] at hm
    rw [hfilter hp hplain root, List.mem_filter]
    rw [Path.drain_of_steps_append hplain, List.mem_flatMap] at hc ⊢
    obtain ⟨n, hn, hc⟩ := hc
    exact ⟨⟨n, hn, walk_descendant_trans ht hc hm.1⟩, hm.2⟩
  · have hstep : Step.mk t (some f) ∈ p.steps := hp ▸ List.mem_append_right _ List.mem_cons_self
    have hwithin : q.Within p := .nested hstep rfl hq .refl
    obtain ⟨u, -, hu⟩ := hwithin.exists_pathText (compile_eq_ok_iff.1 h)
    rw [hu.source_eq, ← pathText_iff_compile]
    exact hu
  · obtain ⟨front, before, after, hs, hfront, hother⟩ :=
      (compile_eq_ok_iff.1 h).exists_of_filter_last hp
    have hjoin (negated : Bool) :
        String.ofList (front ++ (before ++ ((negationMark negated).toList ++ after))) =
          String.ofList front ++ String.ofList before ++ negationMark negated ++
            String.ofList after := by
      rw [← String.toList_inj]
      simp
    refine ⟨String.ofList front, String.ofList before, String.ofList after, ?_,
      pathText_iff_compile.1 hfront, ?_⟩
    · rw [← hjoin, ← hs, String.ofList_toList]
    · rw [← hjoin, ← pathText_iff_compile]
      exact hother _ rfl

/-- The filter that asks for something under the key `a`. -/
def Filter.hasA : Filter :=
  ⟨⟨"has", [.only .path], Builtin.has⟩, false,
    [.path ⟨".a", [⟨.child (.name "a"), none⟩]⟩]⟩

/-- All maps in a map with something under the key `a`, and all other nodes. -/
theorem Path.filter_last_descendant :
    let root := Value.map [("x", .map [("y", .map [("a", .null)])])]
    let p := Path.mk "..*(has(@.a))" [⟨.descendant .wildcard, some .hasA⟩]
    let other := Path.mk "..*( !has(@.a))" [⟨.descendant .wildcard, some Filter.hasA.negate⟩]
    compile (Context.standard.withDescendants true) "..*(has(@.a))" = .ok p ∧
    (∃ front before after : String, "..*(has(@.a))" = front ++ before ++ after ∧
      compile (Context.standard.withDescendants true) front =
        .ok ⟨front, [⟨.descendant .wildcard, none⟩]⟩) ∧
    ((p.evaluate root).drain.1.map Node.position = [[.key "x", .key "y"]] ∧
      (other.evaluate root).drain.1.map Node.position =
        [[.key "x"], [.key "x", .key "y", .key "a"]]) := by
  intro root p other
  have hp : compile (Context.standard.withDescendants true) "..*(has(@.a))" = .ok p := rfl
  obtain ⟨hmatches, -, htexts⟩ := @Path.filter_last p [] (.descendant .wildcard) .hasA rfl
  obtain ⟨hfiltered, hnegated, -⟩ :=
    hmatches ⟨"..*", [⟨.descendant .wildcard, none⟩]⟩ other rfl rfl root
  obtain ⟨-, front, before, after, htext, hfront, -⟩ := htexts _ _ hp
  have hplain : ((Path.mk "..*" [⟨.descendant .wildcard, none⟩]).evaluate root).drain.1 =
      [⟨[.key "x"], .map [("y", .map [("a", .null)])]⟩,
        ⟨[.key "y", .key "x"], .map [("a", .null)]⟩,
        ⟨[.key "a", .key "y", .key "x"], .null⟩] := by
    rw [Search.drain_fst, Path.nodes_evaluate]
    simp [root, Path.hops, hopsOf, Step.hop, walk_cons, Target.select, Selector.select,
      Target.isDescendant, Node.children, Node.below, Node.root]
  have hholds (v : Value) : (Filter.hasA.verdict v).passes = (v.get? "a").isSome := by
    simp only [Filter.passes_verdict, Filter.hasA, Filter.holds, denoteAll, Argument.denote,
      Path.hops, hopsOf, Step.hop, follow_cons, Target.pick, Selector.pick, Target.isDescendant,
      Builtin.has, Builtin.tested, Resolved.values]
    cases v.get? "a" <;> simp
  rw [hfiltered, hnegated, hplain]
  simp only [hholds]
  exact ⟨hp, ⟨front, before, after, htext.trans (by simp [negationMark, Filter.hasA]), hfront⟩,
    rfl, rfl⟩

end TreePath
