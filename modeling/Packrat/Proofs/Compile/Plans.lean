import Packrat.Compile.Basic
import Packrat.Proofs.Grammar.Walk

/-!
# Plans and expectations

Plans and expectations are collected by two passes over the bodies.  An expression that occurs
several times is met several times, always with the same tree.  Main statements: which expressions
have a plan, and which it is (`plan?_eq_some_iff`), and that each of them has an expectation which
describes it (`exists_expectation`).
-/

namespace Packrat

/-- An expectation says what a leaf matches. -/
inductive Expectation.Describes : Expectation → Leaf Nat → Prop
  | literal {value : String} {ignoreCase : Bool} :
      Describes (.literal value ignoreCase) (.literal value ignoreCase)
  | charClass {cls : CharClass} : Describes (.charClass cls) (.charClass cls)
  | any : Describes .any .any

/-- The kinds of expressions that match input themselves. -/
def Kind.matching : List Kind :=
  [.literal, .charClass, .any]

section Lookup

variable {β : Type} {l : List (Nat × β)} {key : Nat} {value : β}

theorem mem_of_lookup (h : l.lookup key = some value) : (key, value) ∈ l := by
  obtain ⟨front, rest, rfl, -⟩ := List.lookup_eq_some_iff.1 h
  simp

theorem exists_lookup_of_mem (h : (key, value) ∈ l) : ∃ found, l.lookup key = some found :=
  Option.isSome_iff_exists.1 (List.lookup_isSome_iff.2 ⟨_, h, by simp⟩)

/-- Where keys determine their values, every entry is found. -/
theorem lookup_eq_some_iff_mem (h : ∀ k v w, (k, v) ∈ l → (k, w) ∈ l → v = w) :
    l.lookup key = some value ↔ (key, value) ∈ l := by
  refine ⟨mem_of_lookup, fun hmem => ?_⟩
  obtain ⟨found, hfound⟩ := exists_lookup_of_mem hmem
  rw [hfound, h key found value (mem_of_lookup hfound) hmem]

end Lookup

section Plans

variable {g : Grammar} {id : Nat} {n : Node Nat} {small : Bool}

theorem isSome_planOf?_iff (h : g.node? id = some n) :
    (Compilation.planOf? small (g.tree id)).isSome = true ↔ n.expr.kind ∈ Kind.matching := by
  rw [g.tree_eq h]
  cases n.expr with
  | leaf l =>
      cases l <;> simp [Tree.ofExpr, Compilation.planOf?, Expr.kind, Leaf.kind, Kind.matching]
  | wrap w i =>
      cases w <;> simp [Tree.ofExpr, Compilation.planOf?, Expr.kind, Wrapper.kind, Kind.matching]
  | group k is =>
      cases k <;> simp [Tree.ofExpr, Compilation.planOf?, Expr.kind, Grouping.kind, Kind.matching]

/-- An expression has a plan if it is in a body and matches input itself. -/
theorem plan?_eq_some_iff (g : Grammar) (options : CompileOptions) {plan : MatchPlan} :
    (g.compile options).plan? id = some plan ↔
      g.InBody id ∧ Compilation.planOf? options.small (g.tree id) = some plan := by
  have hentry : ∀ j p, (j, p) ∈ Compilation.plansOf g options.small ↔
      g.InBody j ∧ Compilation.planOf? options.small (g.tree j) = some p := by
    intro j p
    simp only [Compilation.plansOf, List.mem_filterMap, Option.map_eq_some_iff,
      g.mem_preorder_bodies_iff, Prod.mk.injEq]
    constructor
    · rintro ⟨_, ⟨i, hi, rfl⟩, q, hplan, hid, rfl⟩
      obtain ⟨m, hm⟩ := hi.exists_node
      obtain rfl : i = j := (Grammar.id_tree hm).symm.trans hid
      exact ⟨hi, hplan⟩
    · rintro ⟨hj, hplan⟩
      obtain ⟨m, hm⟩ := hj.exists_node
      exact ⟨_, ⟨j, hj, rfl⟩, p, hplan, Grammar.id_tree hm, rfl⟩
  rw [← hentry]
  exact lookup_eq_some_iff_mem fun j p q hp hq =>
    Option.some.inj (((hentry j p).1 hp).2.symm.trans ((hentry j q).1 hq).2)

theorem isSome_plan?_iff (g : Grammar) (options : CompileOptions) :
    ((g.compile options).plan? id).isSome = true ↔
      g.InBody id ∧ ∃ n, g.node? id = some n ∧ n.expr.kind ∈ Kind.matching := by
  rw [Option.isSome_iff_exists]
  simp only [plan?_eq_some_iff, exists_and_left, ← Option.isSome_iff_exists]
  refine and_congr_right fun hid => ?_
  obtain ⟨n, hn⟩ := hid.exists_node
  simp [isSome_planOf?_iff hn, hn]

end Plans

section Expectations

namespace ExpectationIndex

variable {expected : Nat → Option Expectation} {index : ExpectationIndex} {t : Tree}
  {ts : List Tree}

/-- The table finds what it lists, and every index that an expression uses leads to what is expected
there. -/
structure Sound (expected : Nat → Option Expectation) (index : ExpectationIndex) : Prop where
  consistent : index.table.Consistent
  leads : ∀ id i, (id, i) ∈ index.byExpr →
    ∃ e, expected id = some e ∧ index.table.get? i = some e

theorem sound_empty : Sound expected .empty where
  consistent := ExpectationTable.consistent_empty
  leads := fun _ _ hmem => by cases hmem

theorem Sound.add (h : index.Sound expected) (ht : t.expectation? = expected t.id) :
    (index.add t).Sound expected := by
  unfold ExpectationIndex.add
  cases he : t.expectation? with
  | none => exact h
  | some e =>
      refine ⟨h.consistent.intern e, fun id i hmem => ?_⟩
      rcases List.mem_cons.1 hmem with hnew | hold
      · obtain ⟨rfl, rfl⟩ := Prod.mk.inj hnew
        exact ⟨e, ht.symm.trans he, h.consistent.get?_intern e⟩
      · obtain ⟨old, hexpected, hget⟩ := h.leads id i hold
        exact ⟨old, hexpected, ExpectationTable.get?_intern_of_get? hget⟩

theorem Sound.foldl (h : index.Sound expected) (hts : ∀ t ∈ ts, t.expectation? = expected t.id) :
    (ts.foldl ExpectationIndex.add index).Sound expected := by
  induction ts generalizing index with
  | nil => exact h
  | cons t ts ih =>
      obtain ⟨ht, hts⟩ := List.forall_mem_cons.1 hts
      exact ih (h.add ht) hts

/-- An expression keeps an index once it has one. -/
theorem subset_byExpr_foldl (index : ExpectationIndex) (ts : List Tree) :
    index.byExpr ⊆ (ts.foldl add index).byExpr := by
  induction ts generalizing index with
  | nil => exact List.Subset.refl _
  | cons t ts ih =>
      have hadd : index.byExpr ⊆ (index.add t).byExpr := by
        unfold add
        cases t.expectation? with
        | none => exact List.Subset.refl _
        | some e => exact List.subset_cons_self _ _
      exact List.Subset.trans hadd (ih _)

/-- Every node that has an expectation gets an index. -/
theorem exists_mem_byExpr_foldl (index : ExpectationIndex) (ht : t ∈ ts) {e : Expectation}
    (he : t.expectation? = some e) : ∃ i, (t.id, i) ∈ (ts.foldl add index).byExpr := by
  obtain ⟨front, rest, rfl⟩ := List.append_of_mem ht
  rw [List.foldl_append, List.foldl_cons]
  refine ⟨((front.foldl add index).table.intern e).1, subset_byExpr_foldl _ rest ?_⟩
  simp [add, he]

end ExpectationIndex

variable {g : Grammar} {id : Nat}

theorem Tree.collect_eq (index : ExpectationIndex) (t : Tree) :
    t.collect index = Tree.collectAll (index.add t) t.children := by
  cases t with
  | leaf id l => rfl
  | wrap id w inner => rfl
  | group id k items => rfl

/-- Visits to expressions add those that are met from there on. -/
theorem Grammar.Meets.collectAll_eq {ids met : List Nat} (h : g.Meets ∅ ids met)
    (index : ExpectationIndex) :
    Tree.collectAll index (ids.map g.tree) = (met.map g.tree).foldl ExpectationIndex.add index := by
  induction h generalizing index with
  | nil => rfl
  | stop _ hstop _ _ => cases hstop
  | walk hnode _ _ _ ihinner ihrest =>
      rw [List.map_cons, Tree.collectAll, Tree.collect_eq, g.children_tree hnode, ihinner, ihrest,
        List.map_append, List.foldl_append, List.map_cons, List.foldl_cons]

theorem Grammar.expectations_eq (g : Grammar) :
    g.expectations = (g.walks.map g.tree).foldl ExpectationIndex.add .empty := by
  rw [← g.meets_walks.collectAll_eq, List.map_map]
  rfl

/-- Walks meet an expression as the root of its tree. -/
theorem Grammar.inBody_of_mem_walks {t : Tree} (h : t ∈ g.walks.map g.tree) :
    g.InBody t.id ∧ t = g.tree t.id := by
  obtain ⟨j, hj, rfl⟩ := List.mem_map.1 h
  have hbody := g.mem_walks_iff.1 hj
  obtain ⟨n, hn⟩ := hbody.exists_node
  rw [id_tree hn]
  exact ⟨hbody, rfl⟩

/-- The index of an expression leads to what is expected there. -/
theorem exists_indexOf? (h : g.InBody id) {e : Expectation}
    (he : (g.tree id).expectation? = some e) :
    ∃ i, g.expectations.indexOf? id = some i ∧ g.expectations.table.get? i = some e := by
  have hsound : g.expectations.Sound fun j => (g.tree j).expectation? := by
    rw [g.expectations_eq]
    exact ExpectationIndex.sound_empty.foldl fun t ht =>
      congrArg Tree.expectation? (Grammar.inBody_of_mem_walks ht).2
  obtain ⟨n, hn⟩ := h.exists_node
  obtain ⟨i, hi⟩ := ExpectationIndex.exists_mem_byExpr_foldl .empty
    (List.mem_map_of_mem (g.mem_walks_iff.2 h)) he
  rw [Grammar.id_tree hn, ← g.expectations_eq] at hi
  obtain ⟨k, hk⟩ := exists_lookup_of_mem hi
  obtain ⟨e', he', hget⟩ := hsound.leads id k (mem_of_lookup hk)
  exact ⟨k, hk, hget.trans (he'.symm.trans he)⟩

/-- Where a plan can fail there is an expectation that says what it stands for. -/
theorem exists_expectation {options : CompileOptions}
    (h : ((g.compile options).plan? id).isSome = true) :
    ∃ l span i e, g.node? id = some ⟨.leaf l, span⟩ ∧
      (g.compile options).expectations.indexOf? id = some i ∧
      (g.compile options).expectations.table.get? i = some e ∧ e.Describes l := by
  obtain ⟨hid, ⟨expr, span⟩, hnode, hkind⟩ := (isSome_plan?_iff g options).1 h
  have htree : g.tree id = Tree.ofExpr g.tree id expr := g.tree_eq hnode
  cases expr with
  | wrap w i => cases w <;> simp [Expr.kind, Wrapper.kind, Kind.matching] at hkind
  | group k is => cases k <;> simp [Expr.kind, Grouping.kind, Kind.matching] at hkind
  | leaf l =>
      obtain ⟨e, he, hdescribes⟩ : ∃ e, (Tree.leaf id l).expectation? = some e ∧ e.Describes l := by
        cases l with
        | literal value ignoreCase => exact ⟨_, rfl, .literal⟩
        | charClass cls => exact ⟨_, rfl, .charClass⟩
        | any => exact ⟨_, rfl, .any⟩
        | _ => simp [Expr.kind, Leaf.kind, Kind.matching] at hkind
      obtain ⟨i, hi, hget⟩ := exists_indexOf? hid ((congrArg Tree.expectation? htree).trans he)
      exact ⟨l, span, i, e, hnode, hi, hget, hdescribes⟩

end Expectations

end Packrat
