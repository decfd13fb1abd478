import Packrat.Proofs.Analysis.Consistent

/-!
# Expressions in the bodies of rules

Passes that need no answers from inner expressions run through the bodies node by node.  Main
statement: the nodes that they meet are the expressions in the bodies, each with its own tree
(`mem_preorder_bodies_iff`).
-/

namespace Packrat.Grammar

open Relation

variable {g : Grammar} {id : Nat} {n : Node Nat}

theorem id_tree (h : g.node? id = some n) : (g.tree id).id = id := by
  rw [g.tree_eq h]
  cases n.expr <;> rfl

theorem children_tree (h : g.node? id = some n) :
    (g.tree id).children = n.expr.children.map g.tree := by
  rw [g.tree_eq h]
  cases n.expr <;> rfl

theorem InBody.exists_node (h : g.InBody id) : ∃ n, g.node? id = some n :=
  g.node?_of_lt h.lt

/-- The nodes under an expression are the trees of what it contains. -/
theorem mem_preorder_tree_iff (h : g.node? id = some n) {t : Tree} :
    t ∈ (g.tree id).preorder ↔ ∃ j, ReflTransGen g.Contains id j ∧ t = g.tree j := by
  induction id using Nat.strongRecOn generalizing n with
  | _ id ih =>
      -- inner expressions have smaller numbers, whoever shares them
      have hinner : ∀ c ∈ n.expr.children,
          (t ∈ (g.tree c).preorder ↔ ∃ j, ReflTransGen g.Contains c j ∧ t = g.tree j) := by
        intro c hc
        have hlt := g.children_precede id n h c hc
        obtain ⟨m, hm⟩ := g.node?_of_lt (Nat.lt_trans hlt (List.getElem?_eq_some_iff.1 h).1)
        exact ih c hlt hm
      rw [Tree.preorder_eq, children_tree h, List.flatMap_map, List.mem_cons, List.mem_flatMap]
      constructor
      · rintro (rfl | ⟨c, hc, ht⟩)
        · exact ⟨id, .refl, rfl⟩
        · obtain ⟨j, hpath, rfl⟩ := (hinner c hc).1 ht
          exact ⟨j, (within_cons_iff h).2 (Or.inr ⟨c, hc, hpath⟩), rfl⟩
      · rintro ⟨j, hpath, rfl⟩
        rcases (within_cons_iff h).1 hpath with rfl | ⟨c, hc, hrest⟩
        · exact Or.inl rfl
        · exact Or.inr ⟨c, hc, (hinner c hc).2 ⟨j, hrest, rfl⟩⟩

/-- The nodes of all bodies are the trees of the expressions in them. -/
theorem mem_preorder_bodies_iff (g : Grammar) {t : Tree} :
    t ∈ g.bodies.flatMap Tree.preorder ↔ ∃ id, g.InBody id ∧ t = g.tree id := by
  have hbodies : g.bodies = g.rules.map fun rule => g.tree rule.body := rfl
  rw [hbodies, List.flatMap_map, List.mem_flatMap]
  constructor
  · rintro ⟨rule, hrule, ht⟩
    obtain ⟨r, hlt, rfl⟩ := List.mem_iff_getElem.1 hrule
    obtain ⟨n, hn⟩ := g.node?_of_lt (g.bodies_below _ hrule)
    obtain ⟨j, hpath, rfl⟩ := (mem_preorder_tree_iff hn).1 ht
    exact ⟨j, ⟨r, _, List.getElem?_eq_getElem hlt, hpath⟩, rfl⟩
  · rintro ⟨id, ⟨r, rule, hrule, hpath⟩, rfl⟩
    have hmem : rule ∈ g.rules := List.mem_of_getElem? hrule
    obtain ⟨n, hn⟩ := g.node?_of_lt (g.bodies_below rule hmem)
    exact ⟨rule, hmem, (mem_preorder_tree_iff hn).2 ⟨id, hpath, rfl⟩⟩

end Packrat.Grammar
