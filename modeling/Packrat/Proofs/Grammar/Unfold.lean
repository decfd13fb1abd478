import Packrat.Grammar.Tree

/-!
# Unfolded expressions

A tree unfolds an expression if it has the trees of the inner expressions in their places.  Proofs
about passes over trees go by induction on this relation, which names the expression of every node.
Main statement: the tree of an expression unfolds it (`unfolds_tree`).
-/

namespace Packrat.Grammar

/-- A tree with its expressions, node by node. -/
inductive Unfolds (g : Grammar) : Nat → Tree → Prop where
  | leaf {id : Nat} {l : Leaf Nat} {span : Span} (hnode : g.node? id = some ⟨.leaf l, span⟩) :
      Unfolds g id (.leaf id l)
  | wrap {id i : Nat} {w : Wrapper} {span : Span} {inner : Tree}
      (hnode : g.node? id = some ⟨.wrap w i, span⟩) (hinner : Unfolds g i inner) :
      Unfolds g id (.wrap id w inner)
  | group {id : Nat} {k : Grouping} {is : List Nat} {span : Span} {tree : Nat → Tree}
      (hnode : g.node? id = some ⟨.group k is, span⟩)
      (hitems : ∀ i ∈ is, Unfolds g i (tree i)) : Unfolds g id (.group id k (is.map tree))

theorem Unfolds.id_eq {g : Grammar} {id : Nat} {t : Tree} (h : g.Unfolds id t) : t.id = id := by
  cases h <;> rfl

theorem node?_of_lt (g : Grammar) {id : Nat} (h : id < g.exprs.length) :
    ∃ n, g.node? id = some n :=
  ⟨g.exprs[id], List.getElem?_eq_getElem h⟩

theorem unfolds_tree (g : Grammar) {id : Nat} (h : id < g.exprs.length) :
    g.Unfolds id (g.tree id) := by
  induction id using Nat.strongRecOn with
  | _ id ih =>
      obtain ⟨⟨expr, span⟩, hnode⟩ := g.node?_of_lt h
      have hchild : ∀ c ∈ expr.children, g.Unfolds c (g.tree c) := by
        intro c hc
        have hlt := g.children_precede id _ hnode c hc
        exact ih c hlt (Nat.lt_trans hlt h)
      rw [g.tree_eq hnode]
      cases expr with
      | leaf l => exact .leaf hnode
      | wrap w i => exact .wrap hnode (hchild i List.mem_cons_self)
      | group k is => exact .group hnode hchild

theorem unfolds_inner (g : Grammar) {id c : Nat} {n : Node Nat} (hnode : g.node? id = some n)
    (hc : c ∈ n.expr.children) : g.Unfolds c (g.tree c) :=
  g.unfolds_tree (Nat.lt_trans (g.children_precede id n hnode c hc)
    (List.getElem?_eq_some_iff.1 hnode).1)

theorem unfolds_body (g : Grammar) {r : Nat} {rule : Rule} (h : g.rule? r = some rule) :
    g.Unfolds rule.body (g.body r) := by
  rw [g.body_eq h]
  exact g.unfolds_tree (g.bodies_below rule (List.mem_of_getElem? h))

theorem exists_rule_of_mem_ruleIds (g : Grammar) {r : Nat} (h : r ∈ g.ruleIds) :
    ∃ rule, g.rule? r = some rule := by
  have hlt : r < g.rules.length := List.mem_range.1 h
  exact ⟨g.rules[r], List.getElem?_eq_getElem hlt⟩

/-- Every reference leads to a rule. -/
theorem exists_rule_of_target (g : Grammar) {id target : Nat} {call : Call} {span : Span}
    (h : g.node? id = some ⟨.leaf (.ruleRef call target), span⟩) :
    ∃ rule, g.rule? target = some rule := by
  have hlt := g.targets_below _ (List.mem_of_getElem? h) target rfl
  exact ⟨g.rules[target], List.getElem?_eq_getElem hlt⟩

end Packrat.Grammar
