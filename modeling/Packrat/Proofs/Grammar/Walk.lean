import Mathlib.Data.Set.Basic
import Packrat.Proofs.Grammar.Preorder

/-!
# Walks through the bodies of rules

A walk meets the expressions of a body by number, each before those inside it, and an expression
that belongs to several others once under each.  What is met can be told from the inner expressions
of each alone (`Grammar.Meets`).  Main statements: after an expression a walk goes through its inner
expressions one by one (`walk_eq`), the walks through all bodies meet the expressions in them and no
others (`mem_walks_iff`), and these walks are what is met from the bodies on (`meets_walks_iff`).
-/

namespace Packrat.Grammar

/-- What is met from some expressions on in pre-order, by the inner expressions of each, but not
below the kinds `K`. -/
inductive Meets (g : Grammar) (K : Set Kind) : List Nat → List Nat → Prop
  | nil : Meets g K [] []
  | stop {id : Nat} {n : Node Nat} {rest met : List Nat} (hnode : g.node? id = some n)
      (hstop : n.expr.kind ∈ K) (hrest : Meets g K rest met) :
      Meets g K (id :: rest) (id :: met)
  | walk {id : Nat} {n : Node Nat} {rest inner met : List Nat} (hnode : g.node? id = some n)
      (hwalk : n.expr.kind ∉ K) (hinner : Meets g K n.expr.children inner)
      (hrest : Meets g K rest met) : Meets g K (id :: rest) (id :: inner ++ met)

variable {g : Grammar} {K : Set Kind} {id : Nat} {n : Node Nat} {ids met : List Nat}

/-- The expressions that a walk from an expression meets. -/
def walk (g : Grammar) (id : Nat) : List Nat :=
  (g.tree id).preorder.map Tree.id

/-- The expressions that walks through the bodies of all rules meet, in the order of declaration. -/
def walks (g : Grammar) : List Nat :=
  g.rules.flatMap fun rule => g.walk rule.body

theorem walk_eq (h : g.node? id = some n) :
    g.walk id = id :: n.expr.children.flatMap g.walk := by
  simp only [walk, Tree.preorder_eq (g.tree id), List.map_cons, id_tree h, children_tree h,
    List.flatMap_map, List.map_flatMap]
  rfl

/-- The walks go through the trees of the bodies. -/
theorem walks_eq (g : Grammar) : g.walks = (g.bodies.flatMap Tree.preorder).map Tree.id := by
  have hbodies : g.bodies = g.rules.map fun rule => g.tree rule.body := rfl
  rw [hbodies, List.flatMap_map, List.map_flatMap]
  rfl

theorem mem_walks_iff (g : Grammar) : id ∈ g.walks ↔ g.InBody id := by
  rw [walks_eq, List.mem_map]
  constructor
  · intro h
    obtain ⟨t, ht, hid⟩ := h
    obtain ⟨i, hi, rfl⟩ := g.mem_preorder_bodies_iff.1 ht
    obtain ⟨n, hn⟩ := hi.exists_node
    rw [id_tree hn] at hid
    exact hid ▸ hi
  · intro h
    obtain ⟨n, hn⟩ := h.exists_node
    exact ⟨g.tree id, g.mem_preorder_bodies_iff.2 ⟨id, h, rfl⟩, id_tree hn⟩

theorem Meets.unique {other : List Nat} (h : g.Meets K ids met) (hother : g.Meets K ids other) :
    met = other := by
  induction h generalizing other with
  | nil =>
      cases hother
      rfl
  | stop hnode hstop _ ih =>
      cases hother with
      | stop _ _ hrest => rw [ih hrest]
      | walk hnode' hwalk _ _ =>
          obtain rfl := Option.some.inj (hnode.symm.trans hnode')
          exact absurd hstop hwalk
  | walk hnode hwalk _ _ ihinner ihrest =>
      cases hother with
      | stop hnode' hstop _ =>
          obtain rfl := Option.some.inj (hnode.symm.trans hnode')
          exact absurd hstop hwalk
      | walk hnode' _ hinner hrest =>
          obtain rfl := Option.some.inj (hnode.symm.trans hnode')
          rw [ihinner hinner, ihrest hrest]

theorem Meets.append {more next : List Nat} (h : g.Meets K ids met) (hmore : g.Meets K more next) :
    g.Meets K (ids ++ more) (met ++ next) := by
  induction h with
  | nil => exact hmore
  | stop hnode hstop _ ih => exact .stop hnode hstop ih
  | walk hnode hwalk hinner _ _ ih =>
      rw [List.append_assoc]
      exact .walk hnode hwalk hinner ih

theorem meets_flatMap {f : Nat → List Nat} (h : ∀ i ∈ ids, g.Meets K [i] (f i)) :
    g.Meets K ids (ids.flatMap f) := by
  induction ids with
  | nil => exact .nil
  | cons i ids ih =>
      have hrest := ih fun j hj => h j (List.mem_cons_of_mem _ hj)
      exact (h i List.mem_cons_self).append hrest

theorem meets_walk (h : id < g.exprs.length) : g.Meets ∅ [id] (g.walk id) := by
  induction id using Nat.strongRecOn with
  | _ id ih =>
      obtain ⟨n, hnode⟩ := g.node?_of_lt h
      have hinner : g.Meets ∅ n.expr.children (n.expr.children.flatMap g.walk) := by
        refine meets_flatMap fun c hc => ?_
        have hlt := g.children_precede id n hnode c hc
        exact ih c hlt (Nat.lt_trans hlt h)
      rw [walk_eq hnode]
      simpa using Meets.walk hnode (Set.notMem_empty _) hinner .nil

/-- Without stops the walks through the bodies are what is met. -/
theorem meets_walks (g : Grammar) : g.Meets ∅ (g.rules.map (·.body)) g.walks := by
  have hwalks : g.walks = (g.rules.map (·.body)).flatMap g.walk := by
    rw [List.flatMap_map]
    rfl
  rw [hwalks]
  refine meets_flatMap fun i hi => ?_
  obtain ⟨rule, hrule, rfl⟩ := List.mem_map.1 hi
  exact meets_walk (g.bodies_below rule hrule)

theorem meets_walks_iff (g : Grammar) : g.Meets ∅ (g.rules.map (·.body)) met ↔ met = g.walks := by
  constructor
  · intro h
    exact h.unique g.meets_walks
  · rintro rfl
    exact g.meets_walks

end Packrat.Grammar
