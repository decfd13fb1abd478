import Packrat.Grammar.Basic

/-!
# Expression trees

Following the numbers of inner expressions turns an expression into a tree.  An expression that
belongs to several others occurs once under each.  Passes over a grammar are recursions on these
trees.  Main statement: the trees of a grammar unfold its expressions (`Grammar.tree_eq`).
-/

namespace Packrat

/-- An expression with its inner expressions in place.  Every node keeps its number. -/
inductive Tree where
  | leaf (id : Nat) (l : Leaf Nat)
  | wrap (id : Nat) (w : Wrapper) (inner : Tree)
  | group (id : Nat) (g : Grouping) (items : List Tree)

instance : Inhabited Tree := ⟨.leaf 0 .any⟩

namespace Tree

/-- The number of the expression at the root. -/
def id : Tree → Nat
  | leaf id _ => id
  | wrap id _ _ => id
  | group id _ _ => id

/-- The kind of the expression at the root. -/
def kind : Tree → Kind
  | leaf _ l => l.kind
  | wrap _ w _ => w.kind
  | group _ g _ => g.kind

/-- The trees of the inner expressions in source order. -/
def children : Tree → List Tree
  | leaf .. => []
  | wrap _ _ inner => [inner]
  | group _ _ items => items

/-- An expression over trees of its inner expressions. -/
def ofExpr (inner : Nat → Tree) (id : Nat) : Expr Nat → Tree
  | .leaf l => leaf id l
  | .wrap w i => wrap id w (inner i)
  | .group g is => group id g (is.map inner)

mutual

/-- The nodes of a tree, each before those under it. -/
def preorder : Tree → List Tree
  | leaf id l => [leaf id l]
  | wrap id w inner => wrap id w inner :: preorder inner
  | group id g items => group id g items :: preorderAll items

/-- The nodes of some trees, tree by tree. -/
def preorderAll : List Tree → List Tree
  | [] => []
  | t :: ts => preorder t ++ preorderAll ts

end

theorem preorderAll_eq (ts : List Tree) : preorderAll ts = ts.flatMap preorder := by
  induction ts with
  | nil => rfl
  | cons t ts ih => simp [preorderAll, ih]

/-- Every tree starts with its root, and its children follow one after another. -/
theorem preorder_eq (t : Tree) : t.preorder = t :: t.children.flatMap preorder := by
  cases t <;> simp [preorder, children, preorderAll_eq]

end Tree

namespace Grammar

/-- Adds the trees of further expressions to the trees of those before them. -/
def growTrees (trees : List Tree) : List (Node Nat) → List Tree
  | [] => trees
  | n :: rest =>
    growTrees (trees ++ [Tree.ofExpr (fun i => trees[i]?.getD default) trees.length n.expr]) rest

/-- The tree of every expression. -/
def trees (g : Grammar) : List Tree :=
  growTrees [] g.exprs

/-- The tree of an expression. -/
def tree (g : Grammar) (id : Nat) : Tree :=
  g.trees[id]?.getD default

/-- The bodies of all rules in the order of declaration. -/
def bodies (g : Grammar) : List Tree :=
  let trees := g.trees
  g.rules.map fun r => trees[r.body]?.getD default

/-- The tree of the body of a rule. -/
def body (g : Grammar) (id : Nat) : Tree :=
  g.bodies[id]?.getD default

theorem body_eq (g : Grammar) {id : Nat} {r : Rule} (h : g.rule? id = some r) :
    g.body id = g.tree r.body := by
  simp only [rule?] at h
  simp [body, bodies, tree, h]

/-- Growing keeps the trees that are there. -/
theorem getElem?_growTrees_of_lt {trees : List Tree} (rest : List (Node Nat)) {i : Nat}
    (h : i < trees.length) : (growTrees trees rest)[i]? = trees[i]? := by
  induction rest generalizing trees with
  | nil => rfl
  | cons n rest ih =>
    rw [growTrees, ih (by simp only [List.length_append]; omega), List.getElem?_append_left h]

/-- Growing adds the tree of each expression over the trees of smaller numbers. -/
theorem getElem?_growTrees {trees : List Tree} {rest : List (Node Nat)} {k : Nat}
    {n : Node Nat} (hn : rest[k]? = some n)
    (hchildren : ∀ c ∈ n.expr.children, c < trees.length + k) :
    (growTrees trees rest)[trees.length + k]? =
      some (Tree.ofExpr (fun i => (growTrees trees rest)[i]?.getD default)
        (trees.length + k) n.expr) := by
  induction rest generalizing trees k with
  | nil => simp at hn
  | cons m rest ih =>
    cases k with
    | zero =>
      obtain rfl : m = n := by simpa using hn
      rw [growTrees, getElem?_growTrees_of_lt _ (by simp)]
      simp only [Nat.add_zero, List.getElem?_append_right (Nat.le_refl _), Nat.sub_self,
        List.getElem?_cons_zero, Option.some.injEq]
      have hsame : ∀ c ∈ m.expr.children, (growTrees (trees ++
          [Tree.ofExpr (fun i => trees[i]?.getD default) trees.length m.expr]) rest)[c]? =
          trees[c]? := by
        intro c hc
        have hlt : c < trees.length := by simpa using hchildren c hc
        rw [getElem?_growTrees_of_lt _ (by simp; omega), List.getElem?_append_left hlt]
      cases hexpr : m.expr with
      | leaf l => rfl
      | wrap w i =>
        simp only [Tree.ofExpr, hexpr] at hsame ⊢
        rw [hsame i (by simp [Expr.children])]
      | group g is =>
        simp only [Tree.ofExpr, hexpr] at hsame ⊢
        congr 1
        refine List.map_congr_left fun c hc => ?_
        rw [hsame c (by simpa [Expr.children] using hc)]
    | succ k =>
      have := @ih (trees ++
        [Tree.ofExpr (fun i => trees[i]?.getD default) trees.length m.expr]) k
        (by simpa using hn) (by
          intro c hc
          have hlt := hchildren c hc
          simp only [List.length_append, List.length_cons, List.length_nil]
          omega)
      have hlen : (trees ++ [Tree.ofExpr (fun i => trees[i]?.getD default) trees.length
          m.expr]).length + k = trees.length + (k + 1) := by
        simp only [List.length_append, List.length_cons, List.length_nil]
        omega
      rw [hlen] at this
      exact this

/-- The tree of an expression is the expression over the trees of its inner expressions. -/
theorem tree_eq (g : Grammar) {id : Nat} {n : Node Nat} (h : g.node? id = some n) :
    g.tree id = Tree.ofExpr g.tree id n.expr := by
  have := @getElem?_growTrees [] g.exprs id n h (by
    intro c hc
    simpa using g.children_precede id n h c hc)
  simp only [List.length_nil, Nat.zero_add] at this
  unfold tree trees
  rw [this]
  rfl

end Grammar

end Packrat
