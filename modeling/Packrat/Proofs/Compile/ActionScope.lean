import Packrat.Proofs.Compile.Hoisting
import Packrat.Proofs.Grammar.Unfold

/-!
# Scopes of actions

A path leads from the body of a rule down to an action, and the sequences on it bring the labels of
their earlier elements into scope.  Main statement: if the bodies are trees, the hoisted actions of
a grammar are the actions in the bodies, each once and in the order of the walks, with the labels
that the path to it brings into scope as parameters (`hoists_actions`).
-/

namespace Packrat

/-- The label that an expression brings into scope. -/
def Expr.label? {τ : Type} : Expr τ → Option String
  | .leaf (.labeledParam label _) => some label
  | .wrap (.labeled label) _ => some label
  | _ => none

namespace Tree

variable {r : Nat} {scope : List String} {ts : List Tree} {a : HoistedAction}

theorem mem_actions_wrap_iff {id : Nat} {w : Wrapper} {inner : Tree} :
    a ∈ (wrap id w inner).actions r scope ↔
      (∃ code, w = .action code ∧ a = ⟨id, r, code, scope ++ inner.innerLabels⟩) ∨
        a ∈ inner.actions r scope := by
  cases w <;> simp [actions]

/-- An element of a sequence has the labels of those before it in scope. -/
theorem mem_actionsInSequence_iff :
    a ∈ actionsInSequence r scope ts ↔
      ∃ (i : Nat) (t : Tree), ts[i]? = some t ∧
        a ∈ t.actions r (scope ++ (ts.take i).filterMap label?) := by
  induction ts generalizing scope with
  | nil => simp [actionsInSequence]
  | cons t ts ih =>
      rw [actionsInSequence, List.mem_append, ih]
      constructor
      · rintro (h | ⟨i, u, hu, h⟩)
        · exact ⟨0, t, rfl, by simpa using h⟩
        · refine ⟨i + 1, u, hu, ?_⟩
          rwa [List.take_succ_cons, filterMap_label?_cons, ← List.append_assoc]
      · rintro ⟨_ | i, u, hu, h⟩
        · obtain rfl : t = u := Option.some.inj hu
          exact Or.inl (by simpa using h)
        · refine Or.inr ⟨i, u, hu, ?_⟩
          rwa [List.take_succ_cons, filterMap_label?_cons, ← List.append_assoc] at h

theorem mem_actionsInChoice_iff :
    a ∈ actionsInChoice r scope ts ↔
      ∃ (i : Nat) (t : Tree), ts[i]? = some t ∧ a ∈ t.actions r scope := by
  induction ts with
  | nil => simp [actionsInChoice]
  | cons t ts ih =>
      rw [actionsInChoice, List.mem_append, ih]
      constructor
      · rintro (h | ⟨i, u, hu, h⟩)
        · exact ⟨0, t, rfl, h⟩
        · exact ⟨i + 1, u, hu, h⟩
      · rintro ⟨_ | i, u, hu, h⟩
        · obtain rfl : t = u := Option.some.inj hu
          exact Or.inl h
        · exact Or.inr ⟨i, u, hu, h⟩

theorem map_actions_wrap {id : Nat} {w : Wrapper} {inner : Tree} :
    ((wrap id w inner).actions r scope).map (·.expr) =
      (if w.kind = .action then [id] else []) ++ (inner.actions r scope).map (·.expr) := by
  cases w <;> simp [actions, Wrapper.kind]

/-- Whatever is in scope, a sequence has the actions of its elements one after another. -/
theorem map_actionsInSequence {is : List Nat} {tree : Nat → Tree} {f : Nat → List Nat}
    (h : ∀ i ∈ is, ∀ scope, ((tree i).actions r scope).map (·.expr) = f i) :
    (actionsInSequence r scope (is.map tree)).map (·.expr) = is.flatMap f := by
  induction is generalizing scope with
  | nil => rfl
  | cons i is ih =>
      have hrest := @ih (scope ++ (tree i).label?.toList) fun j hj =>
        h j (List.mem_cons_of_mem _ hj)
      rw [List.map_cons, actionsInSequence, List.map_append, List.flatMap_cons, hrest,
        h i List.mem_cons_self]

theorem map_actionsInChoice {is : List Nat} {tree : Nat → Tree} {f : Nat → List Nat}
    (h : ∀ i ∈ is, ∀ scope, ((tree i).actions r scope).map (·.expr) = f i) :
    (actionsInChoice r scope (is.map tree)).map (·.expr) = is.flatMap f := by
  induction is with
  | nil => rfl
  | cons i is ih =>
      have hrest := ih fun j hj => h j (List.mem_cons_of_mem _ hj)
      rw [List.map_cons, actionsInChoice, List.map_append, List.flatMap_cons, hrest,
        h i List.mem_cons_self]

end Tree

namespace Grammar

/-- The label that the expression with a number brings into scope. -/
def labelOf (g : Grammar) (id : Nat) : Option String :=
  (g.node? id).bind fun n => n.expr.label?

/-- The labels that a sequence brings into the scope of its element at a place. -/
def labelsBefore (g : Grammar) : Expr Nat → Nat → List String
  | .group .sequence items, i => (items.take i).filterMap g.labelOf
  | _, _ => []

/-- The labels that an action sees of the expression that it transforms. -/
def labelsWithin (g : Grammar) (id : Nat) : List String :=
  match g.node? id with
  | some ⟨.group .sequence items, _⟩ => items.filterMap g.labelOf
  | _ => (g.labelOf id).toList

/-- Whether an expression transforms a result by code. -/
def isAction (g : Grammar) (id : Nat) : Bool :=
  (g.node? id).any (·.expr.kind == .action)

/-- A path, given by the places of inner expressions, leads from an expression down to another, and
the sequences on it bring some labels into scope, outermost first. -/
inductive Leads (g : Grammar) : Nat → List Nat → Nat → List String → Prop where
  | here (id : Nat) : Leads g id [] id []
  | inner {id i c target : Nat} {n : Node Nat} {path : List Nat} {labels : List String}
      (hnode : g.node? id = some n) (hc : n.expr.children[i]? = some c)
      (hrest : Leads g c path target labels) :
      Leads g id (i :: path) target (g.labelsBefore n.expr i ++ labels)

/-- What the action at the end of a path from an expression becomes, with some names in scope at
that expression. -/
def HoistedFrom (g : Grammar) (id : Nat) (scope : List String) (path : List Nat)
    (a : HoistedAction) : Prop :=
  ∃ labels inner span, g.Leads id path a.expr labels ∧
    g.node? a.expr = some ⟨.wrap (.action a.code) inner, span⟩ ∧
    a.params = scope ++ labels ++ g.labelsWithin inner

/-- What the action at the end of a path from the body of its rule becomes: a function of the
parameters of the rule, the labels on the path and those inside the action. -/
def HoistedAt (g : Grammar) (path : List Nat) (a : HoistedAction) : Prop :=
  ∃ rule, g.rule? a.rule = some rule ∧
    g.HoistedFrom rule.body (rule.params.map (·.name)) path a

variable {g : Grammar} {id r : Nat} {t : Tree} {n : Node Nat} {a : HoistedAction}
  {scope : List String}

theorem Unfolds.label?_eq (ht : g.Unfolds id t) : t.label? = g.labelOf id := by
  cases ht with
  | @leaf _ l _ hnode => cases l <;> simp [labelOf, hnode, Tree.label?, Expr.label?]
  | @wrap _ _ w _ _ hnode _ => cases w <;> simp [labelOf, hnode, Tree.label?, Expr.label?]
  | group hnode _ => simp [labelOf, hnode, Tree.label?, Expr.label?]

theorem filterMap_label?_eq {is : List Nat} {tree : Nat → Tree}
    (h : ∀ i ∈ is, g.Unfolds i (tree i)) :
    (is.map tree).filterMap Tree.label? = is.filterMap g.labelOf := by
  rw [List.filterMap_map]
  exact List.filterMap_congr fun i hi => (h i hi).label?_eq

theorem Unfolds.innerLabels_eq (ht : g.Unfolds id t) : t.innerLabels = g.labelsWithin id := by
  have hlabel := ht.label?_eq
  cases ht with
  | leaf hnode => simp [Tree.innerLabels, labelsWithin, hnode, hlabel]
  | wrap hnode _ => simp [Tree.innerLabels, labelsWithin, hnode, hlabel]
  | @group _ k _ _ _ hnode hitems =>
      cases k with
      | sequence => simp [Tree.innerLabels, labelsWithin, hnode, filterMap_label?_eq hitems]
      | choice => simp [Tree.innerLabels, labelsWithin, hnode, hlabel]

/-- One step down a path: the action is at its start, or further down from an inner expression, with
the labels before that in scope. -/
theorem exists_hoistedFrom_iff (hnode : g.node? id = some n) :
    (∃ path, g.HoistedFrom id scope path a) ↔
      (a.expr = id ∧ ∃ inner, n.expr = .wrap (.action a.code) inner ∧
        a.params = scope ++ g.labelsWithin inner) ∨
      ∃ (i c : Nat), n.expr.children[i]? = some c ∧
        ∃ path, g.HoistedFrom c (scope ++ g.labelsBefore n.expr i) path a := by
  constructor
  · rintro ⟨path, labels, inner, span, hpath, haction, hparams⟩
    cases hpath with
    | here =>
        obtain rfl : n = _ := Option.some.inj (hnode.symm.trans haction)
        exact Or.inl ⟨rfl, inner, rfl, by simpa using hparams⟩
    | @inner _ i c _ m rest later hm hc hrest =>
        obtain rfl : n = m := Option.some.inj (hnode.symm.trans hm)
        refine Or.inr ⟨i, c, hc, rest, later, inner, span, hrest, haction, ?_⟩
        simp only [hparams, List.append_assoc]
  · rintro (⟨rfl, inner, hexpr, hparams⟩ | ⟨i, c, hc, path, labels, inner, span, hpath, haction,
      hparams⟩)
    · have haction : g.node? a.expr = some ⟨.wrap (.action a.code) inner, n.span⟩ := by
        rw [hnode, ← hexpr]
      exact ⟨[], [], inner, n.span, .here _, haction, by simpa using hparams⟩
    · refine ⟨i :: path, _, inner, span, .inner hnode hc hpath, haction, ?_⟩
      simp only [hparams, List.append_assoc]

/-- The hoisted actions in the items of a group are those at the ends of paths from them. -/
theorem exists_mem_actions_iff {is : List Nat} {tree : Nat → Tree}
    (h : ∀ i ∈ is, ∀ scope, a ∈ (tree i).actions r scope ↔
      a.rule = r ∧ ∃ path, g.HoistedFrom i scope path a) (scopeAt : Nat → List String) :
    (∃ (j : Nat) (t : Tree), (is.map tree)[j]? = some t ∧ a ∈ t.actions r (scopeAt j)) ↔
      a.rule = r ∧ ∃ (j c : Nat), is[j]? = some c ∧
        ∃ path, g.HoistedFrom c (scopeAt j) path a := by
  constructor
  · rintro ⟨j, t, ht, ha⟩
    rw [List.getElem?_map] at ht
    obtain ⟨c, hc, rfl⟩ := Option.map_eq_some_iff.1 ht
    obtain ⟨hrule, hrest⟩ := (h c (List.mem_of_getElem? hc) _).1 ha
    exact ⟨hrule, j, c, hc, hrest⟩
  · rintro ⟨hrule, j, c, hc, hrest⟩
    have hmem := (h c (List.mem_of_getElem? hc) _).2 ⟨hrule, hrest⟩
    exact ⟨j, tree c, by rw [List.getElem?_map, hc, Option.map_some], hmem⟩

/-- The hoisted actions in a tree are those at the ends of paths through it. -/
theorem Unfolds.mem_actions_iff (ht : g.Unfolds id t) :
    a ∈ t.actions r scope ↔ a.rule = r ∧ ∃ path, g.HoistedFrom id scope path a := by
  -- for every scope, since the elements of a sequence add to it
  induction ht generalizing scope with
  | leaf hnode => simp [Tree.actions, exists_hoistedFrom_iff hnode, Expr.children]
  | @wrap id i w span inner hnode hinner ih =>
      rw [Tree.mem_actions_wrap_iff, ih, exists_hoistedFrom_iff hnode, hinner.innerLabels_eq]
      simp only [Expr.children, labelsBefore, List.append_nil]
      constructor
      · rintro (⟨code, rfl, rfl⟩ | ⟨hrule, hrest⟩)
        · exact ⟨rfl, Or.inl ⟨rfl, i, rfl, rfl⟩⟩
        · exact ⟨hrule, Or.inr ⟨0, i, rfl, hrest⟩⟩
      · rintro ⟨hrule, ⟨hid, j, hexpr, hparams⟩ | ⟨k, c, hc, hrest⟩⟩
        · obtain ⟨rfl, rfl⟩ := Expr.wrap.inj hexpr
          refine Or.inl ⟨a.code, rfl, ?_⟩
          rw [← hid, ← hrule, ← hparams]
        · obtain rfl : c = i := by simpa using List.mem_of_getElem? hc
          exact Or.inr ⟨hrule, hrest⟩
  | @group id k is span tree hnode hitems ih =>
      have hitem := exists_mem_actions_iff fun i hi _ => ih i hi
      rw [exists_hoistedFrom_iff hnode]
      simp only [Expr.children, reduceCtorEq, false_and, exists_false, and_false, false_or]
      cases k with
      | sequence =>
          have hlabels : ∀ j, ((is.map tree).take j).filterMap Tree.label? =
              (is.take j).filterMap g.labelOf := by
            intro j
            rw [← List.map_take]
            exact filterMap_label?_eq fun c hc => hitems c (List.mem_of_mem_take hc)
          rw [Tree.actions, Tree.mem_actionsInSequence_iff]
          simp only [hlabels]
          exact hitem fun j => scope ++ (is.take j).filterMap g.labelOf
      | choice =>
          rw [Tree.actions, Tree.mem_actionsInChoice_iff]
          simp only [labelsBefore, List.append_nil]
          exact hitem fun _ => scope

/-- A tree has its actions in the order in which a walk meets them. -/
theorem Unfolds.map_actions (ht : g.Unfolds id t) :
    (t.actions r scope).map (·.expr) = (g.walk id).filter g.isAction := by
  induction ht generalizing scope with
  | @leaf id l span hnode =>
      have hid : g.isAction id = false := by
        cases l <;> simp [isAction, hnode, Expr.kind, Leaf.kind]
      simp [Tree.actions, walk_eq hnode, Expr.children, hid]
  | @wrap id i w span inner hnode hinner ih =>
      have hid : g.isAction id = decide (w.kind = .action) := by
        simp [isAction, hnode, Expr.kind, beq_eq_decide]
      rw [Tree.map_actions_wrap, walk_eq hnode, List.filter_cons, hid, ih]
      by_cases hkind : w.kind = .action <;> simp [hkind, Expr.children]
  | @group id k is span tree hnode hitems ih =>
      have hid : g.isAction id = false := by
        cases k <;> simp [isAction, hnode, Expr.kind, Grouping.kind]
      have hinner : (g.walk id).filter g.isAction =
          is.flatMap fun c => (g.walk c).filter g.isAction := by
        simp [walk_eq hnode, Expr.children, hid, List.filter_flatMap]
      rw [hinner]
      cases k with
      | sequence => exact Tree.map_actionsInSequence fun c hc _ => ih c hc
      | choice => exact Tree.map_actionsInChoice fun c hc _ => ih c hc

/-- The actions of a rule have its parameters in scope. -/
theorem actionsOf_eq {rule : Rule} (h : g.rule? r = some rule) :
    g.actionsOf r = (g.tree rule.body).actions r (rule.params.map (·.name)) := by
  rw [actionsOf, h, g.body_eq h]
  rfl

/-- The hoisted actions are those at the ends of paths from the bodies of rules. -/
theorem mem_actions_iff : a ∈ g.actions.entries ↔ ∃ path, g.HoistedAt path a := by
  have hbody : ∀ {r rule}, g.rule? r = some rule → (a ∈ g.actionsOf r ↔
      a.rule = r ∧ ∃ path, g.HoistedFrom rule.body (rule.params.map (·.name)) path a) := by
    intro r rule h
    rw [actionsOf_eq h]
    exact (g.unfolds_tree (g.bodies_below rule (List.mem_of_getElem? h))).mem_actions_iff
  rw [entries_actions, List.mem_flatMap]
  constructor
  · rintro ⟨r, hr, ha⟩
    obtain ⟨rule, hrule⟩ := g.exists_rule_of_mem_ruleIds hr
    obtain ⟨rfl, path, hpath⟩ := (hbody hrule).1 ha
    exact ⟨path, rule, hrule, hpath⟩
  · rintro ⟨path, rule, hrule, hpath⟩
    exact ⟨a.rule, List.mem_range.2 (List.getElem?_eq_some_iff.1 hrule).1,
      (hbody hrule).2 ⟨rfl, path, hpath⟩⟩

theorem map_actions (g : Grammar) :
    g.actions.entries.map (·.expr) = g.walks.filter g.isAction := by
  have hrule : ∀ {r rule}, g.rule? r = some rule →
      (g.actionsOf r).map (·.expr) = (g.walk rule.body).filter g.isAction := by
    intro r rule h
    rw [actionsOf_eq h]
    exact (g.unfolds_tree (g.bodies_below rule (List.mem_of_getElem? h))).map_actions
  have hrules : g.ruleIds.map (fun r => (g.actionsOf r).map (·.expr)) =
      g.rules.map fun rule => (g.walk rule.body).filter g.isAction := by
    apply List.ext_getElem (by simp [ruleIds])
    intro r hr hlt
    simp only [ruleIds, List.getElem_map, List.getElem_range]
    exact hrule (List.getElem?_eq_getElem (by simpa using hlt))
  rw [entries_actions, walks, List.map_flatMap, List.filter_flatMap, List.flatMap_def,
    List.flatMap_def, hrules]

/-- Walks through the bodies of the rules meet no expression twice. -/
def BodiesAreTrees (g : Grammar) : Prop :=
  g.walks.Nodup

/-- A table lists the actions in the bodies of the rules, each once and in the order of the walks,
under indices that lead back to them, and lists for each what it becomes by the path to it. -/
structure Hoists (g : Grammar) (table : ActionTable) : Prop where
  order : table.entries.map (·.expr) = g.walks.filter g.isAction
  nodup : (table.entries.map (·.expr)).Nodup
  indexed : ∀ id, (table.indexOf? id).isSome = true ↔ g.InBody id ∧ g.isAction id = true
  inverse : ∀ id i, table.indexOf? id = some i ↔ ∃ a, table.get? i = some a ∧ a.expr = id
  hoisted : ∀ a, a ∈ table.entries ↔ ∃ path, g.HoistedAt path a

/-- If the bodies of the rules are trees, every action in them is hoisted once, with the labels in
its scope. -/
theorem hoists_actions (g : Grammar) (h : g.BodiesAreTrees) : g.Hoists g.actions := by
  have hnodup : (g.actions.entries.map (·.expr)).Nodup := by
    rw [map_actions]
    exact h.filter g.isAction
  refine ⟨g.map_actions, hnodup, ?_, ?_, fun _ => mem_actions_iff⟩
  · intro id
    rw [g.indexed_actions.isSome_indexOf?_iff, map_actions, List.mem_filter, mem_walks_iff]
  · intro id i
    exact g.indexed_actions.indexOf?_eq_some_iff hnodup

end Grammar

namespace ActionScopeWitness

/-- One rule with a parameter: `a:"x" (b:. ([] { inner }) c:. { outer })`. -/
def grammar : Grammar where
  rules := [⟨"A", [⟨"p", false⟩], 10, .unknown⟩]
  exprs := [⟨.leaf (.literal "x" false), .unknown⟩, ⟨.wrap (.labeled "a") 0, .unknown⟩,
    ⟨.leaf .any, .unknown⟩, ⟨.wrap (.labeled "b") 2, .unknown⟩,
    ⟨.leaf (.charClass ⟨[], false, false⟩), .unknown⟩, ⟨.wrap (.action "inner") 4, .unknown⟩,
    ⟨.leaf .any, .unknown⟩, ⟨.wrap (.labeled "c") 6, .unknown⟩,
    ⟨.group .sequence [3, 5, 7], .unknown⟩, ⟨.wrap (.action "outer") 8, .unknown⟩,
    ⟨.group .sequence [1, 9], .unknown⟩]
  start := [0]
  stream := []
  children_precede := by
    intro i n hn
    rcases i with _ | _ | _ | _ | _ | _ | _ | _ | _ | _ | _ | i <;> cases hn <;>
      simp [Expr.children]
  bodies_below := by simp [BodiesBelow]
  targets_below := by simp [Expr.target?, Leaf.target?]
  names_nodup := by decide
  entries_below := by simp

/-- The inner action sees the label before it in its own sequence, the outer one all labels of that
sequence, and both those before the outer one. -/
theorem hoists_actions_nested :
    grammar.BodiesAreTrees ∧
      (∃ path, grammar.HoistedAt path ⟨9, 0, "outer", ["p", "a", "b", "c"]⟩) ∧
      ∃ path, grammar.HoistedAt path ⟨5, 0, "inner", ["p", "a", "b"]⟩ := by
  have htrees : grammar.BodiesAreTrees := by
    unfold Grammar.BodiesAreTrees
    decide
  have hoists := grammar.hoists_actions htrees
  exact ⟨htrees, (hoists.hoisted _).1 (by decide), (hoists.hoisted _).1 (by decide)⟩

end ActionScopeWitness

end Packrat
