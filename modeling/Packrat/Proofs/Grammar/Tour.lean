import Packrat.Grammar.Tour
import Packrat.Proofs.Grammar.Walk

/-!
# Tours through the bodies of rules

The tours of a grammar go through the bodies one after another and stop at some kinds of
expressions.  Main statement: they enter the expressions of the bodies in pre-order, but none below
a stop, they leave each after all that was entered inside it, and an output goes up through wrappers
alone (`tours_enter_and_leave`).
-/

namespace Packrat

variable {β : Type}

/-- The expression that a step of a tour enters. -/
def TourEvent.entered? : TourEvent β → Option Nat
  | enter id => some id
  | leave _ _ => none

/-- The expressions that are entered, in order. -/
def TourEvent.entered (log : List (TourEvent β)) : List Nat :=
  log.filterMap entered?

theorem TourEvent.entered_cons {id : Nat} {output : β} (inside rest : List (TourEvent β)) :
    entered (.enter id :: inside ++ .leave id output :: rest) =
      id :: entered inside ++ entered rest := by
  rw [entered, List.filterMap_append]
  rfl

/-- The guide that stops at some kinds of expressions, each with a value of its own. -/
def stopAt (K : Set Kind) [DecidablePred (· ∈ K)] (value : Nat → β) (kind : Kind) (id : Nat) :
    Option β :=
  if kind ∈ K then some (value id) else none

/-- Steps that are properly nested, and the outermost expressions with their outputs.  An expression
is left after what is inside it, as `leaves` allows, which sees the expressions that were entered
directly inside it with their outputs. -/
inductive Nested (leaves : Nat → List (Nat × β) → β → Prop) :
    List (TourEvent β) → List (Nat × β) → Prop
  | nil : Nested leaves [] []
  | cons {id : Nat} {output : β} {inside rest : List (TourEvent β)} {inner outer : List (Nat × β)}
      (hinside : Nested leaves inside inner) (hleave : leaves id inner output)
      (hrest : Nested leaves rest outer) :
      Nested leaves (.enter id :: inside ++ .leave id output :: rest) ((id, output) :: outer)

theorem Nested.append {leaves : Nat → List (Nat × β) → β → Prop} {log more : List (TourEvent β)}
    {outer next : List (Nat × β)} (h : Nested leaves log outer) (hmore : Nested leaves more next) :
    Nested leaves (log ++ more) (outer ++ next) := by
  induction h with
  | nil => exact hmore
  | cons hinside hleave _ _ ih =>
      rw [List.append_assoc]
      exact .cons hinside hleave ih

theorem map_fst_outputs (output : Nat → β) (ids : List Nat) :
    (ids.map fun id => (id, output id)).map Prod.fst = ids := by
  simp [Function.comp_def]

namespace Tree

variable [Inhabited β] {K : Set Kind} [DecidablePred (· ∈ K)] {value : Nat → β} {id : Nat}

theorem tour_stop {t : Tree} (h : t.kind ∈ K) :
    t.tour (stopAt K value) = ⟨[.enter t.id, .leave t.id (value t.id)], value t.id⟩ := by
  cases t <;> simp_all [tour, stopAt, kind, Tree.id]

theorem tour_leaf {l : Leaf Nat} (h : l.kind ∉ K) :
    (leaf id l).tour (stopAt K value) = ⟨[.enter id, .leave id default], default⟩ := by
  simp [tour, stopAt, h]

theorem tour_wrap {w : Wrapper} {inner : Tree} (h : w.kind ∉ K) :
    (wrap id w inner).tour (stopAt K value) =
      ⟨.enter id :: (inner.tour (stopAt K value)).events ++
          [.leave id (inner.tour (stopAt K value)).output],
        (inner.tour (stopAt K value)).output⟩ := by
  simp [tour, stopAt, h]

theorem tour_group {k : Grouping} {items : List Tree} (h : k.kind ∉ K) :
    (group id k items).tour (stopAt K value) =
      ⟨.enter id :: tourAll (stopAt K value) items ++ [.leave id default], default⟩ := by
  simp [tour, stopAt, h]

theorem tourAll_eq (guide : Kind → Nat → Option β) (ts : List Tree) :
    tourAll guide ts = ts.flatMap fun t => (t.tour guide).events := by
  induction ts with
  | nil => rfl
  | cons t ts ih => rw [tourAll, ih, List.flatMap_cons]

/-- Tours that are properly nested one by one are so one after another. -/
theorem nested_tourAll {leaves : Nat → List (Nat × β) → β → Prop}
    {guide : Kind → Nat → Option β} {tree : Nat → Tree} {is : List Nat}
    (h : ∀ i ∈ is, Nested leaves ((tree i).tour guide).events [(i, ((tree i).tour guide).output)]) :
    Nested leaves (tourAll guide (is.map tree))
      (is.map fun i => (i, ((tree i).tour guide).output)) := by
  induction is with
  | nil => exact .nil
  | cons i is ih =>
      have hrest := ih fun j hj => h j (List.mem_cons_of_mem _ hj)
      exact (h i List.mem_cons_self).append hrest

end Tree

namespace Grammar

/-- The steps of the tours of all bodies, one after another. -/
def tourLog [Inhabited β] (g : Grammar) (guide : Kind → Nat → Option β) : List (TourEvent β) :=
  (g.tours guide).flatMap (·.events)

/-- How an expression is left, given the expressions that were entered directly inside it with their
outputs. -/
inductive Leaves [Inhabited β] (g : Grammar) (K : Set Kind) (value : Nat → β) :
    Nat → List (Nat × β) → β → Prop
  /-- A stop has its value, and nothing inside it is entered. -/
  | stop {id : Nat} {n : Node Nat} (hnode : g.node? id = some n) (hstop : n.expr.kind ∈ K) :
      Leaves g K value id [] (value id)
  /-- Nothing is inside a leaf, not even the body of the rule that a reference leads to. -/
  | leaf {id : Nat} {l : Leaf Nat} {span : Span} (hnode : g.node? id = some ⟨.leaf l, span⟩)
      (hwalk : l.kind ∉ K) : Leaves g K value id [] default
  /-- A wrapper has the output of the one expression inside it. -/
  | wrap {id i : Nat} {w : Wrapper} {span : Span} {output : β}
      (hnode : g.node? id = some ⟨.wrap w i, span⟩) (hwalk : w.kind ∉ K) :
      Leaves g K value id [(i, output)] output
  /-- A group has the default output, whatever the outputs of its items are. -/
  | group {id : Nat} {k : Grouping} {is : List Nat} {span : Span} {inner : List (Nat × β)}
      (hnode : g.node? id = some ⟨.group k is, span⟩) (hwalk : k.kind ∉ K)
      (hinner : inner.map Prod.fst = is) : Leaves g K value id inner default

variable {g : Grammar} {K : Set Kind} {id : Nat}

theorem Unfolds.exists_node {t : Tree} (ht : g.Unfolds id t) :
    ∃ n, g.node? id = some n ∧ n.expr.kind = t.kind := by
  cases ht with
  | leaf hnode => exact ⟨_, hnode, rfl⟩
  | wrap hnode _ => exact ⟨_, hnode, rfl⟩
  | group hnode _ => exact ⟨_, hnode, rfl⟩

section Outputs

variable [Inhabited β] {value : Nat → β} {log : List (TourEvent β)} {left inner : List (Nat × β)}
  {output : β}

/-- What was entered directly inside an expression are its inner expressions, unless it
is a stop. -/
theorem Leaves.inner_eq (h : g.Leaves K value id inner output) :
    ∃ n, g.node? id = some n ∧ ((n.expr.kind ∈ K ∧ inner = []) ∨
      (n.expr.kind ∉ K ∧ inner.map Prod.fst = n.expr.children)) := by
  cases h with
  | stop hnode hstop => exact ⟨_, hnode, Or.inl ⟨hstop, rfl⟩⟩
  | leaf hnode hwalk => exact ⟨_, hnode, Or.inr ⟨hwalk, rfl⟩⟩
  | wrap hnode hwalk => exact ⟨_, hnode, Or.inr ⟨hwalk, rfl⟩⟩
  | group hnode hwalk hinner => exact ⟨_, hnode, Or.inr ⟨hwalk, hinner⟩⟩

/-- If every expression is left as it should, the expressions are entered in pre-order. -/
theorem meets_of_nested (h : Nested (g.Leaves K value) log left) :
    g.Meets K (left.map Prod.fst) (TourEvent.entered log) := by
  induction h with
  | nil => exact .nil
  | cons _ hleave _ ihinside ihrest =>
      rw [TourEvent.entered_cons]
      obtain ⟨n, hnode, ⟨hstop, rfl⟩ | ⟨hwalk, hinner⟩⟩ := hleave.inner_eq
      · -- nothing was entered inside a stop
        rw [Meets.unique ihinside .nil]
        exact .stop hnode hstop ihrest
      · rw [hinner] at ihinside
        exact .walk hnode hwalk ihinside ihrest

variable [DecidablePred (· ∈ K)]

theorem Unfolds.nested_stop {t : Tree} (ht : g.Unfolds id t) (hstop : t.kind ∈ K) :
    Nested (g.Leaves K value) (t.tour (stopAt K value)).events
      [(id, (t.tour (stopAt K value)).output)] := by
  obtain ⟨n, hnode, hkind⟩ := ht.exists_node
  rw [Tree.tour_stop hstop, ht.id_eq]
  rw [← hkind] at hstop
  exact .cons .nil (.stop hnode hstop) .nil

/-- The tour of a body is properly nested, and every expression in it is left as it should. -/
theorem Unfolds.nested_tour {t : Tree} (ht : g.Unfolds id t) :
    Nested (g.Leaves K value) (t.tour (stopAt K value)).events
      [(id, (t.tour (stopAt K value)).output)] := by
  induction ht with
  | @leaf id l span hnode =>
      by_cases hstop : l.kind ∈ K
      · exact (Unfolds.leaf hnode).nested_stop hstop
      · rw [Tree.tour_leaf hstop]
        exact .cons .nil (.leaf hnode hstop) .nil
  | @wrap id i w span inner hnode hinner ih =>
      by_cases hstop : w.kind ∈ K
      · exact (Unfolds.wrap hnode hinner).nested_stop hstop
      · rw [Tree.tour_wrap hstop]
        exact .cons ih (.wrap hnode hstop) .nil
  | @group id k is span tree hnode hitems ih =>
      by_cases hstop : k.kind ∈ K
      · exact (Unfolds.group hnode hitems).nested_stop hstop
      · rw [Tree.tour_group hstop]
        exact .cons (Tree.nested_tourAll ih) (.group hnode hstop (map_fst_outputs _ _)) .nil

theorem tourLog_eq (g : Grammar) (guide : Kind → Nat → Option β) :
    g.tourLog guide = Tree.tourAll guide ((g.rules.map (·.body)).map g.tree) := by
  have hbodies : g.bodies = (g.rules.map (·.body)).map g.tree := by
    rw [List.map_map]
    rfl
  rw [tourLog, tours, hbodies, List.flatMap_map, Tree.tourAll_eq]

/-- The tours of the bodies are properly nested, and the outermost expressions are the bodies. -/
theorem nested_tourLog (g : Grammar) (K : Set Kind) [DecidablePred (· ∈ K)] (value : Nat → β) :
    Nested (g.Leaves K value) (g.tourLog (stopAt K value))
      ((g.rules.map (·.body)).map fun id => (id, ((g.tree id).tour (stopAt K value)).output)) := by
  rw [tourLog_eq]
  refine Tree.nested_tourAll fun id hid => ?_
  obtain ⟨rule, hrule, rfl⟩ := List.mem_map.1 hid
  exact (g.unfolds_tree (g.bodies_below rule hrule)).nested_tour

theorem meets_tourLog (g : Grammar) (K : Set Kind) [DecidablePred (· ∈ K)] (value : Nat → β) :
    g.Meets K (g.rules.map (·.body))
      (TourEvent.entered (g.tourLog (stopAt K value))) := by
  have hmeets := meets_of_nested (g.nested_tourLog K value)
  rwa [map_fst_outputs] at hmeets

/-- Tours that stop at some kinds enter the expressions of the bodies in pre-order, by the inner
expressions of each but not below a stop.  They leave each after all that was entered inside it: a
stop with its value, a wrapper with the output of the one expression inside it, and a group or a
leaf with the default output.  A reference is a leaf, so that nothing is entered inside it. -/
theorem tours_enter_and_leave (g : Grammar) (K : Set Kind) [DecidablePred (· ∈ K)]
    (value : Nat → β) :
    (∀ met, g.Meets K (g.rules.map (·.body)) met ↔
      TourEvent.entered (g.tourLog (stopAt K value)) = met) ∧
    ∃ left : List (Nat × β), left.map Prod.fst = g.rules.map (·.body) ∧
      left.map Prod.snd = (g.tours (stopAt K value)).map (·.output) ∧
      Nested (g.Leaves K value) (g.tourLog (stopAt K value)) left := by
  have hmeets := g.meets_tourLog K value
  constructor
  · intro met
    constructor
    · intro hmet
      exact hmeets.unique hmet
    · rintro rfl
      exact hmeets
  · refine ⟨_, map_fst_outputs _ _, ?_, g.nested_tourLog K value⟩
    simp [tours, bodies, tree, Function.comp_def]

end Outputs

end Grammar

end Packrat
