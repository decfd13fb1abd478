import Packrat.Compile.Actions
import Packrat.Proofs.Compile.Plans

/-!
# The stack of labels

A visit pushes labels while it goes through a sequence.  Since it cuts the scope back behind the
sequence, what is in scope at an action can be handed down as an argument (`Tree.actions`).  Main
statements: a visit adds the actions of its tree and leaves the scope as it found it
(`Tree.hoist_eq`), and the indices that are kept for action expressions are those under which the
table lists them (`ActionTable.indexed_addAll`).
-/

namespace Packrat

namespace ActionTable

variable {table : ActionTable} {a : HoistedAction} {id i : Nat}

/-- Lists actions one after another. -/
def addAll (table : ActionTable) (added : List HoistedAction) : ActionTable :=
  added.foldl add table

theorem addAll_append (table : ActionTable) (added later : List HoistedAction) :
    table.addAll (added ++ later) = (table.addAll added).addAll later :=
  List.foldl_append

theorem entries_addAll (table : ActionTable) (added : List HoistedAction) :
    (table.addAll added).entries = table.entries ++ added := by
  induction added generalizing table with
  | nil => simp [addAll]
  | cons a added ih =>
      have hrest : (table.addAll (a :: added)).entries = ((table.add a).addAll added).entries := rfl
      rw [hrest, ih, add, List.append_assoc, List.singleton_append]

/-- The indices that are kept for an expression are those under which the table lists it. -/
def Indexed (table : ActionTable) : Prop :=
  ∀ id i, (id, i) ∈ table.byExpr ↔ ∃ a, table.get? i = some a ∧ a.expr = id

theorem indexed_empty : empty.Indexed := by
  intro id i
  simp [get?, empty]

theorem Indexed.add (h : table.Indexed) (a : HoistedAction) : (table.add a).Indexed := by
  intro id i
  have hget : ∀ b, (table.add a).get? i = some b ↔
      table.get? i = some b ∨ (table.size = i ∧ b = a) := fun _ => getElem?_concat_eq_some_iff
  have hmem : (id, i) ∈ (table.add a).byExpr ↔
      (id, i) ∈ table.byExpr ∨ (table.size = i ∧ a.expr = id) := by
    simp [ActionTable.add, and_comm, eq_comm, or_comm]
  rw [hmem, h id i]
  simp only [hget]
  constructor
  · rintro (⟨b, hb, hid⟩ | ⟨hi, hid⟩)
    · exact ⟨b, Or.inl hb, hid⟩
    · exact ⟨a, Or.inr ⟨hi, rfl⟩, hid⟩
  · rintro ⟨b, hb | ⟨hi, rfl⟩, hid⟩
    · exact Or.inl ⟨b, hb, hid⟩
    · exact Or.inr ⟨hi, hid⟩

theorem Indexed.addAll (h : table.Indexed) (added : List HoistedAction) :
    (table.addAll added).Indexed := by
  induction added generalizing table with
  | nil => exact h
  | cons a added ih => exact ih (h.add a)

theorem Indexed.isSome_indexOf?_iff (h : table.Indexed) :
    (table.indexOf? id).isSome = true ↔ id ∈ table.entries.map (·.expr) := by
  constructor
  · intro hi
    obtain ⟨i, hi⟩ := Option.isSome_iff_exists.1 hi
    obtain ⟨a, ha, rfl⟩ := (h id i).1 (mem_of_lookup hi)
    exact List.mem_map_of_mem (List.mem_of_getElem? ha)
  · intro hid
    obtain ⟨a, ha, rfl⟩ := List.mem_map.1 hid
    obtain ⟨i, hi⟩ := List.mem_iff_getElem?.1 ha
    exact Option.isSome_iff_exists.2 (exists_lookup_of_mem ((h a.expr i).2 ⟨a, hi, rfl⟩))

/-- If no expression is listed twice, an index leads back to the expression that has it. -/
theorem Indexed.indexOf?_eq_some_iff (h : table.Indexed)
    (hnodup : (table.entries.map (·.expr)).Nodup) :
    table.indexOf? id = some i ↔ ∃ a, table.get? i = some a ∧ a.expr = id := by
  rw [← h id i]
  refine lookup_eq_some_iff_mem fun k v w hv hw => ?_
  obtain ⟨a, ha, rfl⟩ := (h k v).1 hv
  obtain ⟨b, hb, hsame⟩ := (h _ w).1 hw
  -- both places list the same expression, so that they are one
  have hv' : (table.entries.map (·.expr))[v]? = some a.expr := by
    rw [List.getElem?_map]
    exact congrArg (Option.map (·.expr)) ha
  have hw' : (table.entries.map (·.expr))[w]? = some a.expr := by
    rw [List.getElem?_map, ← hsame]
    exact congrArg (Option.map (·.expr)) hb
  exact (List.getElem?_inj (List.getElem?_eq_some_iff.1 hv').1 hnodup).1 (hv'.trans hw'.symm)

end ActionTable

namespace Tree

mutual

/-- The actions in a tree, each before those inside it, with a number of labels in scope. -/
def actions (rule : Nat) (scope : List String) : Tree → List HoistedAction
  | leaf _ _ => []
  | wrap id w inner =>
    (match w with
      | .action code => [⟨id, rule, code, scope ++ inner.innerLabels⟩]
      | _ => []) ++ actions rule scope inner
  | group _ .sequence items => actionsInSequence rule scope items
  | group _ .choice items => actionsInChoice rule scope items

/-- The actions in the elements of a sequence.  Each element adds its label to the scope of the
next. -/
def actionsInSequence (rule : Nat) (scope : List String) : List Tree → List HoistedAction
  | [] => []
  | t :: ts => actions rule scope t ++ actionsInSequence rule (scope ++ t.label?.toList) ts

/-- The actions in the alternatives of a choice, all in one scope. -/
def actionsInChoice (rule : Nat) (scope : List String) : List Tree → List HoistedAction
  | [] => []
  | t :: ts => actions rule scope t ++ actionsInChoice rule scope ts

end

theorem filterMap_label?_cons (t : Tree) (ts : List Tree) :
    (t :: ts).filterMap label? = t.label?.toList ++ ts.filterMap label? := by
  rw [List.filterMap_cons]
  cases t.label? <;> rfl

mutual

/-- A visit adds the actions of its tree, with the labels in scope at its start, and leaves the
scope as it was. -/
theorem hoist_eq (c : ActionCollector) (t : Tree) :
    t.hoist c = { c with table := c.table.addAll (t.actions c.rule c.scope) } := by
  cases t with
  | leaf id l => rfl
  | wrap id w inner =>
      cases w with
      | action code =>
          rw [hoist, hoist_eq, ActionCollector.hoist, actions, ActionTable.addAll_append]
          rfl
      | _ => simp only [hoist, hoist_eq c inner, actions, List.nil_append]
  | group id k items =>
      cases k with
      | sequence =>
          rw [hoist, hoistElements_eq, ActionCollector.truncate, actions]
          simp
      | choice => rw [hoist, hoistAlternatives_eq, actions]

/-- After the elements of a sequence their labels are in scope, above those that were there. -/
theorem hoistElements_eq (c : ActionCollector) (ts : List Tree) :
    hoistElements c ts =
      ⟨c.rule, c.scope ++ ts.filterMap label?,
        c.table.addAll (actionsInSequence c.rule c.scope ts)⟩ := by
  cases ts with
  | nil => simp [hoistElements, actionsInSequence, ActionTable.addAll]
  | cons t ts =>
      rw [hoistElements, hoistElements_eq, hoist_eq, ActionCollector.push, actionsInSequence,
        ActionTable.addAll_append, filterMap_label?_cons, List.append_assoc]

theorem hoistAlternatives_eq (c : ActionCollector) (ts : List Tree) :
    hoistAlternatives c ts =
      { c with table := c.table.addAll (actionsInChoice c.rule c.scope ts) } := by
  cases ts with
  | nil => rfl
  | cons t ts =>
      rw [hoistAlternatives, hoistAlternatives_eq, hoist_eq, actionsInChoice,
        ActionTable.addAll_append]

end

end Tree

namespace Grammar

/-- The actions of a rule. -/
def actionsOf (g : Grammar) (rule : Nat) : List HoistedAction :=
  (g.body rule).actions rule (((g.rule? rule).map (·.params.map (·.name))).getD [])

/-- Rule by rule, whatever the scope of the rule before has been. -/
theorem table_foldl_hoistRule (g : Grammar) (c : ActionCollector) (rules : List Nat) :
    (rules.foldl g.hoistRule c).table = c.table.addAll (rules.flatMap g.actionsOf) := by
  induction rules generalizing c with
  | nil => rfl
  | cons r rules ih =>
      rw [List.foldl_cons, ih, hoistRule, Tree.hoist_eq, List.flatMap_cons,
        ActionTable.addAll_append]
      rfl

theorem actions_eq (g : Grammar) :
    g.actions = ActionTable.empty.addAll (g.ruleIds.flatMap g.actionsOf) :=
  g.table_foldl_hoistRule ⟨0, [], .empty⟩ g.ruleIds

theorem entries_actions (g : Grammar) :
    g.actions.entries = g.ruleIds.flatMap g.actionsOf := by
  rw [actions_eq, ActionTable.entries_addAll]
  rfl

theorem indexed_actions (g : Grammar) : g.actions.Indexed := by
  rw [actions_eq]
  exact ActionTable.indexed_empty.addAll _

end Grammar

end Packrat
