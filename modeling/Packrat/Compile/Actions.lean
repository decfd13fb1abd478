import Packrat.Grammar.Tree

/-!
# Hoisted actions

The code of an action becomes a function of its own, whose parameters are the labels in its scope:
the parameters of the rule, then the labels of the elements before it in the sequences around it,
outermost first, and last the labels inside the action itself.  A visit to an expression keeps the
scope as a stack, to which the elements of a sequence push their labels and which is cut back after
the last of them.
-/

namespace Packrat

/-- An action as a function of its own. -/
structure HoistedAction where
  /-- The action expression. -/
  expr : Nat
  /-- The rule that it belongs to. -/
  rule : Nat
  code : String
  params : List String
  deriving DecidableEq, Repr

/-- The hoisted actions of a grammar by index, and the index of each action expression. -/
structure ActionTable where
  entries : List HoistedAction
  byExpr : List (Nat × Nat)
  deriving DecidableEq, Repr

namespace ActionTable

def empty : ActionTable := ⟨[], []⟩

/-- The number of actions. -/
def size (table : ActionTable) : Nat :=
  table.entries.length

/-- The action with an index. -/
def get? (table : ActionTable) (index : Nat) : Option HoistedAction :=
  table.entries[index]?

/-- The index of an action expression.  If it occurs several times the last counts. -/
def indexOf? (table : ActionTable) (id : Nat) : Option Nat :=
  table.byExpr.lookup id

/-- Lists an action last. -/
def add (table : ActionTable) (a : HoistedAction) : ActionTable :=
  ⟨table.entries ++ [a], (a.expr, table.size) :: table.byExpr⟩

end ActionTable

/-- The state of a visit: the rule that is visited, the labels in scope and the actions so far. -/
structure ActionCollector where
  rule : Nat
  scope : List String
  table : ActionTable

namespace ActionCollector

/-- Adds an action with some labels after those in scope. -/
def hoist (c : ActionCollector) (id : Nat) (code : String) (labels : List String) :
    ActionCollector :=
  { c with table := c.table.add ⟨id, c.rule, code, c.scope ++ labels⟩ }

/-- Pushes the label of an expression that has one. -/
def push (c : ActionCollector) (label : Option String) : ActionCollector :=
  { c with scope := c.scope ++ label.toList }

/-- Cuts the scope back to a number of labels. -/
def truncate (c : ActionCollector) (mark : Nat) : ActionCollector :=
  { c with scope := c.scope.take mark }

end ActionCollector

namespace Tree

/-- The label that an expression adds to the scope of what follows it in a sequence. -/
def label? : Tree → Option String
  | wrap _ (.labeled label) _ => some label
  | leaf _ (.labeledParam label _) => some label
  | _ => none

/-- The labels that an action sees of the expression that it transforms. -/
def innerLabels : Tree → List String
  | group _ .sequence items => items.filterMap label?
  | t => t.label?.toList

mutual

/-- Hoists the actions in a tree, each before those inside it. -/
def hoist (c : ActionCollector) : Tree → ActionCollector
  | leaf _ _ => c
  | wrap id (.action code) inner => inner.hoist (c.hoist id code inner.innerLabels)
  | wrap _ _ inner => inner.hoist c
  | group _ .sequence items => (hoistElements c items).truncate c.scope.length
  | group _ .choice items => hoistAlternatives c items

/-- Hoists the actions in the elements of a sequence, each of which pushes its label for those that
follow. -/
def hoistElements (c : ActionCollector) : List Tree → ActionCollector
  | [] => c
  | t :: ts => hoistElements ((t.hoist c).push t.label?) ts

/-- Hoists the actions in the alternatives of a choice. -/
def hoistAlternatives (c : ActionCollector) : List Tree → ActionCollector
  | [] => c
  | t :: ts => hoistAlternatives (t.hoist c) ts

end

end Tree

/-- Hoists the actions of a rule, with its parameters in scope. -/
def Grammar.hoistRule (g : Grammar) (c : ActionCollector) (rule : Nat) : ActionCollector :=
  let params := ((g.rule? rule).map (·.params.map (·.name))).getD []
  (g.body rule).hoist { c with rule := rule, scope := params }

/-- The actions of all rules in the order of declaration. -/
def Grammar.actions (g : Grammar) : ActionTable :=
  (g.ruleIds.foldl g.hoistRule ⟨0, [], .empty⟩).table

end Packrat
