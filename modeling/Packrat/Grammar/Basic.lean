import Packrat.Grammar.Expr
import Packrat.Source.Span

/-!
# Grammars

A grammar is a list of rules over a list of expressions.  Every inner expression has a smaller
number than the expression it belongs to, every body is among the expressions, every reference leads
to a rule, and no two rules share a name.
-/

namespace Packrat

/-- A parameter of a rule. -/
structure Param where
  name : String
  /-- Whether the callee gets a cell that it shares with its caller, rather than a copy. -/
  byReference : Bool
  deriving DecidableEq, Repr

/-- A named production. -/
structure Rule where
  name : String
  params : List Param
  body : Nat
  span : Span
  deriving DecidableEq, Repr

/-- The names of the by-reference parameters in the order of declaration. -/
def Rule.refParams (rule : Rule) : List String :=
  (rule.params.filter (·.byReference)).map (·.name)

/-- An expression with its place in the source. -/
structure Node (τ : Type) where
  expr : Expr τ
  span : Span
  deriving DecidableEq, Repr

/-- Replaces what a reference says about its rule. -/
def Node.retarget {τ σ : Type} (f : Call → σ) (n : Node τ) : Node σ :=
  ⟨n.expr.retarget f, n.span⟩

/-- Every inner expression has a smaller number than the expression it belongs to. -/
def ChildrenPrecede {τ : Type} (exprs : List (Node τ)) : Prop :=
  ∀ (i : Nat) (n : Node τ), exprs[i]? = some n → ∀ c ∈ n.expr.children, c < i

/-- Every body is among the first `count` expressions. -/
def BodiesBelow (rules : List Rule) (count : Nat) : Prop :=
  ∀ r ∈ rules, r.body < count

/-- A complete grammar. -/
structure Grammar where
  rules : List Rule
  exprs : List (Node Nat)
  /-- The rules that a parse may start with. -/
  start : List Nat
  /-- The rules whose results may be drawn one by one. -/
  stream : List Nat
  children_precede : ChildrenPrecede exprs
  bodies_below : BodiesBelow rules exprs.length
  targets_below : ∀ n ∈ exprs, ∀ t, n.expr.target? = some t → t < rules.length
  names_nodup : (rules.map (·.name)).Nodup
  entries_below : ∀ r ∈ start ++ stream, r < rules.length

namespace Grammar

/-- The rule with a number. -/
def rule? (g : Grammar) (id : Nat) : Option Rule :=
  g.rules[id]?

/-- The expression with a number, and its place in the source. -/
def node? (g : Grammar) (id : Nat) : Option (Node Nat) :=
  g.exprs[id]?

/-- The place of an expression in the source. -/
def exprSpan (g : Grammar) (id : Nat) : Span :=
  ((g.node? id).map (·.span)).getD .unknown

/-- The numbers of all rules. -/
def ruleIds (g : Grammar) : List Nat :=
  List.range g.rules.length

/-- The numbers of all expressions. -/
def exprIds (g : Grammar) : List Nat :=
  List.range g.exprs.length

/-- The name of the rule with a number. -/
def nameOf (g : Grammar) (id : Nat) : String :=
  ((g.rule? id).map (·.name)).getD ""

/-- The rule with a name. -/
def lookup (g : Grammar) (name : String) : Option Nat :=
  g.rules.findIdx? (·.name == name)

/-- All rules that a parse may enter by, start rules first.  A rule may occur twice. -/
def entries (g : Grammar) : List Nat :=
  g.start ++ g.stream

end Grammar

end Packrat
