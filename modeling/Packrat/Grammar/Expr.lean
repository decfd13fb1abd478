import Packrat.CharClass.Basic

/-!
# Parsing expressions

Expressions come in three shapes.  A leaf has no inner expression, a wrapper has one, and a group
has a list of them.  Expressions are numbered in the order of construction and rules in the order of
declaration; inner expressions are named by number, so that one expression can belong to several
others.  A reference to a rule is a leaf; `τ` is what it says about the rule that it leads
to, which is nothing until the grammar is complete.
-/

namespace Packrat

/-- An expression as it is named in print. -/
def exprName (id : Nat) : String :=
  s!"expr#{id}"

/-- A rule as it is named in print beside its own name. -/
def ruleName (id : Nat) : String :=
  s!"rule#{id}"

/-- The value that a reference gives to a parameter of its rule. -/
inductive Argument where
  | bool (value : Bool)
  | int (value : Int)
  | text (value : String)
  /-- A by-reference parameter of the rule that the reference stands in. -/
  | ref (param : String)
  deriving DecidableEq, Repr

/-- A reference to a rule by name, with the values of its parameters. -/
structure Call where
  name : String
  args : List (String × Argument)
  deriving DecidableEq, Repr

/-- The kinds of expressions. -/
inductive Kind where
  | literal | charClass | any
  | sequence | choice
  | labeled | picked | text | named | action
  | simpleAnd | simpleNot
  | semanticAnd | semanticNot | parameterAnd | parameterNot
  | labeledParam | ruleRef
  | optional | zeroOrMore | oneOrMore
  deriving DecidableEq, Repr

namespace Kind

/-- A kind as it is named in print. -/
def name : Kind → String
  | literal => "literal"
  | charClass => "class"
  | any => "any"
  | sequence => "sequence"
  | choice => "choice"
  | labeled => "labeled"
  | picked => "picked"
  | text => "text"
  | named => "named"
  | action => "action"
  | simpleAnd => "simple_and"
  | simpleNot => "simple_not"
  | semanticAnd => "semantic_and"
  | semanticNot => "semantic_not"
  | parameterAnd => "parameter_and"
  | parameterNot => "parameter_not"
  | labeledParam => "labeled_param"
  | ruleRef => "rule_ref"
  | optional => "optional"
  | zeroOrMore => "zero_or_more"
  | oneOrMore => "one_or_more"

end Kind

/-- An expression without inner expressions. -/
inductive Leaf (τ : Type) where
  | literal (value : String) (ignoreCase : Bool)
  | charClass (cls : CharClass)
  /-- Any single character. -/
  | any
  /-- A condition in the language of the actions, or its negation. -/
  | semanticAnd (code : String)
  | semanticNot (code : String)
  /-- A condition on a parameter of the rule, or its negation. -/
  | parameterAnd (param : String)
  | parameterNot (param : String)
  /-- Gives a label to the value of a parameter. -/
  | labeledParam (label param : String)
  | ruleRef (call : Call) (target : τ)
  deriving DecidableEq, Repr

namespace Leaf

variable {τ : Type}

def kind : Leaf τ → Kind
  | literal .. => .literal
  | charClass _ => .charClass
  | any => .any
  | semanticAnd _ => .semanticAnd
  | semanticNot _ => .semanticNot
  | parameterAnd _ => .parameterAnd
  | parameterNot _ => .parameterNot
  | labeledParam .. => .labeledParam
  | ruleRef .. => .ruleRef

/-- The rule that a reference leads to. -/
def target? : Leaf τ → Option τ
  | ruleRef _ target => some target
  | _ => none

/-- The reference to a rule that a leaf is. -/
def call? : Leaf τ → Option Call
  | ruleRef call _ => some call
  | _ => none

/-- Replaces what a reference says about its rule. -/
def retarget {σ : Type} (f : Call → σ) : Leaf τ → Leaf σ
  | literal value ignoreCase => literal value ignoreCase
  | charClass cls => charClass cls
  | any => any
  | semanticAnd code => semanticAnd code
  | semanticNot code => semanticNot code
  | parameterAnd param => parameterAnd param
  | parameterNot param => parameterNot param
  | labeledParam label param => labeledParam label param
  | ruleRef call _ => ruleRef call (f call)

@[simp] theorem call?_retarget {σ : Type} (f : Call → σ) (l : Leaf τ) :
    (l.retarget f).call? = l.call? := by
  cases l <;> rfl

@[simp] theorem target?_retarget {σ : Type} (f : Call → σ) (l : Leaf τ) :
    (l.retarget f).target? = l.call?.map f := by
  cases l <;> rfl

end Leaf

/-- What a wrapper does to its inner expression. -/
inductive Wrapper where
  /-- Gives a label to its result. -/
  | labeled (label : String)
  /-- Makes its result that of the enclosing sequence. -/
  | picked
  /-- Gives the matched text instead of the result. -/
  | text
  /-- Gives it a display name. -/
  | named (name : String)
  /-- Transforms its result by code. -/
  | action (code : String)
  /-- Succeeds where it would match. -/
  | simpleAnd
  /-- Succeeds where it would not match. -/
  | simpleNot
  | optional
  | zeroOrMore
  | oneOrMore
  deriving DecidableEq, Repr

def Wrapper.kind : Wrapper → Kind
  | labeled _ => .labeled
  | picked => .picked
  | text => .text
  | named _ => .named
  | action _ => .action
  | simpleAnd => .simpleAnd
  | simpleNot => .simpleNot
  | optional => .optional
  | zeroOrMore => .zeroOrMore
  | oneOrMore => .oneOrMore

/-- How the expressions of a group belong together. -/
inductive Grouping where
  /-- All match, one after another. -/
  | sequence
  /-- The first that matches. -/
  | choice
  deriving DecidableEq, Repr

def Grouping.kind : Grouping → Kind
  | sequence => .sequence
  | choice => .choice

/-- An expression whose inner expressions are given by number. -/
inductive Expr (τ : Type) where
  | leaf (l : Leaf τ)
  | wrap (w : Wrapper) (inner : Nat)
  | group (g : Grouping) (items : List Nat)
  deriving DecidableEq, Repr

namespace Expr

variable {τ : Type}

def kind : Expr τ → Kind
  | leaf l => l.kind
  | wrap w _ => w.kind
  | group g _ => g.kind

/-- The inner expressions in source order.  The rule that a reference leads to is not one. -/
def children : Expr τ → List Nat
  | leaf _ => []
  | wrap _ inner => [inner]
  | group _ items => items

/-- The reference to a rule that an expression is. -/
def call? : Expr τ → Option Call
  | leaf l => l.call?
  | _ => none

/-- The rule that a reference leads to. -/
def target? : Expr τ → Option τ
  | leaf l => l.target?
  | _ => none

/-- Replaces what a reference says about its rule. -/
def retarget {σ : Type} (f : Call → σ) : Expr τ → Expr σ
  | leaf l => leaf (l.retarget f)
  | wrap w inner => wrap w inner
  | group g items => group g items

@[simp] theorem children_retarget {σ : Type} (f : Call → σ) (e : Expr τ) :
    (e.retarget f).children = e.children := by
  cases e <;> rfl

@[simp] theorem call?_retarget {σ : Type} (f : Call → σ) (e : Expr τ) :
    (e.retarget f).call? = e.call? := by
  cases e <;> simp [retarget, call?]

@[simp] theorem target?_retarget {σ : Type} (f : Call → σ) (e : Expr τ) :
    (e.retarget f).target? = e.call?.map f := by
  cases e <;> simp [retarget, call?, target?]

end Expr

end Packrat
