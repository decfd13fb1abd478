import Packrat.Analysis.Event
import Packrat.Grammar.Tree

/-!
# Expressions that always match

An expression always matches if it succeeds on any input, perhaps without consuming any.  The
analysis errs on one side: an expression that it does not mark may still always match.  Any single
character counts as always matching although it fails at the end of input.

Rules may refer to each other in circles.  Entering a rule, and passing the result of an inner
expression on, take one level each.  Where no level is left the answer is that the expression may
fail.  The answer for a rule is kept once it is found; one that was cut off is replaced when the
visit that led to it ends.
-/

namespace Packrat

/-- Whether a leaf that is not a reference always matches: the empty literal, the inverted class
without items, and any character do. -/
def Leaf.alwaysMatches : Leaf Nat → Bool
  | literal value _ => value.isEmpty
  | charClass cls => cls.parts.isEmpty && cls.inverted
  | any => true
  | _ => false

/-- How the answer for a wrapper follows from that for its inner expression. -/
inductive Outcome where
  | same
  | always
  | never
  deriving DecidableEq, Repr

def Wrapper.outcome : Wrapper → Outcome
  | labeled _ | picked | text | named _ | simpleAnd | simpleNot => .same
  | action _ | optional | zeroOrMore => .always
  | oneOrMore => .never

/-- The answer for a group: a sequence needs all its items and a choice needs one. -/
def Grouping.combine : Grouping → List Bool → Bool
  | sequence, answers => answers.all id
  | choice, answers => answers.any id

/-- Which expressions and rules of a grammar always match. -/
structure AlwaysMatch where
  expr : Nat → Bool
  rule : Nat → Bool

namespace AlwaysMatch

/-- A path through the grammar is followed for fewer levels than this. -/
def recursionLimit : Nat := 6

/-- The state of the analysis: the answers for expressions, those for rules where there is one, and
what happened. -/
structure Pass where
  exprs : Nat → Bool
  memo : Nat → Option Bool
  events : List AnalysisEvent

namespace Pass

def empty : Pass := ⟨fun _ => false, fun _ => none, []⟩

/-- Notes the answer for an expression. -/
def setExpr (p : Pass) (id : Nat) (answer : Bool) : Pass :=
  { p with exprs := fun i => if i = id then answer else p.exprs i }

/-- Keeps the answer for a rule. -/
def setRule (p : Pass) (rule : Nat) (answer : Bool) : Pass :=
  { p with
    memo := fun r => if r = rule then some answer else p.memo r
    events := p.events ++ [.alwaysMatch rule answer] }

/-- Tells that a rule was cut off. -/
def cutOff (p : Pass) (rule : Nat) : Pass :=
  { p with events := p.events ++ [.cutoff rule] }

end Pass

mutual

/-- Visits an expression and those inside it on the same level.  `defer` visits an inner expression
one level down, and `enter` visits a rule. -/
def visitWith (defer : Tree → Pass → Bool × Pass) (enter : Nat → Pass → Bool × Pass) :
    Tree → Pass → Bool × Pass
  | .leaf id (.ruleRef _ target), p =>
    let (answer, p) := enter target p
    (answer, p.setExpr id answer)
  | .leaf id l, p => (l.alwaysMatches, p.setExpr id l.alwaysMatches)
  | .wrap id w inner, p =>
    match w.outcome with
    | .same =>
      let (answer, p) := defer inner p
      (answer, p.setExpr id answer)
    | .always => (true, (visitWith defer enter inner p).2.setExpr id true)
    | .never => (false, (visitWith defer enter inner p).2.setExpr id false)
  | .group id g items, p =>
    let (answers, p) := visitEach defer enter items p
    (g.combine answers, p.setExpr id (g.combine answers))

/-- Visits expressions one after another, each of them whatever the others answer. -/
def visitEach (defer : Tree → Pass → Bool × Pass) (enter : Nat → Pass → Bool × Pass) :
    List Tree → Pass → List Bool × Pass
  | [], p => ([], p)
  | t :: ts, p =>
    let (answer, p) := visitWith defer enter t p
    let (answers, p) := visitEach defer enter ts p
    (answer :: answers, p)

end

/-- Gives the answer that is kept for a rule, or finds one and keeps it. -/
def memoize (find : Nat → Pass → Bool × Pass) (rule : Nat) (p : Pass) : Bool × Pass :=
  match p.memo rule with
  | some answer => (answer, p)
  | none =>
    let (answer, p) := find rule p
    (answer, p.setRule rule answer)

/-- Answers for a rule without a look at its body. -/
def giveUp (rule : Nat) (p : Pass) : Bool × Pass :=
  (false, p.cutOff rule)

/-- Visits an expression with some levels left.  Inner expressions and the bodies of rules get one
less. -/
def visit (body : Nat → Tree) : Nat → Tree → Pass → Bool × Pass
  | 0 => visitWith (fun _ p => (false, p)) (memoize giveUp)
  | levels + 1 =>
    visitWith (visit body levels) (memoize fun rule => visit body levels (body rule))

/-- Visits a rule with some levels left.  Its body gets one less. -/
def enter (body : Nat → Tree) : Nat → Nat → Pass → Bool × Pass
  | 0 => memoize giveUp
  | levels + 1 => memoize fun rule => visit body levels (body rule)

/-- Visits rules one after another, each with all levels. -/
def visitRules (body : Nat → Tree) : List Nat → Pass → Pass
  | [], p => p
  | r :: rs, p => visitRules body rs (enter body (recursionLimit - 1) r p).2

/-- The answers of a finished analysis.  A rule without an answer may fail. -/
def ofPass (p : Pass) : AlwaysMatch :=
  ⟨p.exprs, fun r => p.memo r == some true⟩

end AlwaysMatch

/-- The finished analysis of all rules in the order of declaration. -/
def Grammar.alwaysMatchPass (g : Grammar) : AlwaysMatch.Pass :=
  let bodies := g.bodies
  AlwaysMatch.visitRules (fun r => bodies[r]?.getD default) g.ruleIds .empty

/-- Which expressions and rules always match. -/
def Grammar.alwaysMatch (g : Grammar) : AlwaysMatch :=
  .ofPass g.alwaysMatchPass

end Packrat
