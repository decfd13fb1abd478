import Packrat.Analysis.AlwaysMatch

/-!
# Rules that report failures

A failure to match need only be recorded if it can reach the user, that is, if an entry of the
grammar fails with it.  Lookahead, display names, optional and repeated expressions mask the
failures inside them.  Rules that always match pass no failure on.  The rules that report failures
are those that can be reached from an entry by references that are not masked.
-/

namespace Packrat

/-- Whether a wrapper hides the failures inside it. -/
def Wrapper.masksFailure : Wrapper → Bool
  | named _ | simpleAnd | simpleNot | optional | zeroOrMore => true
  | labeled _ | picked | text | action _ | oneOrMore => false

/-- A reference to the rule `target` by the expression `via`. -/
structure Reference where
  target : Nat
  via : Nat
  deriving DecidableEq, Repr

mutual

/-- The references in a tree whose failures are not masked, in source order. -/
def Tree.observable : Tree → List Reference
  | .leaf id (.ruleRef _ target) => [⟨target, id⟩]
  | .leaf _ _ => []
  | .wrap _ w inner => if w.masksFailure then [] else inner.observable
  | .group _ _ items => Tree.observableAll items

/-- The references in some trees whose failures are not masked. -/
def Tree.observableAll : List Tree → List Reference
  | [] => []
  | t :: ts => t.observable ++ Tree.observableAll ts

end

/-- The references whose failures a rule observes, the last in source order first. -/
def Grammar.references (g : Grammar) (rule : Nat) : List Reference :=
  (g.body rule).observable.reverse

/-- Marks that spread along references: rules whose references have been followed, marked rules that
wait for it, and what happened. -/
structure Spread where
  closed : List Nat
  waiting : List Nat
  events : List AnalysisEvent

namespace Spread

def empty : Spread := ⟨[], [], []⟩

/-- All rules that are marked, in the order in which they were. -/
def marked (s : Spread) : List Nat :=
  s.closed ++ s.waiting

/-- Marks a rule for a reason, unless it is marked. -/
def mark (s : Spread) (rule : Nat) (reason : AnalysisEvent) : Spread :=
  if rule ∈ s.marked then s
  else { s with waiting := s.waiting ++ [rule], events := s.events ++ [reason] }

/-- Marks the entries. -/
def seed (entries : List Nat) : Spread :=
  entries.foldl (fun s r => s.mark r (.seed r)) empty

/-- Marks what a rule refers to. -/
def follow (s : Spread) (spanOf : Nat → Span) (rule : Nat) (references : List Reference) : Spread :=
  references.foldl (fun s ref => s.mark ref.target (.reports ref.target rule (spanOf ref.via))) s

/-- Takes the rule that waits longest.  A rule that always matches has nothing to pass on. -/
def step (g : Grammar) (always : AlwaysMatch) (s : Spread) : Spread :=
  match s.waiting with
  | [] => s
  | rule :: rest =>
    let s := { s with closed := s.closed ++ [rule], waiting := rest }
    if always.rule rule then s else s.follow g.exprSpan rule (g.references rule)

/-- Takes as many rules as asked for. -/
def run (g : Grammar) (always : AlwaysMatch) : Nat → Spread → Spread
  | 0, s => s
  | rounds + 1, s => run g always rounds (s.step g always)

end Spread

/-- The spread of marks from the entries to the end.  No rule waits twice, so there are no more
rounds than rules. -/
def Grammar.failureSpread (g : Grammar) (always : AlwaysMatch) : Spread :=
  Spread.run g always g.rules.length (Spread.seed g.entries)

/-- Which rules report failures. -/
structure FailureReports where
  rule : Nat → Bool

/-- The rules that report failures, given which rules always match. -/
def Grammar.failureReports (g : Grammar) (always : AlwaysMatch) : FailureReports :=
  let marked := (g.failureSpread always).marked
  ⟨fun r => decide (r ∈ marked)⟩

end Packrat
