import Packrat.Grammar.Basic

/-!
# Events of an analysis

The analyses of a grammar tell how they come to their results.  Events can be shown as text for a
reader who wonders why a rule has an attribute.
-/

namespace Packrat

/-- What an analysis did. -/
inductive AnalysisEvent where
  /-- It settled whether a rule always matches. -/
  | alwaysMatch (rule : Nat) (result : Bool)
  /-- It came back to a rule too deep in the recursion to follow it. -/
  | cutoff (rule : Nat)
  /-- A rule reports failures because a parse may enter by it. -/
  | seed (rule : Nat)
  /-- A rule reports failures because `source`, which does, refers to it at a span. -/
  | reports (rule source : Nat) (span : Span)
  deriving DecidableEq, Repr

namespace AnalysisEvent

/-- A rule by name and number. -/
def showRule (g : Grammar) (rule : Nat) : String :=
  s!"{g.nameOf rule} ({ruleName rule})"

/-- The lines that tell an event. -/
def lines (g : Grammar) : AnalysisEvent → List String
  | alwaysMatch rule result =>
    let truth := if result then "true" else "false"
    [s!"[AlwaysMatch::visit_rule] {showRule g rule}", s!"| ==> always matches: {truth}"]
  | cutoff rule =>
    [s!"[AlwaysMatch::visit_rule] {showRule g rule}",
      "| ==> recursion bound reached; assuming it may fail"]
  | seed rule =>
    [s!"[ReportsFailure::seed] {showRule g rule}", "| ==> entry point reports failures"]
  | reports rule source span =>
    [s!"[ReportsFailure::propagate] {showRule g rule}",
      s!"| ==> referenced by {showRule g source} at {span.describe}",
      "|  |  now reports failures"]

/-- What follows every event. -/
def note : String :=
  "= note: this trace was output as a debugging aid because `cfg()`."

/-- The text of an event: its lines, the note, and an empty line. -/
def render (g : Grammar) (event : AnalysisEvent) : String :=
  .join ((event.lines g ++ [note, ""]).map (· ++ "\n"))

end AnalysisEvent

end Packrat
