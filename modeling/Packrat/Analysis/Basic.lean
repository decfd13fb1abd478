import Packrat.Analysis.FailureReports

/-!
# The analysis of a grammar

The attributes of the rules: first whether they always match, then whether they report failures.
-/

namespace Packrat

/-- The attributes of a grammar. -/
structure Analysis where
  alwaysMatch : AlwaysMatch
  failureReports : FailureReports

namespace Grammar

/-- Runs all analyses. -/
def analyze (g : Grammar) : Analysis :=
  let always := g.alwaysMatch
  ⟨always, g.failureReports always⟩

/-- What the analyses did, in order. -/
def analysisEvents (g : Grammar) : List AnalysisEvent :=
  let pass := g.alwaysMatchPass
  pass.events ++ (g.failureSpread (.ofPass pass)).events

/-- The events of the analyses as text. -/
def analysisTrace (g : Grammar) : String :=
  .join (g.analysisEvents.map (·.render g))

end Grammar

end Packrat
