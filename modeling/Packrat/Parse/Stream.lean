import Packrat.Parse.Session

/-!
# Streams of results

A stream draws the results of a rule one at a time, each where the one before ended.  It ends when
the rule fails, when no input is left, and after a result that consumed nothing, which would come
again for ever.
-/

namespace Packrat

/-- A stream with the state of the rule that it draws from. -/
structure Stream (σ V R : Type) where
  session : Session V R
  rule : σ
  done : Bool

namespace Stream

variable {σ V R : Type}

/-- A stream from the cursor of a session on. -/
def start (session : Session V R) (rule : σ) : Stream σ V R :=
  ⟨session, rule, false⟩

/-- Draws the next result. -/
def next (draw : σ → Session V R → Except Fault (σ × Option V × Session V R)) (s : Stream σ V R) :
    Except Fault (Option V × Stream σ V R) :=
  if s.done || s.session.atEnd then .ok (none, { s with done := true })
  else do
    let (rule, result, session) ← draw s.rule s.session
    let done := result.isNone || session.pos == s.session.pos
    .ok (result, ⟨session, rule, done⟩)

end Stream

end Packrat
