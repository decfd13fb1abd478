import Packrat.Order.Ascending
import Packrat.Plan.Fault

/-!
# Furthest failures

Of all failures to match only those at the furthest position matter: a parser that got further has
recovered from the others.  The tracker ignores what lies before the furthest position and forgets
what it knew when a failure lies beyond.
-/

namespace Packrat

/-- The furthest position at which a match failed, with what was expected there. -/
structure Tracker where
  furthest : Nat
  /-- The indices of the expectations, ascending. -/
  expected : List Nat
  /-- Whether the end of input was expected. -/
  expectsEnd : Bool
  deriving DecidableEq, Repr

namespace Tracker

def empty : Tracker := ⟨0, [], false⟩

/-- The tracker as it is when a failure at a position is to be recorded: a position further than all
before starts afresh. -/
def reach (t : Tracker) (pos : Nat) : Tracker :=
  if t.furthest < pos then ⟨pos, [], false⟩ else t

/-- The number of bits in a set of indices is below this. -/
def sizeLimit : Nat := UInt64.size

/-- Adds an index to those that are expected.  Their set takes one bit more than the index says. -/
def expect (t : Tracker) (index : Nat) : Except Fault Tracker :=
  if index + 1 < sizeLimit then .ok { t with expected := insertAscending index t.expected }
  else .error (.badIndex index)

/-- Records that an expectation failed at a position. -/
def fail (t : Tracker) (pos index : Nat) : Except Fault Tracker :=
  let t := t.reach pos
  if pos = t.furthest then t.expect index else .ok t

/-- Records that the end of input was expected at a position. -/
def failEnd (t : Tracker) (pos : Nat) : Tracker :=
  let t := t.reach pos
  if pos = t.furthest then { t with expectsEnd := true } else t

/-- A failure of a rule that does not report failures.  It leaves no trace. -/
def failSilently (t : Tracker) : Tracker := t

theorem reach_of_le {t : Tracker} {pos : Nat} (h : pos ≤ t.furthest) : t.reach pos = t :=
  if_neg (Nat.not_lt.2 h)

end Tracker

end Packrat
