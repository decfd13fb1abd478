import Packrat.CharClass.Basic
import Packrat.Order.StableSort

/-!
# Merged ranges

Ranges in any order become a list sorted by first character in which no two overlap or touch.
-/

namespace Packrat.CharRange

/-- A range with its last character moved to that of another, if that is later. -/
def extendTo (r other : CharRange) : CharRange :=
  if r.last.toNat ≤ other.last.toNat then { r with last := other.last } else r

/-- Absorbs into `top` every range at the head of the rest that overlaps or touches it, then goes on
with the first that does not. -/
def mergeFrom (top : CharRange) : List CharRange → List CharRange
  | [] => [top]
  | next :: rest =>
    if next.first.toNat ≤ top.last.toNat + 1 then mergeFrom (top.extendTo next) rest
    else top :: mergeFrom next rest

/-- Merges ranges that come sorted by first character. -/
def mergeSorted : List CharRange → List CharRange
  | [] => []
  | top :: rest => mergeFrom top rest

/-- Ranges sorted by first character; those with the same first character keep their order. -/
def sortByFirst (ranges : List CharRange) : List CharRange :=
  sortBy (fun a b => decide (a.first.toNat ≤ b.first.toNat)) ranges

/-- Sorts ranges and merges those that overlap or touch. -/
def merge (ranges : List CharRange) : List CharRange :=
  mergeSorted (sortByFirst ranges)

end Packrat.CharRange
