import Packrat.CharClass.Merge
import Packrat.Text.CaseMap

/-!
# Reduced classes

A class is tested in two ways: single characters against a set, and longer ranges by a bracket
expression.  Short ranges are unrolled into the set, and so are longer ones while the set is small.
A class that is to be small rather than fast keeps all its ranges.
-/

namespace Packrat

open Text

/-- How a class is to be reduced. -/
structure ReduceOptions where
  ignoreCase : Bool
  /-- Prefer short code to fast tests. -/
  small : Bool

/-- The characters of a class that are tested one by one, in the order they were unrolled, and the
ranges that are tested as such. -/
structure ReducedClass where
  set : Text
  ranges : List CharRange
  deriving DecidableEq, Repr

namespace ReducedClass

/-- A set of at least this many characters takes in no further range that is not short. -/
def setLimit : Nat := 50

/-- Ranges whose ends are closer than this are always unrolled. -/
def shortSpan : Nat := 3

def empty : ReducedClass := ⟨[], []⟩

/-- Adds a character to a set that does not hold it yet. -/
def insertNew (set : Text) (c : Char) : Text :=
  if set.contains c then set else set ++ [c]

/-- The characters that stand for `c` in the set: itself, or its two cases if case is ignored.  A
case form of several characters is left out. -/
def setForms (ignoreCase : Bool) (c : Char) : Text :=
  if ignoreCase then (single? (upperChar c)).toList ++ (single? (lowerChar c)).toList else [c]

/-- Adds all members of a range to a set. -/
def unroll (ignoreCase : Bool) (set : Text) (r : CharRange) : Text :=
  r.toList.foldl (fun set c => (setForms ignoreCase c).foldl insertNew set) set

/-- Unrolls a range, or keeps it. -/
def addRange (ignoreCase : Bool) (reduced : ReducedClass) (r : CharRange) : ReducedClass :=
  if r.span < shortSpan ∨ reduced.set.length + r.span < setLimit then
    { reduced with set := unroll ignoreCase reduced.set r }
  else { reduced with ranges := reduced.ranges ++ [r] }

/-- Reduces the ranges of a class. -/
def ofRanges (options : ReduceOptions) (ranges : List CharRange) : ReducedClass :=
  let merged := CharRange.merge ranges
  if options.small then ⟨[], merged⟩
  else merged.foldl (addRange options.ignoreCase) empty

end ReducedClass

end Packrat
