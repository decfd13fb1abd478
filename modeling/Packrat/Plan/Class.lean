import Packrat.CharClass.Reduced
import Packrat.Plan.Basic

/-!
# Plans of character classes

A class with members beyond the Basic Multilingual Plane loads and steps over whole code points,
because one code unit would be half of a surrogate pair.
-/

namespace Packrat

namespace ReducedClass

/-- The tests of a reduced class: of the set and of the ranges, where they are not empty. -/
def tests (reduced : ReducedClass) (reg : Reg) (inverted ignoreCase : Bool) : List Cond :=
  (if reduced.set.isEmpty then [] else [.inSet reg (.ofList reduced.set) inverted]) ++
    (if reduced.ranges.isEmpty then [] else [.inRanges reg reduced.ranges inverted ignoreCase])

/-- The condition that a candidate belongs to the class.  A class that is not inverted holds what
either test accepts, an inverted class what both accept, and a class without any member left to test
matches nothing. -/
def cond (reduced : ReducedClass) (reg : Reg) (inverted ignoreCase : Bool) : Cond :=
  match reduced.tests reg inverted ignoreCase with
  | [] => .const false
  | test :: rest => rest.foldl (if inverted then .and else .or) test

end ReducedClass

/-- The plan that matches one character of a class.  Without items a class matches nothing, or any
character if it is inverted. -/
def MatchPlan.ofClass (cls : CharClass) (reg : Reg) (small : Bool) : MatchPlan :=
  if cls.parts.isEmpty then
    if cls.inverted then .any reg else .never reg
  else
    let reduced := ReducedClass.ofRanges ⟨cls.ignoreCase, small⟩ cls.ranges
    let cond := reduced.cond reg cls.inverted cls.ignoreCase
    if cls.ranges.any CharRange.isAstral then
      ⟨reg, [.loadCodePoint reg], cond, [.advancePast reg]⟩
    else ⟨reg, [.loadChar reg], cond, [.advance .one]⟩

end Packrat
