import Packrat.Plan.Basic
import Packrat.Text.CaseMap

/-!
# Plans of literals

A literal of one code unit whose case matters is compared with the unit at the cursor.  Any other
literal loads as much input as it is wide and compares that.
-/

namespace Packrat

open Text

/-- The plan that matches a literal. -/
def MatchPlan.ofLiteral (value : String) (ignoreCase : Bool) (reg : Reg) : MatchPlan :=
  let width := Width.ofText value.toList
  match utf16 value.toList, ignoreCase with
  | [unit], false => ⟨reg, [], .codeAt unit, [.assign reg value, .advance width]⟩
  | units, _ =>
    { reg
      block := [if units.length = 1 then .loadChar reg else .loadSubstring reg width]
      cond :=
        if ignoreCase then .regEqLower reg (.ofList (lower value.toList)) else .regEq reg value
      onSuccess := [.advance width] }

end Packrat
