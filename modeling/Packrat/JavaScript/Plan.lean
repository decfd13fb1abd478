import Packrat.CharClass.Bracket
import Packrat.Plan.Basic

/-!
# Plans in JavaScript

The printed code reads the string `input` at the cursor `peg$currPos`, which counts UTF-16 code
units.  A failed match leaves `peg$FAILED` in the result register.  Code of several lines is
indented by two spaces a level and does not end in a newline.
-/

namespace Packrat.JavaScript

/-- One level of indentation. -/
def indent : String := "  "

/-- A truth value. -/
def boolean (value : Bool) : String :=
  if value then "true" else "false"

/-- The flags of a regular expression over some ranges.  Escapes of surrogate pairs name one code
point only in unicode mode. -/
def regexFlags (ranges : List CharRange) (ignoreCase : Bool) : String :=
  (if ignoreCase then "i" else "") ++ (if ranges.any CharRange.isAstral then "u" else "")

/-- A condition as an expression. -/
def cond : Cond → String
  | .const value => boolean value
  | .notAtEnd => "peg$currPos < input.length"
  | .codeAt unit => s!"input.charCodeAt(peg$currPos) === {unit}"
  | .regEq reg value => s!"{reg.name} === {quote value}"
  | .regEqLower reg value => s!"{reg.name}.toLowerCase() === {quote value}"
  | .inSet reg set inverted =>
    let equality := if inverted then "===" else "!=="
    s!"{reg.name} && {quote set}.indexOf({reg.name}) {equality} -1"
  | .inRanges reg ranges inverted ignoreCase =>
    let caret := if inverted then "^" else ""
    let body := String.ofList (bracketBody ranges)
    s!"/^[{caret}{body}]/{regexFlags ranges ignoreCase}.test({reg.name})"
  | .and left right => s!"({cond left})&&({cond right})"
  | .or left right => s!"({cond left})||({cond right})"

/-- A statement. -/
def stmt : Stmt → String
  | .loadChar reg => s!"{reg.name} = input.charAt(peg$currPos);"
  | .loadCodePoint reg =>
    s!"{reg.name} = peg$currPos < input.length ? " ++
      "String.fromCodePoint(input.codePointAt(peg$currPos)) : \"\";"
  | .loadSubstring reg width => s!"{reg.name} = input.substr(peg$currPos, {width.units});"
  | .takeChar reg => s!"{reg.name} = input.charAt(peg$currPos++);"
  | .assign reg value => s!"{reg.name} = {quote value};"
  | .advance width =>
    if width.units = 1 then "peg$currPos++;" else s!"peg$currPos += {width.units};"
  | .advancePast reg => s!"peg$currPos += {reg.name}.length;"

/-- The lines of a plan.  Where the expectation of the plan has an index, a failure is recorded
under it. -/
def planLines (plan : MatchPlan) (expectation : Option Nat) : List String :=
  plan.block.map stmt ++
    s!"if ({cond plan.cond}) \x7b" ::
    plan.onSuccess.map (indent ++ stmt ·) ++
    "\x7d else \x7b" ::
    s!"{indent}{plan.reg.name} = peg$FAILED;" ::
    (expectation.map fun index => s!"{indent}peg$fail(peg$c{index});").toList ++
    ["\x7d"]

/-- The block that executes a plan. -/
def plan (plan : MatchPlan) (expectation : Option Nat) : String :=
  "\n".intercalate (planLines plan expectation)

end Packrat.JavaScript
