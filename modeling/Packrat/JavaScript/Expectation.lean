import Packrat.Expectation.Basic
import Packrat.JavaScript.Plan

/-!
# Expectations in JavaScript

Expectation `n` is declared as the variable `peg$cn`.
-/

namespace Packrat.JavaScript

/-- A character as a string of its own. -/
def charString (c : Char) : String :=
  quote (String.singleton c)

/-- An item of a class: a string, or a pair of strings for a range. -/
def classPart : ClassPart → String
  | .char c => charString c
  | .range first last => s!"[{charString first}, {charString last}]"

/-- The call that constructs the description of an expectation. -/
def expectation : Expectation → String
  | .literal value ignoreCase => s!"peg$literalExpectation({quote value}, {boolean ignoreCase})"
  | .charClass cls =>
    let parts := ", ".intercalate (cls.parts.map classPart)
    s!"peg$classExpectation([{parts}], {boolean cls.inverted}, {boolean cls.ignoreCase})"
  | .any => "peg$anyExpectation()"
  | .other name => s!"peg$otherExpectation({quote name})"

/-- The declaration of the expectation with an index. -/
def expectationDecl (index : Nat) (e : Expectation) : String :=
  s!"var peg$c{index} = {expectation e};"

end Packrat.JavaScript
