import Packrat.CharClass.Bracket

/-!
# Expectations

What was expected where a match failed, as it is described to the user.
-/

namespace Packrat

/-- A description of what would have matched. -/
inductive Expectation where
  | literal (value : String) (ignoreCase : Bool)
  | charClass (cls : CharClass)
  | any
  /-- The display name of a named expression. -/
  | other (name : String)
  deriving DecidableEq, Repr

/-- An expectation in words: a literal is quoted, a class is in brackets, and a display name is
shown as it is. -/
def Expectation.describe : Expectation → String
  | literal value ignoreCase => quote value ++ if ignoreCase then "i" else ""
  | charClass cls => .ofList cls.written
  | any => "any character"
  | other name => name

end Packrat
