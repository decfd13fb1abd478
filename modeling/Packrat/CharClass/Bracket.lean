import Packrat.CharClass.Basic
import Packrat.Text.Escape

/-!
# Bracket expressions

The body of a bracket expression names its ranges one after another.  A single character is written
alone, two neighbours side by side, and longer ranges with a dash.
-/

namespace Packrat

open Text

/-- A range as it is written between brackets. -/
def CharRange.bracketed (r : CharRange) : Text :=
  match r.span with
  | 0 => escapeBracketed r.first
  | 1 => escapeBracketed r.first ++ escapeBracketed r.last
  | _ => escapeBracketed r.first ++ '-' :: escapeBracketed r.last

/-- The body of a bracket expression with the given ranges. -/
def bracketBody (ranges : List CharRange) : Text :=
  ranges.flatMap CharRange.bracketed

/-- An item of a class as its author writes it. -/
def ClassPart.written : ClassPart → Text
  | char c => escapeBracketed c
  | range first last => escapeBracketed first ++ '-' :: escapeBracketed last

/-- A class as its author writes it, with a trailing `i` if case is ignored. -/
def CharClass.written (cls : CharClass) : Text :=
  '[' :: (if cls.inverted then ['^'] else []) ++ cls.parts.flatMap ClassPart.written ++
    ']' :: (if cls.ignoreCase then ['i'] else [])

end Packrat
