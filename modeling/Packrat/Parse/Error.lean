import Packrat.Expectation.Table
import Packrat.Parse.Tracker

/-!
# Parse errors

A failed parse is reported by the furthest position, what was expected there, and what was found.
-/

namespace Packrat

open Text

/-- Why an input is not accepted. -/
structure ParseError where
  /-- The furthest position at which a match failed, in bytes. -/
  offset : Nat
  /-- What was expected there, in order and without repetition. -/
  expected : List String
  /-- The character there, if there is one. -/
  found : Option Char
  deriving DecidableEq, Repr

namespace ParseError

/-- The description of the end of input. -/
def endOfInput : String := "end of input"

/-- What a tracker expects, in words. -/
def expectedBy (t : Tracker) (table : ExpectationTable) : List String :=
  (t.expected.filterMap table.get?).map Expectation.describe ++
    if t.expectsEnd then [endOfInput] else []

/-- The character at a position of an input. -/
def charAt? (input : Text) (pos : Nat) : Option Char :=
  (dropBytes? pos input).bind List.head?

/-- The error that a tracker leads to. -/
def ofTracker (input : Text) (t : Tracker) (table : ExpectationTable) : ParseError where
  offset := t.furthest
  expected := ascending (expectedBy t table)
  found := charAt? input t.furthest

/-- An enumeration with commas and a last `or`. -/
def enumerate : List String → String
  | [] => "nothing"
  | [one] => one
  | first :: rest =>
    ", ".intercalate (first :: rest.dropLast) ++ " or " ++ rest.getLast?.getD ""

/-- The error in words. -/
def message (e : ParseError) : String :=
  let found :=
    match e.found with
    | some c => quote (String.singleton c)
    | none => endOfInput
  s!"expected {enumerate e.expected} but {found} found at offset {e.offset}"

end ParseError

end Packrat
