/-!
# Values of by-reference parameters

A by-reference parameter holds a truth value, an integer or a text.
-/

namespace Packrat

/-- What a cell holds. -/
inductive Value where
  | bool (value : Bool)
  | int (value : Int)
  | text (value : String)
  deriving DecidableEq, Repr

namespace Value

/-- Cells start out with the empty text. -/
instance : Inhabited Value := ⟨.text ""⟩

/-- A value in print, bare of anything that tells its type. -/
def print : Value → String
  | bool value => if value then "true" else "false"
  | int value => toString value
  | text value => value

instance : ToString Value := ⟨print⟩

end Value

end Packrat
