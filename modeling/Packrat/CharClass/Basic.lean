import Packrat.Text.Bytes

/-!
# Character classes

A class such as `[a-z_]` lists single characters and ranges in source order.  A range whose last
character precedes its first has no members.
-/

namespace Packrat

/-- The characters from `first` to `last`, both included. -/
structure CharRange where
  first : Char
  last : Char
  deriving DecidableEq, Repr

namespace CharRange

/-- The distance between the ends in code points: zero for a single character. -/
def span (r : CharRange) : Nat :=
  r.last.toNat - r.first.toNat

/-- Whether a character lies between the ends. -/
def contains (r : CharRange) (c : Char) : Bool :=
  r.first.toNat ≤ c.toNat && c.toNat ≤ r.last.toNat

theorem contains_iff {r : CharRange} {c : Char} :
    r.contains c = true ↔ r.first.toNat ≤ c.toNat ∧ c.toNat ≤ r.last.toNat := by
  simp [contains]

/-- Whether the range reaches beyond the Basic Multilingual Plane. -/
def isAstral (r : CharRange) : Bool :=
  0xFFFF < r.last.toNat

/-- The members in ascending order.  Code points that are not characters are left out. -/
def toList (r : CharRange) : Text :=
  (List.range' r.first.toNat (r.last.toNat + 1 - r.first.toNat)).filterMap fun n =>
    if n.isValidChar then some (Char.ofNat n) else none

end CharRange

/-- One item of a class. -/
inductive ClassPart where
  | char (c : Char)
  | range (first last : Char)
  deriving DecidableEq, Repr

/-- An item as a range: a single character is a range of its own. -/
def ClassPart.toRange : ClassPart → CharRange
  | char c => ⟨c, c⟩
  | range first last => ⟨first, last⟩

/-- A character class: its items, whether it matches the characters they do not describe, and
whether it matches irrespective of case. -/
structure CharClass where
  parts : List ClassPart
  inverted : Bool
  ignoreCase : Bool
  deriving DecidableEq, Repr

/-- The items of a class as ranges, in source order. -/
def CharClass.ranges (cls : CharClass) : List CharRange :=
  cls.parts.map ClassPart.toRange

end Packrat
