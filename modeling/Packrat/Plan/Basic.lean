import Packrat.CharClass.Basic
import Packrat.Text.Utf16

/-!
# Match plans

A plan says how to match one literal, class or character: run the statements of its block to load
a candidate into a register, test the condition, and if it holds run the statements that give the
result and move the cursor.  Plans are data.  They are executed directly, and they are printed for a
target language.
-/

namespace Packrat

/-- A temporary variable that holds a candidate or a result. -/
structure Reg where
  index : Nat
  deriving DecidableEq, Repr

/-- A register as it is named in print. -/
def Reg.name (r : Reg) : String :=
  s!"r{r.index}"

/-- The length of a piece of text, in characters and in UTF-16 code units. -/
structure Width where
  chars : Nat
  units : Nat
  deriving DecidableEq, Repr

namespace Width

/-- The width of a character of the Basic Multilingual Plane. -/
def one : Width := ⟨1, 1⟩

/-- The width of a text. -/
def ofText (cs : Text) : Width :=
  ⟨cs.length, (Text.utf16 cs).length⟩

end Width

/-- What decides whether a plan matches. -/
inductive Cond where
  | const (value : Bool)
  /-- Input remains at the cursor. -/
  | notAtEnd
  /-- The code unit at the cursor is the given one. -/
  | codeAt (unit : Nat)
  /-- The register holds the string. -/
  | regEq (reg : Reg) (value : String)
  /-- The register holds the string when put in lowercase. -/
  | regEqLower (reg : Reg) (value : String)
  /-- The register is not empty, and it is or, if inverted, is not a part of the set. -/
  | inSet (reg : Reg) (set : String) (inverted : Bool)
  /-- The register starts with a character that is or, if inverted, is not in one of the ranges. -/
  | inRanges (reg : Reg) (ranges : List CharRange) (inverted ignoreCase : Bool)
  | and (left right : Cond)
  | or (left right : Cond)
  deriving DecidableEq, Repr

/-- A statement of a plan. -/
inductive Stmt where
  /-- Load the character at the cursor, or nothing at the end of input. -/
  | loadChar (reg : Reg)
  /-- Load the character at the cursor with both halves of its surrogate pair. -/
  | loadCodePoint (reg : Reg)
  /-- Load as much input at the cursor as the width asks for and the input has. -/
  | loadSubstring (reg : Reg) (width : Width)
  /-- Load the character at the cursor and move past it. -/
  | takeChar (reg : Reg)
  /-- Load a constant. -/
  | assign (reg : Reg) (value : String)
  /-- Move the cursor by a width. -/
  | advance (width : Width)
  /-- Move the cursor by the length of what a register holds. -/
  | advancePast (reg : Reg)
  deriving DecidableEq, Repr

/-- How to match one literal, class or character. -/
structure MatchPlan where
  /-- The register of the result. -/
  reg : Reg
  block : List Stmt
  cond : Cond
  onSuccess : List Stmt
  deriving DecidableEq, Repr

namespace MatchPlan

/-- The plan that never matches. -/
def never (reg : Reg) : MatchPlan :=
  ⟨reg, [], .const false, []⟩

/-- The plan that matches any single character. -/
def any (reg : Reg) : MatchPlan :=
  ⟨reg, [], .notAtEnd, [.takeChar reg]⟩

end MatchPlan

end Packrat
