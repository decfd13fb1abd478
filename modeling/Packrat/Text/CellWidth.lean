import Packrat.Plan.Fault
import Packrat.Text.Bytes

/-!
# Display width

The number of cells that a text takes in a fixed-width display.  The widths of characters are a
matter of the display and are given by a function, which has none for control characters.  Main
statement: a text whose cells are counted in 32 bits takes as many as its characters do together, or
the count faults (`addCells_eq`).
-/

namespace Packrat.Text

/-- The number of cells that a character takes. -/
def cells (width : Char → Option Nat) (c : Char) : UInt32 :=
  .ofNat ((width c).getD 0)

/-- The number of cells that a text takes: those of its characters together. -/
def displayWidth (width : Char → Option Nat) : Text → Nat
  | [] => 0
  | c :: cs => (cells width c).toNat + displayWidth width cs

/-- Adds the cells of a text to a number of them, character by character. -/
def addCells (width : Char → Option Nat) (sum : Nat) : Text → Except Fault Nat
  | [] => .ok sum
  | c :: cs => do
    let sum ← fit (sum + (cells width c).toNat)
    addCells width sum cs

variable (width : Char → Option Nat)

@[simp] theorem displayWidth_nil : displayWidth width [] = 0 := rfl

@[simp] theorem displayWidth_cons (c : Char) (cs : Text) :
    displayWidth width (c :: cs) = (cells width c).toNat + displayWidth width cs := rfl

@[simp] theorem displayWidth_append (left right : Text) :
    displayWidth width (left ++ right) = displayWidth width left + displayWidth width right := by
  induction left with
  | nil => simp
  | cons c cs ih => simp [ih, Nat.add_assoc]

theorem addCells_eq {sum : Nat} (hsum : sum < UInt32.size) (cs : Text) :
    addCells width sum cs = fit (sum + displayWidth width cs) := by
  induction cs generalizing sum with
  | nil => exact (fit_of_lt hsum).symm
  | cons c cs ih =>
    rw [addCells, displayWidth_cons, ← Nat.add_assoc]
    by_cases hfirst : sum + (cells width c).toNat < UInt32.size
    · rw [fit_of_lt hfirst]
      exact ih hfirst
    · -- the sum is too large already
      have hall : ¬ sum + (cells width c).toNat + displayWidth width cs < UInt32.size :=
        fun h => hfirst (Nat.lt_of_le_of_lt (Nat.le_add_right _ _) h)
      rw [fit_of_not_lt hfirst, fit_of_not_lt hall]
      rfl

end Packrat.Text
