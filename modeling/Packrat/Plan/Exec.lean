import Packrat.Plan.Fault
import Packrat.Text.CaseMap

/-!
# Running a plan

A run reads the input at a cursor, which counts bytes.  It can fault instead of failing to match:
where the cursor is not between two characters of the input, and where a plan writes a register that
does not exist.
-/

namespace Packrat

open Text

/-- The input at a position. -/
def readFrom (input : Text) (pos : Nat) : Except Fault Text :=
  match dropBytes? pos input with
  | some rest => .ok rest
  | none => .error (.badPosition pos)

/-- The input between two positions. -/
def readBetween (input : Text) (start stop : Nat) : Except Fault Text :=
  match sliceBytes? start stop input with
  | some slice => .ok slice
  | none => .error (.badPosition stop)

/-- What each register holds: nothing until it is written. -/
abbrev Registers := Reg → Text

namespace Registers

/-- The number of registers of a plan. -/
def count : Nat := 4

def empty : Registers := fun _ => []

/-- Writes a register that exists. -/
def write (regs : Registers) (reg : Reg) (value : Text) : Except Fault Registers :=
  if reg.index < count then .ok fun r => if r = reg then value else regs r
  else .error (.badRegister reg)

end Registers

/-- The state of a run: the cursor and the registers. -/
structure PlanState where
  pos : Nat
  regs : Registers

namespace PlanState

/-- Writes a register. -/
def write (s : PlanState) (reg : Reg) (value : Text) : Except Fault PlanState := do
  let regs ← s.regs.write reg value
  .ok { s with regs }

/-- Moves the cursor past a text. -/
def skip (s : PlanState) (past : Text) : PlanState :=
  { s with pos := s.pos + byteLength past }

end PlanState

/-- Runs a statement.  Every statement first reads the input at the cursor. -/
def Stmt.run (input : Text) (s : PlanState) (stmt : Stmt) : Except Fault PlanState := do
  let rest ← readFrom input s.pos
  match stmt with
  | .loadChar reg => s.write reg (rest.take 1)
  | .loadCodePoint reg => s.write reg (rest.take 1)
  | .loadSubstring reg width => s.write reg (rest.take width.chars)
  | .takeChar reg => (s.skip (rest.take 1)).write reg (rest.take 1)
  | .assign reg value => s.write reg value.toList
  | .advance width => .ok (s.skip (rest.take width.chars))
  | .advancePast reg => .ok (s.skip (s.regs reg))

/-- Whether a character is in one of some ranges, itself or, if case is ignored, in a single
character of its other case. -/
def inClassRanges (ranges : List CharRange) (ignoreCase : Bool) (c : Char) : Bool :=
  let inside (c : Char) : Bool := ranges.any (·.contains c)
  inside c ||
    (ignoreCase && ((single? (lowerChar c)).any inside || (single? (upperChar c)).any inside))

/-- Tests a condition.  The right side of a conjunction or disjunction is tested only if the left
side does not decide it. -/
def Cond.test (input : Text) (s : PlanState) : Cond → Except Fault Bool
  | .const value => .ok value
  | .notAtEnd => .ok (s.pos < byteLength input)
  | .codeAt unit => do
    let rest ← readFrom input s.pos
    .ok ((utf16 (rest.take 1)).head? == some unit)
  | .regEq reg value => .ok (s.regs reg == value.toList)
  | .regEqLower reg value => .ok (lower (s.regs reg) == value.toList)
  | .inSet reg set inverted =>
    .ok (!(s.regs reg).isEmpty && occursIn (s.regs reg) set.toList != inverted)
  | .inRanges reg ranges inverted ignoreCase =>
    match s.regs reg with
    | [] => .ok false
    | c :: _ => .ok (inClassRanges ranges ignoreCase c != inverted)
  | .and left right => do
    if ← left.test input s then right.test input s else .ok false
  | .or left right => do
    if ← left.test input s then .ok true else right.test input s

/-- What executing a plan gives: the consumed text if it matched, and the cursor. -/
structure PlanResult where
  matched : Option Text
  pos : Nat
  deriving DecidableEq

/-- Executes a plan at a position.  A match consumes the input from there to where the cursor was
moved; without a match the cursor stays. -/
def MatchPlan.exec (plan : MatchPlan) (input : Text) (pos : Nat) : Except Fault PlanResult := do
  let loaded ← plan.block.foldlM (Stmt.run input) ⟨pos, Registers.empty⟩
  if ← plan.cond.test input loaded then
    let final ← plan.onSuccess.foldlM (Stmt.run input) loaded
    let slice ← readBetween input pos final.pos
    .ok ⟨some slice, final.pos⟩
  else .ok ⟨none, pos⟩

end Packrat
