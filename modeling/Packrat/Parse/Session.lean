import Packrat.Parse.Error
import Packrat.Plan.Exec

/-!
# Parse sessions

A session holds all state of one parse: the input and the cursor, the results that are kept, the
furthest failure, and the cells of by-reference parameters.  Operations on it are functions from
sessions to sessions, which fault where they read the input at a bad position and where an
expectation has an index too large to be stored.
-/

namespace Packrat

open Text

/-- Cells by number.  Cells that were never made hold the default value. -/
structure Cells (R : Type) where
  /-- The number of the next cell to be made. -/
  next : Nat
  read : Nat → R

namespace Cells

variable {R : Type}

def empty [Inhabited R] : Cells R := ⟨0, fun _ => default⟩

/-- Writes a cell. -/
def write (cells : Cells R) (cell : Nat) (value : R) : Cells R :=
  { cells with read := fun c => if c = cell then value else cells.read c }

/-- Makes a cell with a value; gives its number. -/
def make (cells : Cells R) (value : R) : Nat × Cells R :=
  (cells.next, { cells.write cells.next value with next := cells.next + 1 })

@[simp] theorem read_write_self (cells : Cells R) (cell : Nat) (value : R) :
    (cells.write cell value).read cell = value := by
  simp [write]

theorem read_write_of_ne (cells : Cells R) {cell other : Nat} (h : other ≠ cell) (value : R) :
    (cells.write cell value).read other = cells.read other := by
  simp [write, h]

/-- Writes the values that are there into the cells beside them. -/
def restore (cells : Cells R) : List Nat → List (Option R) → Cells R
  | c :: cs, some value :: values => (cells.write c value).restore cs values
  | _ :: cs, none :: values => cells.restore cs values
  | _, _ => cells

end Cells

/-- What a result is kept under: the slot, the cursor, and the values of the by-reference parameters
in print. -/
structure MemoKey where
  slot : Nat
  pos : Nat
  refs : List String
  deriving DecidableEq, Repr

/-- A kept result: where the cursor was left, the result, and for each by-reference parameter its
final value if it changed. -/
structure MemoEntry (V R : Type) where
  next : Nat
  result : Option V
  deltas : List (Option R)

/-- Kept results. -/
structure Memo (V R : Type) where
  entries : List (MemoKey × MemoEntry V R)

namespace Memo

variable {V R : Type}

def empty : Memo V R := ⟨[]⟩

/-- The result that is kept under a key. -/
def find? (memo : Memo V R) (key : MemoKey) : Option (MemoEntry V R) :=
  memo.entries.lookup key

/-- Keeps a result in place of what was kept under its key. -/
def store (memo : Memo V R) (key : MemoKey) (entry : MemoEntry V R) : Memo V R :=
  ⟨(key, entry) :: memo.entries⟩

@[simp] theorem find?_store (memo : Memo V R) (key other : MemoKey) (entry : MemoEntry V R) :
    (memo.store key entry).find? other = if other = key then some entry else memo.find? other := by
  by_cases h : other = key
  · simp [find?, store, h]
  · have : (other == key) = false := by simp [h]
    simp [find?, store, List.lookup_cons, this, h]

end Memo

/-- The state of a parse that gives results of type `V` over cells of type `R`. -/
structure Session (V R : Type) where
  input : Text
  /-- The cursor, in bytes. -/
  pos : Nat
  memo : Memo V R
  failure : Tracker
  cells : Cells R

namespace Session

variable {V R : Type}

/-- A session at the start of an input. -/
def start [Inhabited R] (input : String) : Session V R :=
  ⟨input.toList, 0, .empty, .empty, .empty⟩

/-- Whether the cursor is at or past the end. -/
def atEnd (s : Session V R) : Bool :=
  byteLength s.input ≤ s.pos

/-- Moves the cursor. -/
def setPos (s : Session V R) (pos : Nat) : Session V R :=
  { s with pos }

/-- The input at the cursor. -/
def rest (s : Session V R) : Except Fault Text :=
  readFrom s.input s.pos

/-- Records that an expectation failed at the cursor. -/
def fail (s : Session V R) (index : Nat) : Except Fault (Session V R) := do
  let failure ← s.failure.fail s.pos index
  .ok { s with failure }

/-- A failure of a rule that does not report failures. -/
def failSilently (s : Session V R) : Session V R :=
  { s with failure := s.failure.failSilently }

/-- Writes a cell. -/
def setCell (s : Session V R) (cell : Nat) (value : R) : Session V R :=
  { s with cells := s.cells.write cell value }

/-- Makes a cell; gives its number. -/
def makeCell (s : Session V R) (value : R) : Nat × Session V R :=
  let (cell, cells) := s.cells.make value
  (cell, { s with cells })

/-- Executes a plan at the cursor. -/
def exec (s : Session V R) (plan : MatchPlan) : Except Fault (Option Text × Session V R) := do
  let r ← plan.exec s.input s.pos
  .ok (r.matched, s.setPos r.pos)

/-- Ends a parse with the result of its rule.  It succeeds if there is a result and no input is
left. -/
def finish (s : Session V R) (result : Option V) (table : ExpectationTable) : Except ParseError V :=
  match result with
  | some value =>
    if s.atEnd then .ok value
    else .error (.ofTracker s.input (s.failure.failEnd s.pos) table)
  | none => .error (.ofTracker s.input s.failure table)

section Memoized

variable [BEq R] [ToString R]

/-- The key of a call at the cursor with the current values of some cells. -/
def memoKey (s : Session V R) (slot : Nat) (refs : List Nat) : MemoKey :=
  ⟨slot, s.pos, refs.map fun c => toString (s.cells.read c)⟩

/-- A session as a kept result leaves it. -/
def replay (s : Session V R) (refs : List Nat) (entry : MemoEntry V R) : Session V R :=
  { s with pos := entry.next, cells := s.cells.restore refs entry.deltas }

/-- What is kept of a call that went from one session to another. -/
def entryOf (before after : Session V R) (refs : List Nat) (result : Option V) : MemoEntry V R where
  next := after.pos
  result
  deltas := refs.map fun c =>
    let value := after.cells.read c
    if value != before.cells.read c then some value else none

/-- Calls a rule whose results are kept.  A kept result is replayed: the body does not run and gives
no account.  Otherwise the body runs, and its result is kept with what it did to its cells. -/
def callCached {α ε : Type} (s : Session V R) (slot : Nat) (refs : List Nat)
    (body : Session V R → Except ε (α × Option V × Session V R)) :
    Except ε (Option α × Option V × Session V R) :=
  let key := s.memoKey slot refs
  match s.memo.find? key with
  | some entry => .ok (none, entry.result, s.replay refs entry)
  | none => do
    let (account, result, after) ← body s
    let memo := after.memo.store key (entryOf s after refs result)
    .ok (some account, result, { after with memo })

end Memoized

end Session

end Packrat
