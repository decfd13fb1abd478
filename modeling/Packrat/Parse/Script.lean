import Packrat.Parse.Stream

/-!
# Scripts

A script is the body of a rule written as data: steps that run one after another on a session whose
results are strings.  A run keeps a log of what every step gave and of the state after it.
-/

namespace Packrat

variable {R : Type}

/-- A step of a script. -/
inductive ScriptStep (R : Type) where
  /-- Execute a plan.  If it must match and does not, the script fails. -/
  | exec (plan : MatchPlan) (must : Bool)
  /-- Call a rule whose results are kept and whose body is a script with perhaps a fixed result.  If
  it must succeed and does not, the calling script fails. -/
  | call (slot : Nat) (refs : List Nat) (body : List (ScriptStep R))
      (result : Option (Option String)) (must : Bool)
  /-- Record that an expectation failed at the cursor. -/
  | fail (index : Nat)
  | failSilently
  | setPos (pos : Nat)
  | setCell (cell : Nat) (value : R)
  /-- Read the rest of the input. -/
  | rest

/-- Whether a step has a result. -/
def ScriptStep.hasResult : ScriptStep R → Bool
  | exec .. | call .. => true
  | _ => false

/-- The steps of a script and its result, if it does not have that of its last step. -/
structure Script (R : Type) where
  steps : List (ScriptStep R)
  result : Option (Option String)

/-- The observable state of a session. -/
structure Snapshot (R : Type) where
  failure : Tracker
  pos : Nat
  atEnd : Bool
  /-- The values of the watched cells. -/
  cells : List R

/-- The observable state of a session, with the values of some cells. -/
def Session.snapshot (s : Session String R) (watched : List Nat) : Snapshot R :=
  ⟨s.failure, s.pos, s.atEnd, watched.map s.cells.read⟩

/-- What a step gave, and the state after it. -/
inductive LogEntry (R : Type) where
  | exec (result : Option String) (after : Snapshot R)
  /-- The log of the body is there if the body ran. -/
  | call (body : Option (List (LogEntry R))) (result : Option String) (after : Snapshot R)
  | fail (after : Snapshot R)
  | failSilently (after : Snapshot R)
  | setPos (after : Snapshot R)
  | setCell (after : Snapshot R)
  | rest (rest input : String) (after : Snapshot R)

/-- A run of some steps: the log, the result of the last step that has one, whether a step that must
succeed failed, and the session. -/
structure ScriptRun (R : Type) where
  log : List (LogEntry R)
  last : Option String
  failed : Bool
  session : Session String R

/-- The result of a script after a run of its steps. -/
def ScriptRun.result (run : ScriptRun R) (fixed : Option (Option String)) : Option String :=
  if run.failed then none else fixed.getD run.last

variable [BEq R] [ToString R]

mutual

/-- Runs a step.  Only plans and calls have a result. -/
def ScriptStep.run (watched : List Nat) (s : Session String R) :
    ScriptStep R → Except Fault (ScriptRun R)
  | .exec plan must => do
    let (matched, s) ← s.exec plan
    let result := matched.map String.ofList
    .ok ⟨[.exec result (s.snapshot watched)], result, must && result.isNone, s⟩
  | .call slot refs body fixed must => do
    let (log, result, s) ← s.callCached slot refs fun s => do
      let run ← ScriptStep.runAll watched none s body
      .ok (run.log, run.result fixed, run.session)
    .ok ⟨[.call log result (s.snapshot watched)], result, must && result.isNone, s⟩
  | .fail index => do
    let s ← s.fail index
    .ok ⟨[.fail (s.snapshot watched)], none, false, s⟩
  | .failSilently =>
    let s := s.failSilently
    .ok ⟨[.failSilently (s.snapshot watched)], none, false, s⟩
  | .setPos pos =>
    let s := s.setPos pos
    .ok ⟨[.setPos (s.snapshot watched)], none, false, s⟩
  | .setCell cell value =>
    let s := s.setCell cell value
    .ok ⟨[.setCell (s.snapshot watched)], none, false, s⟩
  | .rest => do
    let rest ← s.rest
    .ok ⟨[.rest (.ofList rest) (.ofList s.input) (s.snapshot watched)], none, false, s⟩

/-- Runs steps up to the first that must succeed and fails. -/
def ScriptStep.runAll (watched : List Nat) (last : Option String) (s : Session String R) :
    List (ScriptStep R) → Except Fault (ScriptRun R)
  | [] => .ok ⟨[], last, false, s⟩
  | step :: steps => do
    let one ← step.run watched s
    let last := if step.hasResult then one.last else last
    if one.failed then .ok { one with last }
    else
      let more ← ScriptStep.runAll watched last one.session steps
      .ok { more with log := one.log ++ more.log }

end

/-- Runs a script: its log, its result, and the session after it. -/
def Script.run (watched : List Nat) (script : Script R) (s : Session String R) :
    Except Fault (List (LogEntry R) × Option String × Session String R) := do
  let run ← ScriptStep.runAll watched none s script.steps
  .ok (run.log, run.result script.result, run.session)

end Packrat
