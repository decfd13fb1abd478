import Packrat.Parse.Session

/-!
# Rule sets

A rule set gives every slot a body: a machine that acts on the session, calls other slots, and ends
with a result.  It knows the session by the cursor and by the values of its cells alone.  Calls can
be answered by running the body each time or from kept results.
-/

namespace Packrat

variable {α σ V R : Type}

/-- The elements at some places of a list, if they are all there. -/
def pick (xs : List α) : List Nat → Option (List α)
  | [] => some []
  | place :: places =>
    match xs[place]?, pick xs places with
    | some x, some rest => some (x :: rest)
    | _, _ => none

/-- What a body does by itself.  It names a cell by its place among those that it was given and,
after them, those that it made.  It needs no act to look at the input: which text stands at the
cursor follows from the cursor, as the input stays the same. -/
inductive Act (σ R : Type) where
  | exec (plan : MatchPlan) (next : Option Text → σ)
  | fail (index : Nat) (next : σ)
  | failSilently (next : σ)
  | readPos (next : Nat → σ)
  | setPos (pos : Nat) (next : σ)
  | readCell (place : Nat) (next : R → σ)
  | setCell (place : Nat) (value : R) (next : σ)
  | makeCell (value : R) (next : σ)

/-- What a body does next.  The cells that it passes to a slot are different ones. -/
inductive Move (σ V R : Type) where
  | done (result : Option V)
  | act (a : Act σ R)
  | call (slot : Nat) (args : List Nat) (distinct : args.Nodup) (next : Option V → σ)

/-- The bodies of all slots as one machine. -/
structure RuleSet (σ V R : Type) where
  start : Nat → σ
  move : σ → Move σ V R

/-- Why a run comes to no end. -/
inductive Halt where
  | fault (fault : Fault)
  /-- There is no cell at a place. -/
  | noCell
  | noFuel
  deriving DecidableEq, Repr

/-- With enough fuel a run ends, and always the same way. -/
def EndsWith (run : Nat → Except Halt α) (outcome : α) : Prop :=
  ∃ enough, ∀ fuel, enough ≤ fuel → run fuel = .ok outcome

namespace EndsWith

variable {β γ : Type} {first : Nat → Except Halt α} {second : Nat → Except Halt β}
  {whole : Nat → Except Halt γ} {a : α} {b : β} {c : γ}

theorem of_succ (h : EndsWith (fun fuel => first (fuel + 1)) a) : EndsWith first a := by
  obtain ⟨enough, hends⟩ := h
  refine ⟨enough + 1, fun fuel hfuel => ?_⟩
  obtain ⟨less, rfl⟩ : ∃ less, fuel = less + 1 := ⟨fuel - 1, by omega⟩
  exact hends less (by omega)

/-- A run that ends as soon as two others do. -/
theorem both (h : EndsWith first a) (h' : EndsWith second b)
    (hwhole : ∀ fuel, first fuel = .ok a → second fuel = .ok b → whole fuel = .ok c) :
    EndsWith whole c := by
  obtain ⟨enough, hends⟩ := h
  obtain ⟨enough', hends'⟩ := h'
  refine ⟨max enough enough', fun fuel hfuel => ?_⟩
  exact hwhole fuel (hends fuel (by omega)) (hends' fuel (by omega))

end EndsWith

/-- Acts on a session.  Gives the next state of the body and its cells. -/
def Act.run (s : Session V R) (cells : List Nat) :
    Act σ R → Except Halt (σ × List Nat × Session V R)
  | exec plan next =>
    match s.exec plan with
    | .ok (matched, s) => .ok (next matched, cells, s)
    | .error fault => .error (.fault fault)
  | fail index next =>
    match s.fail index with
    | .ok s => .ok (next, cells, s)
    | .error fault => .error (.fault fault)
  | failSilently next => .ok (next, cells, s.failSilently)
  | readPos next => .ok (next s.pos, cells, s)
  | setPos pos next => .ok (next, cells, s.setPos pos)
  | readCell place next =>
    match cells[place]? with
    | some c => .ok (next (s.cells.read c), cells, s)
    | none => .error .noCell
  | setCell place value next =>
    match cells[place]? with
    | some c => .ok (next, cells, s.setCell c value)
    | none => .error .noCell
  | makeCell value next =>
    let (c, s) := s.makeCell value
    .ok (next, cells ++ [c], s)

/-- How calls are answered: by running the body, or by what is kept of an earlier run. -/
inductive CallMode where
  | direct
  | kept
  deriving DecidableEq, Repr

section Calls

variable [BEq R] [ToString R]

/-- Calls a slot. -/
def Session.call (s : Session V R) (mode : CallMode) (slot : Nat) (refs : List Nat)
    (body : Session V R → Except Halt (Option V × Session V R)) :
    Except Halt (Option V × Session V R) :=
  match mode with
  | .direct => body s
  | .kept => do
    let (_, result, s) ← s.callCached slot refs fun s => do
      let (result, s) ← body s
      .ok ((), result, s)
    .ok (result, s)

namespace RuleSet

/-- Runs a body from one of its states. -/
def run (rules : RuleSet σ V R) (mode : CallMode) :
    Nat → σ → List Nat → Session V R → Except Halt (Option V × Session V R)
  | 0, _, _, _ => .error .noFuel
  | fuel + 1, state, cells, s =>
    match rules.move state with
    | .done result => .ok (result, s)
    | .act a => do
      let (state, cells, s) ← a.run s cells
      rules.run mode fuel state cells s
    | .call slot args _ next =>
      match pick cells args with
      | none => .error .noCell
      | some refs => do
        let (result, s) ← s.call mode slot refs (rules.run mode fuel (rules.start slot) refs)
        rules.run mode fuel (next result) cells s

end RuleSet

/-- A step of whoever drives the parse. -/
inductive Step (R : Type) where
  | call (slot : Nat) (args : List Nat) (distinct : args.Nodup)
  | setPos (pos : Nat)
  | setCell (place : Nat) (value : R)

/-- Takes a step.  Only calls have a result. -/
def Step.run (rules : RuleSet σ V R) (mode : CallMode) (fuel : Nat) (cells : List Nat)
    (s : Session V R) : Step R → Except Halt (Option (Option V) × Session V R)
  | call slot args _ =>
    match pick cells args with
    | none => .error .noCell
    | some refs => do
      let (result, s) ← s.call mode slot refs (rules.run mode fuel (rules.start slot) refs)
      .ok (some result, s)
  | setPos pos => .ok (none, s.setPos pos)
  | setCell place value =>
    match cells[place]? with
    | none => .error .noCell
    | some c => .ok (none, s.setCell c value)

/-- What can be seen after a step. -/
structure Observation (V R : Type) where
  result : Option (Option V)
  pos : Nat
  values : List R
  failure : Tracker
  deriving DecidableEq, Repr

namespace RuleSet

/-- Takes steps one after another, and tells what can be seen after each. -/
def drive (rules : RuleSet σ V R) (mode : CallMode) (fuel : Nat) (cells : List Nat) :
    Session V R → List (Step R) → Except Halt (List (Observation V R))
  | _, [] => .ok []
  | s, step :: steps => do
    let (result, s) ← step.run rules mode fuel cells s
    let rest ← rules.drive mode fuel cells s steps
    .ok (⟨result, s.pos, cells.map s.cells.read, s.failure⟩ :: rest)

/-- Drives a new parse of an input over cells with some values. -/
def parse [Inhabited R] (rules : RuleSet σ V R) (mode : CallMode) (fuel : Nat) (input : String)
    (values : List R) (steps : List (Step R)) : Except Halt (List (Observation V R)) :=
  let s := values.foldl (fun s value => (s.makeCell value).2) (Session.start input)
  rules.drive mode fuel (List.range values.length) s steps

end RuleSet

end Calls

end Packrat
