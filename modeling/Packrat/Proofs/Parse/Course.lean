import Packrat.Proofs.Plan.Exec
import Packrat.Parse.Session

/-!
# Courses of a session

What happens to a session is a list of operations, where a call has a list of them as its body.  A
rule may choose its operations by what it sees; a course tells those that it chose, so that what
holds after every course holds whatever the rules are.  Main statements: what an operation does that
is no call (`run_of_isCall_eq_false`), what a call does when its result is kept already and when it
is not (`cases_of_run_call`), and what the parts of a run keep, the run keeps
(`RunInvariant.runAll`).
-/

namespace Packrat

variable {V R : Type}

/-- Something that is done with a session.  The body of a call is done only if no result is kept. -/
inductive Operation (V R : Type) where
  | exec (plan : MatchPlan)
  | fail (index : Nat)
  | failSilently
  | rest
  | setPos (pos : Nat)
  | makeCell (value : R)
  | setCell (cell : Nat) (value : R)
  | call (slot : Nat) (refs : List Nat) (body : List (Operation V R)) (result : Option V)

/-- Whether an operation is a call. -/
def Operation.isCall : Operation V R → Bool
  | call .. => true
  | _ => false

/-- A call as it is made: the slot, the cells, and the session before it. -/
structure Invocation (V R : Type) where
  slot : Nat
  refs : List Nat
  before : Session V R

namespace Invocation

/-- The values of the cells when the call is made. -/
def values (made : Invocation V R) : List R :=
  made.refs.map made.before.cells.read

/-- What the result is kept under. -/
def key [ToString R] (made : Invocation V R) : MemoKey :=
  made.before.memoKey made.slot made.refs

end Invocation

/-- The moment after an operation. -/
inductive Moment (V R : Type) where
  /-- The operation was no call. -/
  | done (after : Session V R)
  /-- A call ran its body and its result was kept. -/
  | kept (made : Invocation V R) (after : Session V R)
  /-- A call was answered by a result that was kept before. -/
  | replayed (made : Invocation V R) (after : Session V R)

/-- The session at a moment. -/
def Moment.after : Moment V R → Session V R
  | done after | kept _ after | replayed _ after => after

section

variable [BEq R] [ToString R]

/-- A session when the result of a body that it ran is kept. -/
def Session.keep (s ended : Session V R) (slot : Nat) (refs : List Nat) (result : Option V) :
    Session V R :=
  { ended with
    memo := ended.memo.store (s.memoKey slot refs) (s.entryOf ended refs result) }

mutual

/-- Does an operation.  Gives the moments, those within the body of a call included, and the
session. -/
def Operation.run (s : Session V R) :
    Operation V R → Except Fault (List (Moment V R) × Session V R)
  | .exec plan => do
    let (_, after) ← s.exec plan
    .ok ([.done after], after)
  | .fail index => do
    let after ← s.fail index
    .ok ([.done after], after)
  | .failSilently => .ok ([.done s.failSilently], s.failSilently)
  | .rest => do
    let _ ← s.rest
    .ok ([.done s], s)
  | .setPos pos => .ok ([.done (s.setPos pos)], s.setPos pos)
  | .makeCell value => .ok ([.done (s.makeCell value).2], (s.makeCell value).2)
  | .setCell cell value => .ok ([.done (s.setCell cell value)], s.setCell cell value)
  | .call slot refs body result => do
    let (inner, _, after) ← s.callCached slot refs fun s => do
      let (inner, ended) ← Operation.runAll s body
      .ok (inner, result, ended)
    match inner with
    | some inner => .ok (inner ++ [.kept ⟨slot, refs, s⟩ after], after)
    | none => .ok ([.replayed ⟨slot, refs, s⟩ after], after)

/-- Does operations one after another. -/
def Operation.runAll (s : Session V R) :
    List (Operation V R) → Except Fault (List (Moment V R) × Session V R)
  | [] => .ok ([], s)
  | op :: ops => do
    let (first, s) ← op.run s
    let (later, s) ← Operation.runAll s ops
    .ok (first ++ later, s)

end

end

namespace Operation

variable [BEq R] [ToString R] {s last : Session V R} {trace : List (Moment V R)} {slot : Nat}
  {refs : List Nat}

/-- An operation that is no call leaves the input and the kept results alone, and but for one kind
the failures as well. -/
theorem run_of_isCall_eq_false {op : Operation V R} (hop : op.isCall = false)
    (h : op.run s = .ok (trace, last)) :
    trace = [.done last] ∧ last.input = s.input ∧ last.memo = s.memo ∧
      ((∀ index, op ≠ .fail index) → last.failure = s.failure) := by
  cases op with
  | exec plan =>
      rw [run] at h
      obtain ⟨⟨matched, after⟩, hexec, h⟩ := bind_eq_ok.1 h
      cases h
      obtain ⟨r, -, h⟩ := bind_eq_ok.1 hexec
      cases h
      exact ⟨rfl, rfl, rfl, fun _ => rfl⟩
  | rest =>
      rw [run] at h
      obtain ⟨rest, -, h⟩ := bind_eq_ok.1 h
      cases h
      exact ⟨rfl, rfl, rfl, fun _ => rfl⟩
  | call slot refs body result => cases hop
  | fail index =>
      rw [run] at h
      obtain ⟨after, hfail, h⟩ := bind_eq_ok.1 h
      cases h
      obtain ⟨failure, -, h⟩ := bind_eq_ok.1 hfail
      cases h
      exact ⟨rfl, rfl, rfl, fun hne => absurd rfl (hne index)⟩
  | _ =>
      cases h
      exact ⟨rfl, rfl, rfl, fun _ => rfl⟩

/-- A call whose result is kept leaves the session as the entry says. -/
theorem run_call_of_find? {entry : MemoEntry V R}
    (hfind : s.memo.find? (s.memoKey slot refs) = some entry) (body : List (Operation V R))
    (result : Option V) :
    (call slot refs body result).run s =
      .ok ([.replayed ⟨slot, refs, s⟩ (s.replay refs entry)], s.replay refs entry) := by
  simp [run, Session.callCached, hfind]

/-- A call whose result is not kept runs its body, and then it is. -/
theorem run_call_of_find?_eq_none (hfind : s.memo.find? (s.memoKey slot refs) = none)
    (body : List (Operation V R)) (result : Option V) :
    (call slot refs body result).run s =
      (runAll s body).map fun (inner, ended) =>
        (inner ++ [.kept ⟨slot, refs, s⟩ (s.keep ended slot refs result)],
          s.keep ended slot refs result) := by
  rw [run, Session.callCached, hfind]
  cases runAll s body <;> rfl

/-- A call is answered by a kept result, or runs its body. -/
theorem cases_of_run_call {body : List (Operation V R)} {result : Option V}
    (h : (call slot refs body result).run s = .ok (trace, last)) :
    (∃ entry, s.memo.find? (s.memoKey slot refs) = some entry ∧
      trace = [.replayed ⟨slot, refs, s⟩ (s.replay refs entry)] ∧ last = s.replay refs entry) ∨
    ∃ inner ended, s.memo.find? (s.memoKey slot refs) = none ∧
      runAll s body = .ok (inner, ended) ∧
      trace = inner ++ [.kept ⟨slot, refs, s⟩ (s.keep ended slot refs result)] ∧
      last = s.keep ended slot refs result := by
  cases hfind : s.memo.find? (s.memoKey slot refs) with
  | some entry =>
      rw [run_call_of_find? hfind] at h
      cases h
      exact .inl ⟨entry, rfl, rfl, rfl⟩
  | none =>
      rw [run_call_of_find?_eq_none hfind] at h
      cases hbody : runAll s body with
      | error fault => simp [hbody, Except.map] at h
      | ok ran =>
          obtain ⟨inner, ended⟩ := ran
          rw [hbody] at h
          cases h
          exact .inr ⟨inner, ended, rfl, rfl, rfl, rfl⟩

theorem runAll_cons_eq_ok {op : Operation V R} {ops : List (Operation V R)} :
    runAll s (op :: ops) = .ok (trace, last) ↔
      ∃ first after later, op.run s = .ok (first, after) ∧
        runAll after ops = .ok (later, last) ∧ trace = first ++ later := by
  constructor
  · intro h
    rw [runAll] at h
    obtain ⟨⟨first, after⟩, hfirst, h⟩ := bind_eq_ok.1 h
    obtain ⟨⟨later, last'⟩, hlater, h⟩ := bind_eq_ok.1 h
    cases h
    exact ⟨first, after, later, hfirst, hlater, rfl⟩
  · rintro ⟨first, after, later, hfirst, hlater, rfl⟩
    simp [runAll, hfirst, hlater]

end Operation

/-- A place in two joined lists is in one of them. -/
theorem eq_of_append_eq {α : Type} {first later earlier rest : List α} {x : α}
    (h : first ++ later = earlier ++ x :: rest) :
    (∃ between, first = earlier ++ x :: between) ∨
      ∃ between, earlier = first ++ between ∧ later = between ++ x :: rest := by
  rcases List.append_eq_append_iff.1 h with ⟨between, rfl, hbetween⟩ | ⟨between, rfl, hbetween⟩
  · exact .inr ⟨between, rfl, hbetween⟩
  · cases between with
    | nil => exact .inr ⟨[], by simp, hbetween.symm⟩
    | cons y between =>
        obtain ⟨rfl, -⟩ := List.cons.inj hbetween
        exact .inl ⟨between, rfl⟩

theorem eq_of_singleton_eq {α : Type} {earlier rest : List α} {x y : α}
    (h : [x] = earlier ++ y :: rest) : earlier = [] ∧ x = y ∧ rest = [] := by
  cases earlier with
  | nil =>
      obtain ⟨rfl, rfl⟩ := List.cons.inj h
      exact ⟨rfl, rfl, rfl⟩
  | cons z earlier => simp at h

variable [BEq R] [ToString R]

/-- What holds of a run from a session over some moments to a session if it holds of its parts.  Of
an operation that is no call only what it leaves alone is told. -/
structure RunInvariant (P : Session V R → List (Moment V R) → Session V R → Prop) : Prop where
  nil : ∀ s, P s [] s
  append : ∀ {s after last first later}, P s first after → P after later last →
    P s (first ++ later) last
  done : ∀ {s after : Session V R}, after.input = s.input → after.memo = s.memo →
    P s [.done after] after
  kept : ∀ {s ended : Session V R} {slot refs inner} result,
    s.memo.find? (s.memoKey slot refs) = none → P s inner ended →
    P s (inner ++ [.kept ⟨slot, refs, s⟩ (s.keep ended slot refs result)])
      (s.keep ended slot refs result)
  replayed : ∀ {s : Session V R} {slot refs entry},
    s.memo.find? (s.memoKey slot refs) = some entry →
    P s [.replayed ⟨slot, refs, s⟩ (s.replay refs entry)] (s.replay refs entry)

namespace RunInvariant

variable {P : Session V R → List (Moment V R) → Session V R → Prop}

mutual

theorem run (hP : RunInvariant P) {s last : Session V R} {trace : List (Moment V R)} :
    ∀ op : Operation V R, op.run s = .ok (trace, last) → P s trace last := by
  intro op h
  cases op with
  | call slot refs body result =>
      obtain ⟨entry, hfind, rfl, rfl⟩ | ⟨inner, ended, hfind, hbody, rfl, rfl⟩ :=
        Operation.cases_of_run_call h
      · exact hP.replayed hfind
      · exact hP.kept result hfind (hP.runAll body hbody)
  | _ =>
      obtain ⟨rfl, hinput, hmemo, -⟩ := Operation.run_of_isCall_eq_false rfl h
      exact hP.done hinput hmemo

theorem runAll (hP : RunInvariant P) {s last : Session V R} {trace : List (Moment V R)} :
    ∀ ops : List (Operation V R), Operation.runAll s ops = .ok (trace, last) → P s trace last
  | [], h => by
      cases h
      exact hP.nil s
  | op :: ops, h => by
      obtain ⟨first, after, later, hfirst, hlater, rfl⟩ := Operation.runAll_cons_eq_ok.1 h
      exact hP.append (hP.run op hfirst) (hP.runAll ops hlater)

end

end RunInvariant

end Packrat
