import Packrat.Proofs.Parse.Course

/-!
# Calls that return

The calls of a course, each with the calls in whose bodies it was made.  Main statement: what the
parts of a run keep, the run keeps (`ReturnInvariant.runAll`).
-/

namespace Packrat

variable {V R : Type}

/-- A call that has returned. -/
structure Returned (V R : Type) where
  made : Invocation V R
  /-- The calls in whose bodies it was made, the innermost first. -/
  within : List (Invocation V R)
  /-- Whether its body ran. -/
  ran : Bool
  result : Option V
  /-- The session when it returned. -/
  after : Session V R

variable [BEq R] [ToString R]

mutual

/-- The calls that an operation makes, in the order in which they return. -/
def Operation.returns (within : List (Invocation V R)) (s : Session V R) :
    Operation V R → List (Returned V R)
  | .call slot refs body result =>
    let made : Invocation V R := ⟨slot, refs, s⟩
    let answer := s.callCached slot refs fun s =>
      (Operation.runAll s body).map fun (_, ended) =>
        (Operation.returnsAll (made :: within) s body, result, ended)
    match answer with
    | .ok (inner, result, after) => inner.getD [] ++ [⟨made, within, inner.isSome, result, after⟩]
    | .error _ => []
  | _ => []

/-- The calls that operations make one after another. -/
def Operation.returnsAll (within : List (Invocation V R)) (s : Session V R) :
    List (Operation V R) → List (Returned V R)
  | [] => []
  | op :: ops =>
    op.returns within s ++
      match op.run s with
      | .ok (_, after) => Operation.returnsAll within after ops
      | .error _ => []

end

/-- What holds of the calls of a run within some calls if it holds of the parts of the run.  Of an
operation that is no call only what it leaves alone is told. -/
structure ReturnInvariant
    (P : List (Invocation V R) → Session V R → List (Returned V R) → Session V R → Prop) :
    Prop where
  quiet : ∀ {within s after}, after.memo = s.memo → P within s [] after
  append : ∀ {within s after last first later}, P within s first after →
    P within after later last → P within s (first ++ later) last
  kept : ∀ {within slot refs inner} {s ended : Session V R} result,
    s.memo.find? (s.memoKey slot refs) = none → P (⟨slot, refs, s⟩ :: within) s inner ended →
    P within s
      (inner ++ [⟨⟨slot, refs, s⟩, within, true, result, s.keep ended slot refs result⟩])
      (s.keep ended slot refs result)
  replayed : ∀ {within slot refs entry} {s : Session V R},
    s.memo.find? (s.memoKey slot refs) = some entry →
    P within s [⟨⟨slot, refs, s⟩, within, false, entry.result, s.replay refs entry⟩]
      (s.replay refs entry)

namespace ReturnInvariant

variable {P : List (Invocation V R) → Session V R → List (Returned V R) → Session V R → Prop}

mutual

theorem run (hP : ReturnInvariant P) (within : List (Invocation V R)) {s last : Session V R}
    {trace : List (Moment V R)} :
    ∀ op : Operation V R, op.run s = .ok (trace, last) → P within s (op.returns within s) last := by
  intro op h
  cases op with
  | call slot refs body result =>
      obtain ⟨entry, hfind, -, rfl⟩ | ⟨inner, ended, hfind, hbody, -, rfl⟩ :=
        Operation.cases_of_run_call h
      · simpa [Operation.returns, Session.callCached, hfind] using hP.replayed hfind
      · have hinner := hP.runAll (⟨slot, refs, s⟩ :: within) body hbody
        simpa [Operation.returns, Session.callCached, hfind, hbody, Except.map, Session.keep]
          using hP.kept result hfind hinner
  | _ =>
      obtain ⟨-, -, hmemo, -⟩ := Operation.run_of_isCall_eq_false rfl h
      exact hP.quiet hmemo

theorem runAll (hP : ReturnInvariant P) (within : List (Invocation V R)) {s last : Session V R}
    {trace : List (Moment V R)} :
    ∀ ops : List (Operation V R), Operation.runAll s ops = .ok (trace, last) →
      P within s (Operation.returnsAll within s ops) last
  | [], h => by
      cases h
      exact hP.quiet rfl
  | op :: ops, h => by
      obtain ⟨first, after, later, hfirst, hlater, rfl⟩ := Operation.runAll_cons_eq_ok.1 h
      rw [Operation.returnsAll, hfirst]
      exact hP.append (hP.run within op hfirst) (hP.runAll within ops hlater)

end

end ReturnInvariant

end Packrat
