import Packrat.Proofs.Parse.Course
import Packrat.Proofs.Plan.Class
import Packrat.Proofs.Plan.Literal
import Packrat.Proofs.Tracker.Record

/-!
# Positions of a session

The input is read only between two of its characters.  Main statement: a course that executes plans
of literals, classes and characters, that sets the cursor only to positions which it has seen, and
that has room for the failures which it records, comes to its end, and leaves every position that
the session holds between two characters (`runAll_within`).
-/

namespace Packrat

open Text

namespace Text

theorem isBoundary_max {p q : Nat} {cs : Text} (hp : isBoundary p cs = true)
    (hq : isBoundary q cs = true) : isBoundary (max p q) cs = true := by
  rcases Nat.le_total p q with h | h
  · rwa [Nat.max_eq_right h]
  · rwa [Nat.max_eq_left h]

end Text

theorem isBoundary_headOf {input rest : Text} {pos : Nat} (hrest : readFrom input pos = .ok rest)
    (accepted : Bool) (count : Nat) :
    isBoundary (headOf accepted count pos rest).pos input = true := by
  obtain ⟨before, rfl, rfl⟩ := readFrom_eq_ok_iff.1 hrest
  rw [isBoundary_iff]
  cases accepted with
  | false => exact ⟨before, rest, rfl, rfl⟩
  | true =>
      refine ⟨before ++ rest.take count, rest.drop count, ?_, ?_⟩
      · rw [List.append_assoc, List.take_append_drop]
      · simp [headOf]

/-- The plans that there are of literals, classes and characters, over the registers that there
are. -/
inductive MatchPlan.Compiled : MatchPlan → Prop
  | ofLiteral (value : String) (ignoreCase : Bool) {reg : Reg} :
      reg.index < Registers.count → Compiled (.ofLiteral value ignoreCase reg)
  | ofClass (cls : CharClass) (small : Bool) {reg : Reg} :
      reg.index < Registers.count → Compiled (.ofClass cls reg small)
  | any {reg : Reg} : reg.index < Registers.count → Compiled (.any reg)
  | never {reg : Reg} : reg.index < Registers.count → Compiled (.never reg)

/-- Such a plan matches the head of the remaining input or nothing. -/
theorem MatchPlan.Compiled.exec_eq {plan : MatchPlan} (h : plan.Compiled) {input rest : Text}
    {pos : Nat} (hrest : readFrom input pos = .ok rest) :
    ∃ accepted count, plan.exec input pos = .ok (headOf accepted count pos rest) := by
  cases h with
  | ofLiteral value ignoreCase hreg =>
      exact ⟨_, _, exec_ofLiteral_eq value ignoreCase hreg hrest⟩
  | ofClass cls small hreg =>
      exact ⟨_, 1, oneChar_eq_headOf _ pos rest ▸ exec_ofClass_eq cls small hreg hrest⟩
  | any hreg => exact ⟨_, 1, oneChar_eq_headOf _ pos rest ▸ exec_any hreg hrest⟩
  | never hreg => exact ⟨_, 1, oneChar_eq_headOf _ pos rest ▸ exec_never _ input rest pos⟩

variable {V R : Type}

namespace Session

/-- Every position that a session over an input holds is between two characters of the input. -/
structure Within (s : Session V R) (input : Text) : Prop where
  input_eq : s.input = input
  pos : isBoundary s.pos input = true
  next : ∀ key entry, s.memo.find? key = some entry → isBoundary entry.next input = true
  furthest : isBoundary s.failure.furthest input = true

variable {input : Text} {s ended : Session V R}

theorem within_start [Inhabited R] (input : String) :
    (start input : Session V R).Within input.toList where
  input_eq := rfl
  pos := isBoundary_zero _
  next := by
    intro key entry h
    cases h
  furthest := isBoundary_zero _

theorem Within.setPos (h : s.Within input) {pos : Nat} (hpos : isBoundary pos input = true) :
    (s.setPos pos).Within input :=
  ⟨h.input_eq, hpos, h.next, h.furthest⟩

theorem Within.rest (h : s.Within input) : ∃ rest, s.rest = .ok rest :=
  rest_of_isBoundary (h.input_eq ▸ h.pos)

theorem Within.exec (h : s.Within input) {plan : MatchPlan} (hplan : plan.Compiled) :
    ∃ matched after, s.exec plan = .ok (matched, after) ∧ after.Within input := by
  obtain ⟨rest, hrest⟩ := h.rest
  obtain ⟨accepted, count, hexec⟩ := hplan.exec_eq hrest
  refine ⟨_, _, by rw [Session.exec, hexec]; rfl, h.setPos ?_⟩
  exact h.input_eq ▸ isBoundary_headOf hrest accepted count

theorem Within.note (h : s.Within input) (index : Nat) : (s.note index).Within input where
  input_eq := h.input_eq
  pos := h.pos
  next := h.next
  furthest := by
    rw [Session.note, Tracker.furthest_note]
    exact isBoundary_max h.furthest h.pos

theorem Within.replay [ToString R] (h : s.Within input) {slot : Nat} {refs : List Nat}
    {entry : MemoEntry V R} (hfind : s.memo.find? (s.memoKey slot refs) = some entry) :
    (s.replay refs entry).Within input :=
  ⟨h.input_eq, h.next _ entry hfind, h.next, h.furthest⟩

theorem Within.keep [BEq R] [ToString R] (h : ended.Within input) (s : Session V R) (slot : Nat)
    (refs : List Nat) (result : Option V) : (s.keep ended slot refs result).Within input where
  input_eq := h.input_eq
  pos := h.pos
  next := by
    intro key entry hfind
    rw [Session.keep, Memo.find?_store] at hfind
    split at hfind
    · cases hfind
      exact h.pos
    · exact h.next key entry hfind
  furthest := h.furthest

theorem Within.finish (h : s.Within input) {result : Option V} {table : ExpectationTable}
    {e : ParseError} (hfinish : s.finish result table = .error e) :
    isBoundary e.offset input = true := by
  have hend : isBoundary (s.failure.failEnd s.pos).furthest input = true := by
    rw [Tracker.furthest_failEnd]
    exact isBoundary_max h.furthest h.pos
  cases result with
  | none =>
      obtain rfl : .ofTracker s.input s.failure table = e := Except.error.inj hfinish
      exact h.furthest
  | some value =>
      by_cases hat : s.atEnd = true
      · simp [Session.finish, hat] at hfinish
      · obtain rfl : .ofTracker s.input (s.failure.failEnd s.pos) table = e := by
          simpa [Session.finish, hat] using hfinish
        exact hend

end Session

/-- A run that comes to its end with all moments within an input. -/
def EndsWithin (input : Text) (run : Except Fault (List (Moment V R) × Session V R)) : Prop :=
  ∃ trace last, run = .ok (trace, last) ∧ (∀ moment ∈ trace, moment.after.Within input) ∧
    last.Within input

theorem EndsWithin.single {input : Text} {moment : Moment V R} (h : moment.after.Within input) :
    EndsWithin input (.ok ([moment], moment.after)) :=
  ⟨[moment], moment.after, rfl, List.forall_mem_singleton.2 h, h⟩

variable [BEq R] [ToString R]

mutual

/-- Whether an operation executes only plans of literals, classes and characters, sets the cursor
only to positions that were seen, and records only failures that there is room for, also in the
bodies that it runs. -/
def Operation.Tame (seen : List Nat) (s : Session V R) : Operation V R → Prop
  | .exec plan => plan.Compiled
  | .fail index => s.failure.HasRoom ⟨s.pos, index⟩
  | .setPos pos => pos ∈ seen
  | .call slot refs body _ =>
    s.memo.find? (s.memoKey slot refs) = none → Operation.TameAll seen s body
  | _ => True

/-- Whether all of some operations are such, where the positions after an operation are seen by the
later ones. -/
def Operation.TameAll (seen : List Nat) (s : Session V R) : List (Operation V R) → Prop
  | [] => True
  | op :: ops =>
    op.Tame seen s ∧ ∀ trace after, op.run s = .ok (trace, after) →
      Operation.TameAll (seen ++ trace.map (·.after.pos)) after ops

end

variable {input : Text}

namespace Operation

mutual

theorem run_within {seen : List Nat} {s : Session V R} (hs : s.Within input)
    (hseen : ∀ pos ∈ seen, isBoundary pos input = true) :
    ∀ op : Operation V R, op.Tame seen s → EndsWithin input (op.run s)
  | .exec plan, htame => by
      rw [Tame] at htame
      obtain ⟨matched, after, hexec, hafter⟩ := hs.exec htame
      rw [run, hexec]
      exact .single hafter
  | .fail index, htame => by
      rw [Tame] at htame
      rw [run, Session.fail_eq_ok_iff.2 ⟨htame, rfl⟩]
      exact .single (hs.note index)
  | .failSilently, _ => by
      rw [run]
      exact .single ⟨hs.input_eq, hs.pos, hs.next, hs.furthest⟩
  | .rest, _ => by
      obtain ⟨rest, hrest⟩ := hs.rest
      rw [run, hrest]
      exact .single hs
  | .setPos pos, htame => by
      rw [Tame] at htame
      rw [run]
      exact .single (hs.setPos (hseen pos htame))
  | .makeCell value, _ => by
      rw [run]
      exact .single ⟨hs.input_eq, hs.pos, hs.next, hs.furthest⟩
  | .setCell cell value, _ => by
      rw [run]
      exact .single ⟨hs.input_eq, hs.pos, hs.next, hs.furthest⟩
  | .call slot refs body result, htame => by
      rw [Tame] at htame
      cases hfind : s.memo.find? (s.memoKey slot refs) with
      | some entry =>
          rw [run_call_of_find? hfind]
          exact .single (hs.replay hfind)
      | none =>
          obtain ⟨inner, ended, hrun, hinner, hended⟩ := runAll_within hs hseen body (htame hfind)
          rw [run_call_of_find?_eq_none hfind, hrun]
          have hkeep := hended.keep s slot refs result
          exact ⟨_, _, rfl,
            List.forall_mem_append.2 ⟨hinner, List.forall_mem_singleton.2 hkeep⟩, hkeep⟩

theorem runAll_within {seen : List Nat} {s : Session V R} (hs : s.Within input)
    (hseen : ∀ pos ∈ seen, isBoundary pos input = true) :
    ∀ ops : List (Operation V R), TameAll seen s ops → EndsWithin input (runAll s ops)
  | [], _ => by
      rw [runAll]
      exact ⟨_, _, rfl, by simp, hs⟩
  | op :: ops, htame => by
      rw [TameAll] at htame
      obtain ⟨first, after, hfirst, hmoments, hafter⟩ := run_within hs hseen op htame.1
      have hnew : ∀ pos ∈ first.map (·.after.pos), isBoundary pos input = true := by
        intro pos hpos
        obtain ⟨moment, hmoment, rfl⟩ := List.mem_map.1 hpos
        exact (hmoments moment hmoment).pos
      obtain ⟨later, last, hlater, hmoments', hlast⟩ :=
        runAll_within hafter (List.forall_mem_append.2 ⟨hseen, hnew⟩) ops
          (htame.2 first after hfirst)
      exact ⟨first ++ later, last, runAll_cons_eq_ok.2 ⟨first, after, later, hfirst, hlater, rfl⟩,
        List.forall_mem_append.2 ⟨hmoments, hmoments'⟩, hlast⟩

end

/-- From the start of an input a tame course reaches its end.  After each of its operations every
position that the session holds is between two characters, and so is the offset of an error that it
ends with. -/
theorem runAll_start_within [Inhabited R] (text : String) {ops : List (Operation V R)}
    (htame : TameAll [0] (.start text) ops) (result : Option V) (table : ExpectationTable) :
    ∃ trace last, runAll (.start text) ops = .ok (trace, last) ∧
      (∀ moment ∈ trace, moment.after.Within text.toList) ∧ last.Within text.toList ∧
      ∀ e, last.finish result table = .error e → isBoundary e.offset text.toList = true := by
  have hstart : (Session.start text : Session V R).Within text.toList := Session.within_start text
  obtain ⟨trace, last, hrun, hmoments, hlast⟩ :=
    runAll_within hstart (List.forall_mem_singleton.2 hstart.pos) ops htame
  exact ⟨trace, last, hrun, hmoments, hlast, fun _ hfinish => hlast.finish hfinish⟩

theorem TameAll.cons {seen : List Nat} {s after : Session V R} {op : Operation V R}
    {ops : List (Operation V R)} {trace : List (Moment V R)} (htame : op.Tame seen s)
    (hrun : op.run s = .ok (trace, after))
    (hops : TameAll (seen ++ trace.map (·.after.pos)) after ops) : TameAll seen s (op :: ops) := by
  rw [TameAll]
  refine ⟨htame, ?_⟩
  intro trace' after' hrun'
  cases hrun.symm.trans hrun'
  exact hops

end Operation

namespace BoundaryWitness

/-- The body of slot 0.  It calls slot 1. -/
def body : List (Operation Unit Bool) :=
  [.exec (.any ⟨0⟩), .fail 3, .call 1 [] [.exec (.ofLiteral "a" false ⟨1⟩)] none]

/-- The second call of slot 0 is answered by what the first one left, so its body is not done. -/
def course : List (Operation Unit Bool) :=
  [.call 0 [0] body (some ()), .setPos 0, .call 0 [0] [.setPos 1] none, .setPos 2, .rest]

/-- The session over `éa` with the cursor at a position after the failure. -/
def session (pos : Nat) (memo : Memo Unit Bool) : Session Unit Bool :=
  ⟨['é', 'a'], pos, memo, ⟨2, [3], false⟩, .empty⟩

/-- What is kept of the calls of slot 1 and slot 0. -/
def kept : Memo Unit Bool :=
  ⟨[(⟨0, 0, ["false"]⟩, ⟨3, some (), [none]⟩), (⟨1, 2, []⟩, ⟨3, none, []⟩)]⟩

theorem tame_body : Operation.TameAll [0] (.start "éa") body := by
  have hexec : (Operation.exec (V := Unit) (R := Bool) (.any ⟨0⟩)).run (.start "éa") =
      .ok ([.done ((Session.start "éa").setPos 2)], (Session.start "éa").setPos 2) := rfl
  have hfail : (Operation.fail (V := Unit) (R := Bool) 3).run ((Session.start "éa").setPos 2) =
      .ok ([.done (session 2 .empty)], session 2 .empty) := rfl
  refine .cons (.any (by decide)) hexec (.cons (.inr (by decide)) hfail ?_)
  rw [Operation.TameAll]
  refine ⟨fun _ => ?_, fun _ _ _ => trivial⟩
  rw [Operation.TameAll]
  exact ⟨.ofLiteral "a" false (by decide), fun _ _ _ => trivial⟩

theorem tame_course : Operation.TameAll [0] (.start "éa") course := by
  have hcall : ∃ later, (Operation.call 0 [0] body (some ())).run (.start "éa") =
      .ok (.done ((Session.start "éa").setPos 2) :: later, session 3 kept) := ⟨_, rfl⟩
  have hback : (Operation.setPos 0).run (session 3 kept) =
      .ok ([.done (session 0 kept)], session 0 kept) := rfl
  have hreplay : (Operation.call 0 [0] [.setPos 1] none).run (session 0 kept) =
      .ok ([.replayed ⟨0, [0], session 0 kept⟩ (session 3 kept)], session 3 kept) := rfl
  obtain ⟨later, hcall⟩ := hcall
  refine .cons (fun _ => tame_body) hcall (.cons ?_ hback (.cons ?_ hreplay ?_))
  · simp [Operation.Tame]
  · intro h
    cases h
  · simp [Operation.TameAll, Operation.Tame, Moment.after, Session.setPos]

theorem runAll_course :
    Operation.TameAll [0] (.start "éa") course ∧
      ∃ trace last, Operation.runAll (.start "éa") course = .ok (trace, last) ∧
        (∀ moment ∈ trace, moment.after.Within ['é', 'a']) ∧ last.Within ['é', 'a'] ∧
        ∀ e, last.finish none .empty = .error e → isBoundary e.offset ['é', 'a'] = true :=
  ⟨tame_course, Operation.runAll_start_within "éa" tame_course none .empty⟩

/-- There is no room for the greatest number of 64 bits. -/
theorem runAll_fail_greatest :
    Operation.runAll (Session.start "" : Session Unit Bool) [.fail (Tracker.sizeLimit - 1)] =
      .error (.badIndex (Tracker.sizeLimit - 1)) := rfl

end BoundaryWitness

end Packrat
