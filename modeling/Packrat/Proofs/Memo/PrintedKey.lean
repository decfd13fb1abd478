import Mathlib.Data.List.Forall2
import Packrat.Parse.Value
import Packrat.Proofs.Parse.Course

/-!
# Printed keys

A result is kept under the printed values of the cells of its call.  Main statement: a call is only
ever answered by the result of a call with equal values if and only if values that print alike are
equal (`replays_same_arguments_iff`).  Numbers and texts print alike.
-/

namespace Packrat

variable {V R : Type}

/-- The call that a moment keeps under a key, and the session then. -/
def Moment.keeps? [ToString R] (key : MemoKey) :
    Moment V R → Option (Invocation V R × Session V R)
  | kept made after => if made.key = key then some (made, after) else none
  | done _ | replayed _ _ => none

/-- The last call in a history that was kept under a key. -/
def keeper? [ToString R] (history : List (Moment V R)) (key : MemoKey) :
    Option (Invocation V R × Session V R) :=
  history.reverse.findSome? (·.keeps? key)

/-- Calls of the same slot from the same position whose cells hold equal values. -/
structure Invocation.SameArguments [BEq R] (made other : Invocation V R) : Prop where
  slot : made.slot = other.slot
  pos : made.before.pos = other.before.pos
  values : List.Forall₂ (fun a b => (a == b) = true) made.values other.values

/-- What is kept for a call is what the last call under its key left. -/
structure ComesFrom [ToString R] (history : List (Moment V R)) (made : Invocation V R)
    (stored : Invocation V R × Session V R) : Prop where
  keeper : keeper? history made.key = some stored
  entry : made.before.memo.find? made.key = stored.2.memo.find? made.key

/-- Every call of a history that was answered by a kept result had the arguments of the call that
the result comes from. -/
def AnsweredAlike [BEq R] [ToString R] (history : List (Moment V R)) : Prop :=
  ∀ earlier made after later, history = earlier ++ .replayed made after :: later →
    ∃ stored, ComesFrom earlier made stored ∧ stored.1.SameArguments made

section

variable [ToString R] {history trace : List (Moment V R)} {key : MemoKey}

theorem keeper?_append :
    keeper? (history ++ trace) key = (keeper? trace key).or (keeper? history key) := by
  simp [keeper?, List.findSome?_append]

theorem key_of_keeper? {stored : Invocation V R × Session V R}
    (h : keeper? history key = some stored) : stored.1.key = key := by
  obtain ⟨moment, -, hkeeps⟩ := List.exists_of_findSome?_eq_some h
  cases moment with
  | done after => cases hkeeps
  | replayed made after => cases hkeeps
  | kept made after =>
      by_cases hkey : made.key = key
      · obtain rfl : (made, after) = stored := by simpa [Moment.keeps?, hkey] using hkeeps
        exact hkey
      · simp [Moment.keeps?, hkey] at hkeeps

/-- Every result that a session holds is the one of the last call that was kept under its key. -/
def Accounted (history : List (Moment V R)) (s : Session V R) : Prop :=
  ∀ key entry, s.memo.find? key = some entry →
    ∃ stored, keeper? history key = some stored ∧ stored.2.memo.find? key = some entry

/-- Every call that was answered by a kept result has a call before it that the
result comes from. -/
def Preceded (history trace : List (Moment V R)) : Prop :=
  ∀ earlier made after later, trace = earlier ++ .replayed made after :: later →
    ∃ stored, ComesFrom (history ++ earlier) made stored

theorem Accounted.snoc {s after : Session V R} {moment : Moment V R} (h : Accounted history s)
    (hmoment : ∀ key, moment.keeps? key = none) (hmemo : after.memo = s.memo) :
    Accounted (history ++ [moment]) after := by
  intro key entry hfind
  rw [hmemo] at hfind
  have hnone : keeper? [moment] key = none := by simp [keeper?, hmoment]
  rw [keeper?_append, hnone, Option.none_or]
  exact h key entry hfind

theorem Preceded.append {later : List (Moment V R)} (hfirst : Preceded history trace)
    (hlater : Preceded (history ++ trace) later) : Preceded history (trace ++ later) := by
  intro earlier made after rest h
  rcases eq_of_append_eq h with ⟨between, hbetween⟩ | ⟨between, rfl, hbetween⟩
  · exact hfirst earlier made after between hbetween
  · rw [← List.append_assoc]
    exact hlater between made after rest hbetween

theorem preceded_singleton {moment : Moment V R}
    (h : ∀ made after, moment = .replayed made after → ∃ stored, ComesFrom history made stored) :
    Preceded history [moment] := by
  intro earlier made after later heq
  obtain ⟨rfl, hmoment, -⟩ := eq_of_singleton_eq heq
  simpa using h made after hmoment

end

section

variable [BEq R] [ToString R]

/-- A run adds what it keeps to the account of a session. -/
theorem runInvariant_accounted :
    RunInvariant fun (s : Session V R) trace last => ∀ history, Accounted history s →
      Accounted (history ++ trace) last ∧ Preceded history trace where
  nil := by
    intro s history h
    rw [List.append_nil]
    refine ⟨h, ?_⟩
    intro earlier made after later heq
    simp at heq
  append := by
    intro s after last first later hfirst hlater history h
    obtain ⟨hafter, hpreceded⟩ := hfirst history h
    obtain ⟨hlast, hpreceded'⟩ := hlater (history ++ first) hafter
    rw [← List.append_assoc]
    exact ⟨hlast, hpreceded.append hpreceded'⟩
  done := by
    intro s after _ hmemo history h
    refine ⟨h.snoc (fun _ => rfl) hmemo, preceded_singleton ?_⟩
    intro made after' heq
    cases heq
  kept := by
    intro s ended slot refs inner result _ hinner history h
    obtain ⟨hended, hpreceded⟩ := hinner history h
    have hlast : Preceded (history ++ inner)
        [.kept ⟨slot, refs, s⟩ (s.keep ended slot refs result)] := by
      apply preceded_singleton
      intro made after heq
      cases heq
    refine ⟨?_, hpreceded.append hlast⟩
    intro key entry hfind
    rw [← List.append_assoc, keeper?_append]
    by_cases hkey : key = s.memoKey slot refs
    · subst hkey
      refine ⟨(⟨slot, refs, s⟩, s.keep ended slot refs result), ?_, hfind⟩
      simp [keeper?, Moment.keeps?, Invocation.key]
    · have hnone : keeper? [.kept ⟨slot, refs, s⟩ (s.keep ended slot refs result)] key = none := by
        simp [keeper?, Moment.keeps?, Invocation.key, Ne.symm hkey]
      rw [Session.keep, Memo.find?_store, if_neg hkey] at hfind
      rw [hnone, Option.none_or]
      exact hended key entry hfind
  replayed := by
    intro s slot refs entry hfind history h
    refine ⟨h.snoc (fun _ => rfl) rfl, preceded_singleton ?_⟩
    intro made after heq
    cases heq
    obtain ⟨stored, hstored, hentry⟩ := h _ entry hfind
    exact ⟨stored, hstored, hfind.trans hentry.symm⟩

/-- Calls with one key have the same arguments where values that print alike are equal. -/
theorem sameArguments_of_key_eq (hprint : ∀ a b : R, toString a = toString b → (a == b) = true)
    {made other : Invocation V R} (h : made.key = other.key) : made.SameArguments other := by
  obtain ⟨hslot, hpos, hrefs⟩ := MemoKey.mk.inj h
  refine ⟨hslot, hpos, ?_⟩
  have hprinted : made.values.map toString = other.values.map toString := by
    simpa [Invocation.values, Function.comp_def] using hrefs
  rw [← List.forall₂_eq_eq_eq, List.forall₂_map_left_iff, List.forall₂_map_right_iff] at hprinted
  exact hprinted.imp hprint

/-- Two calls of slot 0 from the start of the empty input, with a cell that is set between them. -/
def twice (a b : R) : List (Operation V R) :=
  [.setCell 0 a, .call 0 [0] [] none, .setCell 0 b, .call 0 [0] [] none]

/-- If the two values print alike, the second call is answered by the first. -/
theorem runAll_twice [Inhabited R] {a b : R} (hprint : toString a = toString b) :
    ∃ before after between last : Session V R,
      Operation.runAll (.start "") (twice a b) =
        .ok ([.done before, .kept ⟨0, [0], before⟩ after, .done between,
          .replayed ⟨0, [0], between⟩ last], last) ∧
      before.cells.read 0 = a ∧ between.cells.read 0 = b := by
  let before : Session V R := (Session.start "").setCell 0 a
  let after := before.keep before 0 [0] none
  let between := after.setCell 0 b
  have hkey : between.memoKey 0 [0] = before.memoKey 0 [0] := by
    simp [before, between, after, Session.memoKey, Session.keep, Session.setCell, hprint]
  have hcall : (Operation.call 0 [0] [] none).run before =
      .ok ([.kept ⟨0, [0], before⟩ after], after) :=
    Operation.run_call_of_find?_eq_none rfl [] none
  have hfind : between.memo.find? (between.memoKey 0 [0]) =
      some (before.entryOf before [0] none) := by
    rw [hkey]
    exact (Memo.find?_store ..).trans (if_pos rfl)
  have hagain := Operation.run_call_of_find? hfind [] none
  refine ⟨before, after, between, between.replay [0] (before.entryOf before [0] none), ?_,
    Cells.read_write_self .., Cells.read_write_self ..⟩
  simp only [twice, Operation.runAll_cons_eq_ok]
  refine ⟨[.done before], before, _, rfl, ?_, rfl⟩
  refine ⟨[.kept ⟨0, [0], before⟩ after], after, _, hcall, ?_, rfl⟩
  refine ⟨[.done between], between, _, rfl, ?_, rfl⟩
  exact ⟨_, _, [], hagain, rfl, rfl⟩

theorem beq_of_answeredAlike {before after between last : Session V R}
    (h : AnsweredAlike [.done before, .kept ⟨0, [0], before⟩ after, .done between,
      .replayed ⟨0, [0], between⟩ last]) :
    (before.cells.read 0 == between.cells.read 0) = true := by
  obtain ⟨stored, ⟨hstored, -⟩, hsame⟩ := h [_, _, _] _ _ [] rfl
  have hbefore : stored.1 = ⟨0, [0], before⟩ := by
    by_cases hkey : Invocation.key ⟨0, [0], before⟩ = Invocation.key ⟨0, [0], between⟩
    · obtain rfl : (⟨0, [0], before⟩, after) = stored := by
        simpa [keeper?, Moment.keeps?, hkey] using hstored
      rfl
    · simp [keeper?, Moment.keeps?, hkey] at hstored
  have hvalues := hsame.values
  simpa [hbefore, Invocation.values] using hvalues

/-- Whatever is done from the start of an input, calls are only answered by the results of calls
with equal arguments, if and only if values that print alike are equal. -/
theorem replays_same_arguments_iff [Inhabited R] :
    (∀ (text : String) (ops : List (Operation V R)) (trace : List (Moment V R))
        (last : Session V R), Operation.runAll (.start text) ops = .ok (trace, last) →
        AnsweredAlike trace) ↔
      ∀ a b : R, toString a = toString b → (a == b) = true := by
  constructor
  · intro h a b hprint
    obtain ⟨before, after, between, last, hrun, rfl, rfl⟩ := runAll_twice (V := V) hprint
    exact beq_of_answeredAlike (h _ _ _ _ hrun)
  · intro hprint text ops trace last hrun earlier made after later heq
    have haccounted : Accounted ([] : List (Moment V R)) (.start text) := by
      intro key entry hfind
      cases hfind
    obtain ⟨-, hpreceded⟩ := runInvariant_accounted.runAll ops hrun [] haccounted
    obtain ⟨stored, hstored⟩ := hpreceded earlier made after later heq
    rw [List.nil_append] at hstored
    exact ⟨stored, hstored, sameArguments_of_key_eq hprint (key_of_keeper? hstored.keeper)⟩

end

/-- A call with a text is answered by the result of a call with a number. -/
theorem not_answeredAlike_int_text :
    ∃ trace last,
      Operation.runAll (.start "") (twice (V := Unit) (Value.int 1) (.text "1")) =
        .ok (trace, last) ∧ ¬ AnsweredAlike trace := by
  have hprint : toString (Value.int 1) = toString (Value.text "1") := rfl
  obtain ⟨before, after, between, last, hrun, hint, htext⟩ := runAll_twice (V := Unit) hprint
  refine ⟨_, last, hrun, ?_⟩
  intro halike
  have hequal := beq_of_answeredAlike halike
  rw [hint, htext] at hequal
  cases hequal

end Packrat
