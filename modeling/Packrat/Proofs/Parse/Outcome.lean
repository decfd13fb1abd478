import Packrat.Proofs.Parse.Course
import Packrat.Proofs.Tracker.Furthest

/-!
# Outcomes of a parse

A parse ends with a value, or with an error that tells of the failures on the way.  Main statement:
which failures a course records, whether its rule had a result and where it stopped decide the
outcome; neither the order of the failures nor their repetition matters (`finish_runAll`).
-/

namespace Packrat

open Text

namespace ParseError

/-- An error tells of failures in an input, and of a rule that succeeded but stopped before the
end. -/
structure Reports (e : ParseError) (input : Text) (table : ExpectationTable)
    (failures : List Failure) (stop : Option Nat) : Prop where
  offset : e.offset = furthestOf (failures.map (·.pos) ++ stop.toList)
  ascending : e.expected.Pairwise (· < ·)
  mem_expected : ∀ description, description ∈ e.expected ↔
    (∃ f ∈ failures, f.pos = e.offset ∧
      ∃ expectation, table.get? f.index = some expectation ∧ expectation.describe = description) ∨
    (stop = some e.offset ∧ description = endOfInput)
  found : ∀ c, e.found = some c ↔
    ∃ before after, input = before ++ c :: after ∧ byteLength before = e.offset

theorem charAt?_eq_some_iff {input : Text} {pos : Nat} {c : Char} :
    charAt? input pos = some c ↔
      ∃ before after, input = before ++ c :: after ∧ byteLength before = pos := by
  simp only [charAt?, dropBytes?, Option.bind_eq_some_iff, Option.map_eq_some_iff, Prod.exists,
    splitBytes?_eq_some_iff, List.head?_eq_some_iff]
  constructor
  · rintro ⟨_, ⟨before, _, ⟨hinput, hpos⟩, rfl⟩, after, rfl⟩
    exact ⟨before, after, hinput, hpos⟩
  · rintro ⟨before, after, hinput, hpos⟩
    exact ⟨_, ⟨before, _, ⟨hinput, hpos⟩, rfl⟩, after, rfl⟩

/-- An error tells what the tracker tells that it comes from. -/
theorem reports_ofTracker {t : Tracker} {failures : List Failure} {stop : Option Nat}
    (h : t.Tells failures stop) (input : Text) (table : ExpectationTable) :
    (ofTracker input t table).Reports input table failures stop where
  offset := h.furthest
  ascending := pairwise_ascending _
  mem_expected := by
    intro description
    have hend : description ∈ (if t.expectsEnd then [endOfInput] else []) ↔
        stop = some t.furthest ∧ description = endOfInput := by
      rw [← h.expectsEnd]
      by_cases hexpects : t.expectsEnd = true <;> simp [hexpects]
    simp only [ofTracker, mem_ascending, expectedBy, List.mem_append, List.mem_map,
      List.mem_filterMap, hend, h.mem_expected]
    refine or_congr_left ?_
    constructor
    · rintro ⟨expectation, ⟨i, ⟨f, hf, hpos, rfl⟩, hget⟩, rfl⟩
      exact ⟨f, hf, hpos, expectation, hget, rfl⟩
    · rintro ⟨f, hf, hpos, expectation, hget, rfl⟩
      exact ⟨expectation, ⟨f.index, ⟨f, hf, hpos, rfl⟩, hget⟩, rfl⟩
  found := fun _ => charAt?_eq_some_iff

end ParseError

namespace Operation

variable {V R : Type} [BEq R] [ToString R]

mutual

/-- The failures that an operation records, those in the body of a call included if it runs. -/
def failures (s : Session V R) : Operation V R → List Failure
  | .fail index => [⟨s.pos, index⟩]
  | .call slot refs body result =>
    let answer := s.callCached slot refs fun s =>
      (runAll s body).map fun (_, ended) => (failuresAll s body, result, ended)
    match answer with
    | .ok (some inner, _, _) => inner
    | _ => []
  | _ => []

/-- The failures that operations record one after another. -/
def failuresAll (s : Session V R) : List (Operation V R) → List Failure
  | [] => []
  | op :: ops =>
    op.failures s ++
      match op.run s with
      | .ok (_, after) => failuresAll after ops
      | .error _ => []

end

mutual

/-- The tracker takes in what is recorded, and nothing else. -/
theorem failure_of_run {s last : Session V R} {trace : List (Moment V R)} :
    ∀ op : Operation V R, op.run s = .ok (trace, last) →
      last.failure = s.failure.record (op.failures s) := by
  intro op h
  cases op with
  | fail index =>
      rw [run] at h
      obtain ⟨after, hfail, h⟩ := bind_eq_ok.1 h
      obtain ⟨-, rfl⟩ := Session.fail_eq_ok_iff.1 hfail
      cases h
      rfl
  | call slot refs body result =>
      obtain ⟨entry, hfind, -, rfl⟩ | ⟨inner, ended, hfind, hbody, -, rfl⟩ := cases_of_run_call h
      · simp [failures, Session.callCached, hfind, Session.replay]
      · have hinner := failure_of_runAll body hbody
        simpa [failures, Session.callCached, hfind, hbody, Except.map, Session.keep] using hinner
  | _ =>
      obtain ⟨-, -, -, hfailure⟩ := run_of_isCall_eq_false rfl h
      exact hfailure (by simp)

theorem failure_of_runAll {s last : Session V R} {trace : List (Moment V R)} :
    ∀ ops : List (Operation V R), runAll s ops = .ok (trace, last) →
      last.failure = s.failure.record (failuresAll s ops)
  | [], h => by
      cases h
      rfl
  | op :: ops, h => by
      obtain ⟨first, after, later, hfirst, hlater, rfl⟩ := runAll_cons_eq_ok.1 h
      rw [failure_of_runAll ops hlater, failure_of_run op hfirst, ← Tracker.record_append,
        failuresAll, hfirst]

end

/-- No operation changes the input. -/
theorem runInvariant_input : RunInvariant fun (s : Session V R) _ last => last.input = s.input where
  nil := fun _ => rfl
  append := fun hfirst hlater => hlater.trans hfirst
  done := fun hinput _ => hinput
  kept := fun _ _ hinner => hinner
  replayed := fun _ => rfl

end Operation

namespace Session

variable {V R : Type} {s : Session V R} {result : Option V} {table : ExpectationTable}

theorem finish_eq_ok_iff {value : V} :
    s.finish result table = .ok value ↔ result = some value ∧ byteLength s.input ≤ s.pos := by
  cases result with
  | none => simp [finish]
  | some found =>
      by_cases hend : byteLength s.input ≤ s.pos <;> simp [finish, atEnd, hend]

/-- The error of a parse tells of the failures that the tracker took in. -/
theorem reports_of_finish {failures : List Failure} (h : s.failure.Tells failures none)
    {e : ParseError} (hfinish : s.finish result table = .error e) :
    e.Reports s.input table failures (result.map fun _ => s.pos) := by
  cases result with
  | none =>
      obtain rfl : .ofTracker s.input s.failure table = e := Except.error.inj hfinish
      exact ParseError.reports_ofTracker h s.input table
  | some found =>
      by_cases hend : s.atEnd = true
      · simp [finish, hend] at hfinish
      · obtain rfl : .ofTracker s.input (s.failure.failEnd s.pos) table = e := by
          simpa [finish, hend] using hfinish
        exact ParseError.reports_ofTracker (h.failEnd s.pos) s.input table

end Session

namespace Operation

variable {V R : Type} [BEq R] [ToString R] [Inhabited R]

/-- From the start of an input a parse succeeds if its rule has a result and no input is left, and
otherwise its error tells of the recorded failures.  Courses that record the same failures and stop
at the same position have the same outcome. -/
theorem finish_runAll (text : String) {ops : List (Operation V R)} {trace : List (Moment V R)}
    {last : Session V R} (hrun : runAll (.start text) ops = .ok (trace, last)) (result : Option V)
    (table : ExpectationTable) :
    (∀ value, last.finish result table = .ok value ↔
      result = some value ∧ byteLength text.toList ≤ last.pos) ∧
    (∀ e, last.finish result table = .error e →
      e.Reports text.toList table (failuresAll (.start text) ops) (result.map fun _ => last.pos)) ∧
    ∀ (ops' : List (Operation V R)) (trace' : List (Moment V R)) (last' : Session V R),
      runAll (.start text) ops' = .ok (trace', last') → last'.pos = last.pos →
      (∀ f, f ∈ failuresAll (.start text) ops' ↔ f ∈ failuresAll (.start text) ops) →
      last'.finish result table = last.finish result table := by
  have hinput : last.input = text.toList := runInvariant_input.runAll ops hrun
  have hfailure : last.failure = Tracker.empty.record (failuresAll (.start text) ops) :=
    failure_of_runAll ops hrun
  refine ⟨?_, ?_, ?_⟩
  · intro value
    rw [Session.finish_eq_ok_iff, hinput]
  · intro e hfinish
    rw [← hinput]
    exact Session.reports_of_finish (hfailure ▸ Tracker.tells_record _) hfinish
  · intro ops' trace' last' hrun' hpos hsame
    have hinput' : last'.input = text.toList := runInvariant_input.runAll ops' hrun'
    have hfailure' : last'.failure = last.failure := by
      rw [hfailure, failure_of_runAll ops' hrun']
      exact Tracker.record_eq_of_mem_iff _ hsame
    cases result <;> simp [Session.finish, Session.atEnd, hinput, hinput', hpos, hfailure']

end Operation

namespace OutcomeWitness

def table : ExpectationTable :=
  .ofList [.other "b", .literal "a" false, .other "end of input"]

/-- The failure before the letter is passed by, and those after it are recorded three times. -/
def course : List (Operation Unit Bool) :=
  [.fail 0, .setPos 2, .fail 1, .failSilently, .fail 0, .fail 1, .setPos 1, .fail 2, .setPos 2]

/-- The same failures in another order, some of them in the body of a call. -/
def other : List (Operation Unit Bool) :=
  [.setPos 2, .call 0 [] [.fail 0, .fail 1, .setPos 1] none, .fail 2, .setPos 0, .fail 0, .setPos 2]

theorem mem_failures_iff (f : Failure) :
    f ∈ Operation.failuresAll (.start "éa") other ↔
      f ∈ Operation.failuresAll (.start "éa") course := by
  have hcourse : Operation.failuresAll (.start "éa") course =
      [⟨0, 0⟩, ⟨2, 1⟩, ⟨2, 0⟩, ⟨2, 1⟩, ⟨1, 2⟩] := rfl
  have hother : Operation.failuresAll (.start "éa") other =
      [⟨2, 0⟩, ⟨2, 1⟩, ⟨1, 2⟩, ⟨0, 0⟩] := rfl
  simp only [hcourse, hother, List.mem_cons, List.not_mem_nil]
  grind

theorem finish_course :
    ∃ trace last trace' last', Operation.runAll (.start "éa") course = .ok (trace, last) ∧
      Operation.runAll (.start "éa") other = .ok (trace', last') ∧
      (∃ e, last.finish (some ()) table = .error e ∧
        e.Reports ['é', 'a'] table (Operation.failuresAll (.start "éa") course) (some 2)) ∧
      last'.finish (some ()) table = last.finish (some ()) table := by
  obtain ⟨trace, last, hrun, hpos⟩ :
      ∃ trace last, Operation.runAll (.start "éa") course = .ok (trace, last) ∧ last.pos = 2 :=
    ⟨_, _, rfl, rfl⟩
  obtain ⟨trace', last', hrun', hpos'⟩ :
      ∃ trace last, Operation.runAll (.start "éa") other = .ok (trace, last) ∧ last.pos = 2 :=
    ⟨_, _, rfl, rfl⟩
  obtain ⟨hok, herror, hsame⟩ := Operation.finish_runAll "éa" hrun (some ()) table
  refine ⟨trace, last, trace', last', hrun, hrun', ?_, ?_⟩
  · cases hfinish : last.finish (some ()) table with
    | ok value =>
        have hend := ((hok value).1 hfinish).2
        rw [hpos] at hend
        exact absurd hend (by decide)
    | error e => exact ⟨e, rfl, by simpa [hpos] using herror e hfinish⟩
  · exact hsame other trace' last' hrun' (hpos'.trans hpos.symm) mem_failures_iff

end OutcomeWitness

end Packrat
