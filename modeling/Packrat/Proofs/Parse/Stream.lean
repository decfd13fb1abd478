import Packrat.Parse.Stream
import Packrat.Proofs.Parse.Boundary

/-!
# Runs of a stream

A stream is drawn from again and again.  It calls its rule at most once for each result, each time
on the session that the call before left, and no more once the rule has failed, has stayed where it
was or has come to the end of the input.  So a rule that never moves back gives no more values than
there are bytes left, and after them nothing for ever.  Main statement: `pull_runs_out`, which says
too that the values drawn by a plan join to the input that was consumed.
-/

namespace Packrat

open Text

variable {σ V R : Type}

/-- A call of the rule of a stream. -/
structure RuleCall (V R : Type) where
  before : Session V R
  result : Option V
  after : Session V R

/-- Calls of a rule, each with the state of the rule and on the session that the one before it left,
and none at the end of the input.  Only after a call that succeeded and moved the cursor there is
another. -/
inductive Consecutive (draw : σ → Session V R → Except Fault (σ × Option V × Session V R)) :
    σ → Session V R → List (RuleCall V R) → σ → Session V R → Prop
  | none {rule : σ} {session : Session V R} : Consecutive draw rule session [] rule session
  | last {rule next : σ} {session after : Session V R} {result : Option V} :
      session.atEnd = false → draw rule session = .ok (next, result, after) →
      Consecutive draw rule session [⟨session, result, after⟩] next after
  | more {rule next final : σ} {session after ended : Session V R} {value : V}
      {calls : List (RuleCall V R)} :
      session.atEnd = false → draw rule session = .ok (next, some value, after) →
      after.pos ≠ session.pos → Consecutive draw next after calls final ended →
      Consecutive draw rule session (⟨session, some value, after⟩ :: calls) final ended

namespace Stream

/-- A rule that keeps an account of its calls. -/
def recorded (draw : σ → Session V R → Except Fault (σ × Option V × Session V R))
    (rule : σ × List (RuleCall V R)) (session : Session V R) :
    Except Fault ((σ × List (RuleCall V R)) × Option V × Session V R) := do
  let (next, result, after) ← draw rule.1 session
  .ok ((next, rule.2 ++ [⟨session, result, after⟩]), result, after)

/-- A stream without the account of its rule. -/
def forget (s : Stream (σ × List (RuleCall V R)) V R) : Stream σ V R :=
  ⟨s.session, s.rule.1, s.done⟩

/-- Draws so many results. -/
def pull (draw : σ → Session V R → Except Fault (σ × Option V × Session V R)) :
    Nat → Stream σ V R → Except Fault (List (Option V) × Stream σ V R)
  | 0, s => .ok ([], s)
  | count + 1, s => do
    let (item, s) ← s.next draw
    let (items, s) ← pull draw count s
    .ok (item :: items, s)

variable {draw : σ → Session V R → Except Fault (σ × Option V × Session V R)}

section Steps

variable {s t : Stream σ V R} {count : Nat} {items : List (Option V)}

/-- The stream after a call of its rule. -/
def resume (s : Stream σ V R) (rule : σ) (result : Option V) (after : Session V R) :
    Stream σ V R :=
  ⟨after, rule, result.isNone || after.pos == s.session.pos⟩

/-- A stream has ended, also where its input has, or it calls its rule next. -/
theorem idle_or_live (s : Stream σ V R) :
    (s.done = true ∨ s.session.atEnd = true) ∨ (s.done = false ∧ s.session.atEnd = false) := by
  cases s.done <;> cases s.session.atEnd <;> simp

/-- A stream that has ended gives nothing more, and does not call its rule. -/
theorem pull_of_done (h : s.done = true) (count : Nat) :
    pull draw count s = .ok (List.replicate count none, s) := by
  have hnext : s.next draw = .ok (none, s) := by
    obtain ⟨session, rule, done⟩ := s
    cases h
    rfl
  induction count with
  | zero => rfl
  | succ count ih =>
      rw [pull, hnext]
      simp only [ok_bind, ih, List.replicate_succ]

theorem pull_of_idle (h : s.done = true ∨ s.session.atEnd = true) (count : Nat) :
    pull draw (count + 1) s =
      .ok (List.replicate (count + 1) none, { s with done := true }) := by
  have hnext : s.next draw = .ok (none, { s with done := true }) := if_pos (by simpa using h)
  rw [pull, hnext]
  simp only [ok_bind, pull_of_done (s := { s with done := true }) rfl, List.replicate_succ]

/-- A stream that has not ended calls its rule. -/
theorem pull_of_live (hdone : s.done = false) (hend : s.session.atEnd = false) (count : Nat) :
    pull draw (count + 1) s = (do
      let (rule, result, after) ← draw s.rule s.session
      let (items, last) ← pull draw count (s.resume rule result after)
      .ok (result :: items, last)) := by
  have hnext : s.next draw = (do
      let (rule, result, after) ← draw s.rule s.session
      .ok (result, s.resume rule result after)) := if_neg (by simp [hdone, hend])
  rw [pull, hnext]
  cases draw s.rule s.session <;> rfl

theorem pull_of_call (hdone : s.done = false) (hend : s.session.atEnd = false) {rule : σ}
    {result : Option V} {after : Session V R}
    (hdraw : draw s.rule s.session = .ok (rule, result, after))
    (hlater : pull draw count (s.resume rule result after) = .ok (items, t)) :
    pull draw (count + 1) s = .ok (result :: items, t) := by
  rw [pull_of_live hdone hend]
  simp only [hdraw, ok_bind, hlater]

/-- What a further draw gives: nothing, or the result of a call and what follows it. -/
theorem cases_of_pull_succ (h : pull draw (count + 1) s = .ok (items, t)) :
    ((s.done = true ∨ s.session.atEnd = true) ∧ items = List.replicate (count + 1) none ∧
        t = { s with done := true }) ∨
      (s.done = false ∧ s.session.atEnd = false ∧ ∃ rule result after later,
        draw s.rule s.session = .ok (rule, result, after) ∧
          pull draw count (s.resume rule result after) = .ok (later, t) ∧
          items = result :: later) := by
  rcases s.idle_or_live with hidle | ⟨hdone, hend⟩
  · rw [pull_of_idle hidle] at h
    cases h
    exact Or.inl ⟨hidle, rfl, rfl⟩
  · rw [pull_of_live hdone hend] at h
    obtain ⟨⟨rule, result, after⟩, hdraw, h⟩ := bind_eq_ok.1 h
    obtain ⟨⟨later, last⟩, hlater, h⟩ := bind_eq_ok.1 h
    cases h
    exact Or.inr ⟨hdone, hend, rule, result, after, later, hdraw, hlater, rfl⟩

/-- Only a call of the rule faults. -/
theorem exists_of_pull_eq_error {fault : Fault} (h : pull draw count s = .error fault) :
    ∃ rule session, draw rule session = .error fault := by
  induction count generalizing s with
  | zero => cases h
  | succ count ih =>
      rcases s.idle_or_live with hidle | ⟨hdone, hend⟩
      · rw [pull_of_idle hidle] at h
        cases h
      · rw [pull_of_live hdone hend] at h
        rcases bind_eq_error.1 h with hdraw | ⟨_, -, hlater⟩
        · exact ⟨_, _, hdraw⟩
        · rcases bind_eq_error.1 hlater with hlater | ⟨_, -, hitems⟩
          · exact ih hlater
          · cases hitems

/-- A rule that keeps to sessions on which it gives a result never faults. -/
theorem exists_pull_of_keeps {Kept : Session V R → Prop}
    (hkeeps : ∀ rule session, Kept session →
      ∃ next result after, draw rule session = .ok (next, result, after) ∧ Kept after)
    (hs : Kept s.session) (count : Nat) :
    ∃ items t, pull draw count s = .ok (items, t) := by
  induction count generalizing s with
  | zero => exact ⟨[], s, rfl⟩
  | succ count ih =>
      rcases s.idle_or_live with hidle | ⟨hdone, hend⟩
      · exact ⟨_, _, pull_of_idle hidle count⟩
      · obtain ⟨next, result, after, hdraw, hafter⟩ := hkeeps s.rule s.session hs
        obtain ⟨items, t, hlater⟩ := ih (s := s.resume next result after) hafter
        exact ⟨result :: items, t, pull_of_call hdone hend hdraw hlater⟩

end Steps

section Account

variable {count : Nat} {items : List (Option V)}

theorem recorded_eq_ok_iff {rule next : σ × List (RuleCall V R)} {session after : Session V R}
    {result : Option V} :
    recorded draw rule session = .ok (next, result, after) ↔
      draw rule.1 session = .ok (next.1, result, after) ∧
        next.2 = rule.2 ++ [⟨session, result, after⟩] := by
  unfold recorded
  rw [bind_eq_ok]
  constructor
  · rintro ⟨made, hdraw, hmade⟩
    cases hmade
    exact ⟨hdraw, rfl⟩
  · rintro ⟨hdraw, hnext⟩
    refine ⟨_, hdraw, ?_⟩
    simp only [← hnext]

/-- The account of a rule does not change what the stream gives. -/
theorem exists_pull_recorded {s : Stream (σ × List (RuleCall V R)) V R} {t : Stream σ V R}
    (h : pull draw count s.forget = .ok (items, t)) :
    ∃ ended, pull (recorded draw) count s = .ok (items, ended) ∧ ended.forget = t := by
  induction count generalizing s items with
  | zero =>
      cases h
      exact ⟨s, rfl, rfl⟩
  | succ count ih =>
      rcases cases_of_pull_succ h with ⟨hidle, rfl, rfl⟩ | ⟨hdone, hend, rule, result, after, later,
        hdraw, hlater, rfl⟩
      · exact ⟨_, pull_of_idle (s := s) hidle count, rfl⟩
      · have hmade : recorded draw s.rule s.session =
            .ok ((rule, s.rule.2 ++ [⟨s.session, result, after⟩]), result, after) :=
          recorded_eq_ok_iff.2 ⟨hdraw, rfl⟩
        obtain ⟨ended, hrest, hended⟩ := ih (s := s.resume (rule, _) result after) hlater
        exact ⟨ended, pull_of_call (s := s) hdone hend hmade hrest, hended⟩

end Account

/-- Where the rule succeeds it keeps the input and leaves the cursor no earlier than it was. -/
def Forward (draw : σ → Session V R → Except Fault (σ × Option V × Session V R)) : Prop :=
  ∀ rule session next value after, draw rule session = .ok (next, some value, after) →
    after.input = session.input ∧ session.pos ≤ after.pos

/-- What drawing from a stream gives: first values, not more than bytes are left, and then nothing
for ever.  The calls of the rule are those that its account gains. -/
structure Drawn (draw : σ → Session V R → Except Fault (σ × Option V × Session V R))
    (s : Stream (σ × List (RuleCall V R)) V R) (values : List V) (more : Nat)
    (calls : List (RuleCall V R)) (t : Stream (σ × List (RuleCall V R)) V R) : Prop where
  length_le : values.length ≤ byteLength s.session.input - s.session.pos
  account : t.rule.2 = s.rule.2 ++ calls
  consecutive : Consecutive draw s.rule.1 s.session calls t.rule.1 t.session
  results : calls.filterMap (·.result) = values
  ended : 0 < more → ∀ count, pull (recorded draw) count t = .ok (List.replicate count none, t)

section Draws

variable {s t : Stream (σ × List (RuleCall V R)) V R} {next : σ × List (RuleCall V R)}
  {result : Option V} {after : Session V R} {value : V}

theorem drawn_of_idle (s : Stream (σ × List (RuleCall V R)) V R) (more : Nat) :
    Drawn draw s [] more [] { s with done := true } :=
  ⟨Nat.zero_le _, by simp, .none, rfl, fun _ => pull_of_done rfl⟩

/-- A call that is the last one of a stream. -/
theorem drawn_of_last (hend : s.session.atEnd = false)
    (hdraw : recorded draw s.rule s.session = .ok (next, result, after))
    (hdone : (s.resume next result after).done = true) (more : Nat) :
    Drawn draw s result.toList more [⟨s.session, result, after⟩] (s.resume next result after) := by
  obtain ⟨hmade, haccount⟩ := recorded_eq_ok_iff.1 hdraw
  refine ⟨?_, haccount, .last hend hmade, ?_, fun _ => pull_of_done hdone⟩
  · simp only [Session.atEnd, decide_eq_false_iff_not] at hend
    have hlength : result.toList.length ≤ 1 := by
      cases result <;> simp
    omega
  · cases result <;> rfl

/-- A call that succeeds and moves the cursor takes at least one of the bytes that are left. -/
theorem Drawn.cons (hforward : Forward draw) (hend : s.session.atEnd = false)
    (hdraw : recorded draw s.rule s.session = .ok (next, some value, after))
    (hmoved : after.pos ≠ s.session.pos) {values : List V} {more : Nat}
    {calls : List (RuleCall V R)}
    (hlater : Drawn draw (s.resume next (some value) after) values more calls t) :
    Drawn draw s (value :: values) more (⟨s.session, some value, after⟩ :: calls) t := by
  obtain ⟨hmade, haccount⟩ := recorded_eq_ok_iff.1 hdraw
  obtain ⟨hinput, hpos⟩ := hforward _ _ _ _ _ hmade
  refine ⟨?_, ?_, .more hend hmade hmoved hlater.consecutive, ?_, hlater.ended⟩
  · have hlength := hlater.length_le
    simp only [resume, hinput] at hlength
    simp only [Session.atEnd, decide_eq_false_iff_not] at hend
    simp only [List.length_cons]
    omega
  · rw [hlater.account, resume, haccount, List.append_assoc, List.singleton_append]
  · rw [← hlater.results]
    rfl

theorem drawn_of_pull (hforward : Forward draw) {count : Nat} {items : List (Option V)}
    (h : pull (recorded draw) count s = .ok (items, t)) :
    ∃ values more calls, items = values.map some ++ List.replicate more none ∧
      values.length + more = count ∧ Drawn draw s values more calls t := by
  induction count generalizing s items with
  | zero =>
      cases h
      exact ⟨[], 0, [], rfl, rfl, Nat.zero_le _, by simp, .none, rfl, by simp⟩
  | succ count ih =>
      rcases cases_of_pull_succ h with ⟨-, rfl, rfl⟩ | ⟨-, hend, next, result, after, later, hdraw,
        hlater, rfl⟩
      · exact ⟨[], count + 1, [], rfl, Nat.zero_add _, drawn_of_idle s _⟩
      · by_cases hdone : (s.resume next result after).done = true
        · rw [pull_of_done hdone] at hlater
          cases hlater
          cases result with
          | none => exact ⟨_, count + 1, _, rfl, Nat.zero_add _, drawn_of_last hend hdraw hdone _⟩
          | some value =>
              exact ⟨_, count, _, rfl, Nat.add_comm .., drawn_of_last hend hdraw hdone _⟩
        · cases result with
          | none => exact absurd rfl hdone
          | some value =>
              have hmoved : after.pos ≠ s.session.pos := by simpa [resume] using hdone
              obtain ⟨values, more, calls, rfl, hcount, hdrawn⟩ := ih hlater
              refine ⟨value :: values, more, _, rfl, ?_, hdrawn.cons hforward hend hdraw hmoved⟩
              rw [List.length_cons, ← hcount]
              omega

end Draws

end Stream

/-! ### Streams of a plan -/

/-- The rule that executes a plan. -/
def MatchPlan.draw (plan : MatchPlan) (rule : Unit) (s : Session Text R) :
    Except Fault (Unit × Option Text × Session Text R) := do
  let (matched, after) ← s.exec plan
  .ok (rule, matched, after)

section Plan

variable {plan : MatchPlan} {input text : Text} {pos stop : Nat}

/-- A plan that matches consumes what lies between the cursor before and after. -/
theorem MatchPlan.read_of_exec (h : plan.exec input pos = .ok ⟨some text, stop⟩) :
    readBetween input pos stop = .ok text := by
  obtain ⟨loaded, -, h⟩ := bind_eq_ok.1 h
  obtain ⟨passed, -, h⟩ := bind_eq_ok.1 h
  cases passed with
  | false => cases h
  | true =>
      obtain ⟨final, -, h⟩ := bind_eq_ok.1 h
      obtain ⟨slice, hslice, h⟩ := bind_eq_ok.1 h
      cases h
      exact hslice

/-- A plan that does not match leaves the cursor. -/
theorem MatchPlan.pos_of_exec (h : plan.exec input pos = .ok ⟨none, stop⟩) : stop = pos := by
  obtain ⟨loaded, -, h⟩ := bind_eq_ok.1 h
  obtain ⟨passed, -, h⟩ := bind_eq_ok.1 h
  cases passed with
  | false =>
      cases h
      rfl
  | true =>
      obtain ⟨final, -, h⟩ := bind_eq_ok.1 h
      obtain ⟨slice, -, h⟩ := bind_eq_ok.1 h
      cases h

variable {s after last : Session Text R} {rule next : Unit} {result : Option Text}
  {calls : List (RuleCall Text R)}

theorem MatchPlan.draw_eq_ok_iff :
    plan.draw rule s = .ok (next, result, after) ↔
      plan.exec s.input s.pos = .ok ⟨result, after.pos⟩ ∧ after = s.setPos after.pos := by
  unfold MatchPlan.draw Session.exec
  constructor
  · intro h
    obtain ⟨drawn, hexec, h⟩ := bind_eq_ok.1 h
    obtain ⟨r, hr, hexec⟩ := bind_eq_ok.1 hexec
    cases hexec
    cases h
    exact ⟨hr, rfl⟩
  · rintro ⟨hexec, hafter⟩
    rw [hexec, ok_bind, ok_bind, ← hafter]

/-- What is drawn in one call is what the plan consumes, or nothing. -/
theorem MatchPlan.read_of_draw (hpos : isBoundary s.pos s.input = true)
    (h : plan.draw rule s = .ok (next, result, after)) :
    readBetween s.input s.pos after.pos = .ok result.toList.flatten := by
  have hexec := (MatchPlan.draw_eq_ok_iff.1 h).1
  cases result with
  | none =>
      obtain ⟨rest, hrest⟩ := exists_readFrom hpos
      rw [MatchPlan.pos_of_exec hexec]
      exact readBetween_self hrest
  | some text => simpa using MatchPlan.read_of_exec hexec

theorem MatchPlan.forward_draw (plan : MatchPlan) :
    Stream.Forward (R := R) plan.draw := by
  intro rule session next text after h
  obtain ⟨hexec, hafter⟩ := MatchPlan.draw_eq_ok_iff.1 h
  obtain ⟨before, rest, -, -, hstop⟩ := readBetween_eq_ok_iff.1 (MatchPlan.read_of_exec hexec)
  exact ⟨by rw [hafter]; rfl, by omega⟩

/-- What is drawn in consecutive calls is the input from where the first one started. -/
theorem MatchPlan.read_of_consecutive (hpos : isBoundary s.pos s.input = true)
    (h : Consecutive plan.draw rule s calls next last) :
    readBetween s.input s.pos last.pos = .ok (calls.filterMap (·.result)).flatten := by
  induction h with
  | none =>
      obtain ⟨rest, hrest⟩ := exists_readFrom hpos
      exact readBetween_self hrest
  | @last rule next s after result _ hdraw =>
      have hread := MatchPlan.read_of_draw hpos hdraw
      cases result <;> exact hread
  | @more rule next final s after ended value calls _ hdraw _ _ ih =>
      have hread : readBetween s.input s.pos after.pos = .ok value :=
        MatchPlan.read_of_exec (MatchPlan.draw_eq_ok_iff.1 hdraw).1
      have hinput : after.input = s.input := by
        rw [(MatchPlan.draw_eq_ok_iff.1 hdraw).2]
        rfl
      obtain ⟨rest, hrest⟩ := readFrom_of_readBetween hread
      have hlater := ih (hinput ▸ isBoundary_of_readFrom hrest)
      rw [hinput] at hlater
      exact readBetween_append hread hlater

/-- Where the cursor is between two characters a plan of a literal or a class gives a result, and
leaves the cursor so. -/
theorem MatchPlan.Compiled.exists_draw (hplan : plan.Compiled) (rule : Unit)
    (hpos : isBoundary s.pos s.input = true) :
    ∃ next result after, plan.draw rule s = .ok (next, result, after) ∧
      isBoundary after.pos after.input = true := by
  obtain ⟨rest, hrest⟩ := exists_readFrom hpos
  obtain ⟨accepted, count, hexec⟩ := hplan.exec_eq hrest
  exact ⟨rule, _, s.setPos _, MatchPlan.draw_eq_ok_iff.2 ⟨hexec, rfl⟩,
    isBoundary_headOf hrest accepted count⟩

end Plan

namespace Stream

/-- A stream runs out.  However often it is drawn from, either the rule faults, or there come first
no more values than there are bytes left, and then nothing for ever; the calls of the rule are those
that gave the values, and perhaps a last one that failed, each from where the one before it ended.
With a plan of a literal or a class nothing faults, and the values join to the input that was
passed. -/
theorem pull_runs_out :
    (∀ (draw : σ → Session V R → Except Fault (σ × Option V × Session V R)) (rule : σ)
        (session : Session V R), Forward draw → ∀ count,
      (∃ fault, pull draw count (start session rule) = .error fault ∧
        ∃ rule session, draw rule session = .error fault) ∨
      ∃ (values : List V) (more : Nat) (calls : List (RuleCall V R))
          (t : Stream (σ × List (RuleCall V R)) V R), values.length + more = count ∧
        pull draw count (start session rule) =
          .ok (values.map some ++ List.replicate more none, t.forget) ∧
        pull (recorded draw) count (start session (rule, [])) =
          .ok (values.map some ++ List.replicate more none, t) ∧
        Drawn draw (start session (rule, [])) values more calls t) ∧
    ∀ (plan : MatchPlan) (session : Session Text R), plan.Compiled →
      isBoundary session.pos session.input = true → ∀ count,
      ∃ (values : List Text) (more : Nat) (t : Stream Unit Text R), values.length + more = count ∧
        pull plan.draw count (start session ()) =
          .ok (values.map some ++ List.replicate more none, t) ∧
        readBetween session.input session.pos t.session.pos = .ok values.flatten := by
  constructor
  · intro draw rule session hforward count
    cases hpull : pull draw count (start session rule) with
    | error fault => exact Or.inl ⟨fault, rfl, exists_of_pull_eq_error hpull⟩
    | ok drawn =>
        obtain ⟨t, hrecorded, hforget⟩ := exists_pull_recorded (s := start session (rule, [])) hpull
        obtain ⟨values, more, calls, hitems, hcount, hdrawn⟩ := drawn_of_pull hforward hrecorded
        refine Or.inr ⟨values, more, calls, t, hcount, ?_, ?_, hdrawn⟩
        · rw [← hitems, hforget]
        · rw [← hitems, hrecorded]
  · intro plan session hplan hpos count
    obtain ⟨items, t, hpull⟩ := exists_pull_of_keeps (s := start session ())
      (fun rule s hs => hplan.exists_draw (s := s) rule hs) hpos count
    obtain ⟨ended, hrecorded, rfl⟩ := exists_pull_recorded (s := start session ((), [])) hpull
    obtain ⟨values, more, calls, rfl, hcount, hdrawn⟩ := drawn_of_pull plan.forward_draw hrecorded
    refine ⟨values, more, ended.forget, hcount, hpull, ?_⟩
    have hread := MatchPlan.read_of_consecutive hpos hdrawn.consecutive
    rwa [hdrawn.results] at hread

end Stream

namespace StreamWitness

/-- A rule that steps over one byte until it has done so as often as its state says. -/
def steps (left : Nat) (s : Session Nat Unit) :
    Except Fault (Nat × Option Nat × Session Nat Unit) :=
  match left with
  | 0 => .ok (0, none, s)
  | left + 1 => .ok (left, some left, s.setPos (s.pos + 1))

theorem forward_steps : Stream.Forward steps := by
  intro left session next value after h
  cases left with
  | zero => cases h
  | succ left =>
      cases h
      exact ⟨rfl, Nat.le_succ _⟩

/-- The cursor stands behind a letter of two bytes. -/
def session (V : Type) : Session V Unit := ⟨['é', '1', '2', 'x'], 2, .empty, .empty, .empty⟩

/-- One digit. -/
def digit : MatchPlan := .ofClass ⟨[.range '0' '9'], false, false⟩ ⟨3⟩ false

theorem pull_steps_digit :
    Stream.Forward steps ∧ digit.Compiled ∧
      isBoundary (session Text).pos (session Text).input = true ∧
      (∃ calls t, Stream.Drawn steps (.start (session Nat) (2, [])) [1, 0] 3 calls t) ∧
      ∃ (values : List Text) (more : Nat) (t : Stream Unit Text Unit), values.length + more = 4 ∧
        Stream.pull digit.draw 4 (.start (session Text) ()) =
          .ok (values.map some ++ List.replicate more none, t) ∧
        readBetween (session Text).input 2 t.session.pos = .ok values.flatten := by
  have hdigit : digit.Compiled := .ofClass _ _ (by decide)
  have hpos : isBoundary (session Text).pos (session Text).input = true := by decide
  obtain ⟨hsteps, hplan⟩ := Stream.pull_runs_out (σ := Nat) (V := Nat) (R := Unit)
  refine ⟨forward_steps, hdigit, hpos, ?_, hplan digit (session Text) hdigit hpos 4⟩
  rcases hsteps steps 2 (session Nat) forward_steps 5 with ⟨fault, hfault, -⟩ | h
  · cases hfault
  · obtain ⟨values, more, calls, t, hcount, hpull, -, hdrawn⟩ := h
    have hitems : [some 1, some 0, none, none, none] =
        values.map some ++ List.replicate more none :=
      congrArg Prod.fst (Except.ok.inj hpull)
    have hvalues : [1, 0] = values := by
      simpa [List.filterMap_map] using congrArg (List.filterMap id) hitems
    subst hvalues
    obtain rfl : more = 3 := by
      simp only [List.length_cons, List.length_nil] at hcount
      omega
    exact ⟨calls, t, hdrawn⟩

end StreamWitness

end Packrat
