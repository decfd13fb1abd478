import Packrat.Proofs.Memo.Meaning

/-!
# Kept results are transparent

A kept result stands for a run of a body that need not be repeated.  It is right as long as it tells
what the body would come to now, and as long as the tracker has absorbed the failures of that run.
Both stay true while the parse goes on.  Main statement: a parse that keeps results shows after
every step what a parse without kept results shows (`parse_kept_of_parse_direct`).
-/

namespace Packrat

variable {σ V R : Type}

/-- Cells that are made one after another hold the values they are made with. -/
theorem Session.shows_makeCells {s : Session V R} {cells : List Nat} {old : List R}
    (hs : s.Shows cells old) (values : List R) :
    (values.foldl (fun s value => (s.makeCell value).2) s).Shows
      (cells ++ List.range' s.cells.next values.length) (old ++ values) := by
  induction values generalizing s cells old with
  | nil => simpa using hs
  | cons value values ih =>
      have hmade := (follows_makeCell hs () value).shows
      have hrest := ih hmade
      simpa [List.range'_succ, Session.makeCell, Cells.make] using hrest

theorem Session.memo_makeCells (s : Session V R) (values : List R) :
    (values.foldl (fun s value => (s.makeCell value).2) s).memo = s.memo := by
  induction values generalizing s with
  | nil => rfl
  | cons value values ih => exact ih _

/-- The changes that are kept of a call lead from the values before it to those after it, if values
that compare equal are the same. -/
theorem restored_entryOf [BEq R] (hequal : ∀ a b : R, (a == b) = true → a = b)
    (before after : Session V R) (refs : List Nat) (result : Option V) :
    restored (refs.map before.cells.read) (before.entryOf after refs result).deltas =
      refs.map after.cells.read := by
  simp only [Session.entryOf]
  induction refs with
  | nil => rfl
  | cons c refs ih =>
      simp only [restored, List.map_cons, List.zipWith_cons_cons] at ih ⊢
      rw [ih]
      congr 1
      cases heq : after.cells.read c == before.cells.read c with
      | true =>
          simp only [bne, heq]
          exact (hequal _ _ heq).symm
      | false => simp [bne, heq]

variable [ToString R]

/-- An entry tells what its body comes to when the parameters have some values, and its failures
are absorbed. -/
structure RuleSet.Explains (rules : RuleSet σ V R) (input : Text) (t : Tracker) (key : MemoKey)
    (entry : MemoEntry V R) (values : List R) (fin : Ending V R) : Prop where
  printed : values.map toString = key.refs
  gives : rules.Gives input (rules.start key.slot) key.pos values fin
  next : entry.next = fin.pos
  result : entry.result = fin.result
  length : entry.deltas.length = values.length
  restored : restored values entry.deltas = fin.values.take values.length
  absorbs : t.Absorbs fin.failures

/-- All entries of a session are right. -/
def RuleSet.Faithful (rules : RuleSet σ V R) (s : Session V R) : Prop :=
  ∀ key entry, s.memo.find? key = some entry →
    ∃ values fin, rules.Explains s.input s.failure key entry values fin

namespace RuleSet

variable {rules : RuleSet σ V R}

theorem Explains.record {input : Text} {t : Tracker} {key : MemoKey} {entry : MemoEntry V R}
    {values : List R} {fin : Ending V R} (h : rules.Explains input t key entry values fin)
    (failures : List Failure) :
    rules.Explains input (t.record failures) key entry values fin :=
  { h with absorbs := h.absorbs.record failures }

/-- A session stays faithful while it goes on without a new entry. -/
theorem Faithful.of_evolves {s s' : Session V R} {cells : List Nat} {failures : List Failure}
    (h : rules.Faithful s) (hevolves : s.Evolves s' cells failures) (hmemo : s'.memo = s.memo) :
    rules.Faithful s' := by
  intro key entry hentry
  rw [hmemo] at hentry
  obtain ⟨values, fin, hexplains⟩ := h key entry hentry
  refine ⟨values, fin, ?_⟩
  rw [hevolves.input, hevolves.failure]
  exact hexplains.record failures

/-- Replaying an entry leads to where its body would lead. -/
theorem Explains.reaches_replay (hprint : ∀ a b : R, toString a = toString b → a = b)
    {s : Session V R} {slot : Nat} {refs : List Nat} {values values' : List R}
    {entry : MemoEntry V R} {fin fin' : Ending V R} (hs : s.Shows refs values)
    (hgives : rules.Gives s.input (rules.start slot) s.pos values fin)
    (hroom : s.failure.Takes fin.failures)
    (h : rules.Explains s.input s.failure (s.memoKey slot refs) entry values' fin') :
    entry.result = fin.result ∧ s.Reaches (s.replay refs entry) refs fin := by
  have hkey : (s.memoKey slot refs).refs = values.map toString := by
    rw [← hs.read, List.map_map]
    rfl
  obtain rfl : values' = values := (List.map_inj_right hprint).1 (h.printed.trans hkey)
  obtain rfl : fin' = fin := h.gives.unique hgives
  refine ⟨h.result, ?_, h.next, ?_⟩
  · refine ⟨rfl, hroom, h.absorbs.symm, ?_, ?_⟩
    · exact Nat.le_of_eq (Cells.next_restore s.cells refs entry.deltas).symm
    · intro c _ hc
      exact Cells.read_restore_of_not_mem s.cells entry.deltas hc
  · have hlength : entry.deltas.length = refs.length := h.length.trans hs.length
    rw [← hs.length, ← h.restored, ← hs.read]
    exact Cells.map_read_restore s.cells hs.nodup hlength

/-- An entry that is made of a run of its body is right. -/
theorem Faithful.store [BEq R] (hequal : ∀ a b : R, (a == b) = true → a = b)
    {s s₁ : Session V R} {slot : Nat} {refs : List Nat} {values : List R} {fin : Ending V R}
    (hs : s.Shows refs values)
    (hgives : rules.Gives s.input (rules.start slot) s.pos values fin)
    (hreaches : s.Reaches s₁ refs fin) (h : rules.Faithful s₁) :
    rules.Faithful
      { s₁ with memo := s₁.memo.store (s.memoKey slot refs) (s.entryOf s₁ refs fin.result) } := by
  intro key entry hentry
  simp only [Memo.find?_store] at hentry
  by_cases hkey : key = s.memoKey slot refs
  · rw [if_pos hkey] at hentry
    cases hentry
    subst hkey
    refine ⟨values, fin, ?_, ?_, hreaches.pos, rfl, ?_, ?_, ?_⟩
    · rw [← hs.read, List.map_map]
      rfl
    · rw [hreaches.evolves.input]
      exact hgives
    · simp [Session.entryOf, hs.length]
    · rw [← hs.read, restored_entryOf hequal, hreaches.values, List.length_map]
    · rw [hreaches.evolves.failure]
      exact Tracker.absorbs_record_self s.failure fin.failures
  · rw [if_neg hkey] at hentry
    exact h key entry hentry

/-- A call that may be answered by an entry leads to where its body would lead. -/
theorem call_kept [BEq R] (hequal : ∀ a b : R, (a == b) = true → a = b)
    (hprint : ∀ a b : R, toString a = toString b → a = b)
    {s s₁ : Session V R} {slot : Nat} {refs : List Nat} {values : List R} {fin : Ending V R}
    (hs : s.Shows refs values)
    (hfaithful : rules.Faithful s)
    (hgives : rules.Gives s.input (rules.start slot) s.pos values fin)
    (hreaches : s.Reaches s₁ refs fin) (hfaithful₁ : rules.Faithful s₁) :
    ∃ s', (∀ body : Session V R → Except Halt (Option V × Session V R),
        body s = .ok (fin.result, s₁) → s.call .kept slot refs body = .ok (fin.result, s')) ∧
      s.Reaches s' refs fin ∧ rules.Faithful s' := by
  cases hfind : s.memo.find? (s.memoKey slot refs) with
  | some entry =>
      obtain ⟨values', fin', hexplains⟩ := hfaithful _ entry hfind
      obtain ⟨hresult, hreplay⟩ := hexplains.reaches_replay hprint hs hgives hreaches.evolves.room
      refine ⟨s.replay refs entry, ?_, hreplay, hfaithful.of_evolves hreplay.evolves rfl⟩
      intro body _
      simp only [Session.call, Session.callCached, hfind, ← hresult]
      rfl
  | none =>
      refine ⟨_, ?_, ?_, hfaithful₁.store hequal hs hgives hreaches⟩
      · intro body hbody
        simp only [Session.call, Session.callCached, hfind, hbody]
        rfl
      · exact ⟨⟨hreaches.evolves.input, hreaches.evolves.room, hreaches.evolves.failure,
          hreaches.evolves.next, hreaches.evolves.frame⟩, hreaches.pos, hreaches.values⟩

/-- A body runs to where its meaning tells, with kept results as well, if there is room for the
failures that it records. -/
theorem run_kept_of_gives [BEq R] (hequal : ∀ a b : R, (a == b) = true → a = b)
    (hprint : ∀ a b : R, toString a = toString b → a = b)
    {input : Text} {state : σ} {pos : Nat} {values : List R} {fin : Ending V R}
    (hgives : rules.Gives input state pos values fin)
    {s : Session V R} {cells : List Nat} (hinput : s.input = input) (hpos : s.pos = pos)
    (hs : s.Shows cells values) (hroom : s.failure.Takes fin.failures)
    (hfaithful : rules.Faithful s) :
    ∃ s', EndsWith (fun fuel => rules.run .kept fuel state cells s) (fin.result, s') ∧
      s.Reaches s' cells fin ∧ rules.Faithful s' := by
  induction hgives generalizing s cells with
  | done hmove =>
      subst hpos
      refine ⟨s, EndsWith.of_succ ⟨0, fun fuel _ => ?_⟩, Session.reaches_self hs _, hfaithful⟩
      simp only [run, hmove]
  | act hmove heffect _ ih =>
      subst hinput hpos
      obtain ⟨hnow, hlater⟩ := Tracker.takes_append.1 hroom
      obtain ⟨cells₁, s₁, hact, h₁⟩ := Act.run_of_effect _ hs heffect hnow
      rw [← h₁.evolves.failure] at hlater
      have hfaithful₁ := hfaithful.of_evolves h₁.evolves h₁.memo
      obtain ⟨s', hends, hreaches, hfaithful'⟩ :=
        ih h₁.evolves.input h₁.pos h₁.shows hlater hfaithful₁
      refine ⟨s', EndsWith.of_succ (hends.both hends fun fuel hrun _ => ?_),
        Session.Reaches.trans h₁.evolves hreaches h₁.keeps h₁.fresh, hfaithful'⟩
      rw [rules.run_act .kept fuel hmove, hact]
      exact hrun
  | @call _ _ values slot args distinct _ given after inner fin hmove hgiven hinner hafter _
      ihinner ihrest =>
      subst hinput hpos
      rw [hs.pick_values, Option.map_eq_some_iff] at hgiven
      obtain ⟨refs, hrefs, rfl⟩ := hgiven
      have hshows := hs.pick distinct hrefs
      obtain ⟨hnow, hlater⟩ := Tracker.takes_append.1 hroom
      -- The body runs whether or not it has to: an entry must agree with that run.
      obtain ⟨s₁, hbody, hreaches₁, hfaithful₁⟩ := ihinner rfl rfl hshows hnow hfaithful
      obtain ⟨s₂, hcall, hreaches₂, hfaithful₂⟩ :=
        call_kept hequal hprint hshows hfaithful hinner hreaches₁ hfaithful₁
      have hcells := hreaches₂.evolves.of_pick hrefs
      have hputBack := Session.Reaches.putBack hs hrefs hreaches₂
      rw [List.length_map] at hafter
      obtain rfl := hputBack.unique hafter
      rw [← hcells.failure] at hlater
      obtain ⟨s', hends, hreaches, hfaithful'⟩ :=
        ihrest hcells.input hreaches₂.pos (hs.of_evolves hcells) hlater hfaithful₂
      refine ⟨s', EndsWith.of_succ (hbody.both hends fun fuel hinner hrest => ?_),
        Session.Reaches.trans hcells hreaches List.prefix_rfl fun c hc => Or.inl hc,
        hfaithful'⟩
      rw [rules.run_call .kept fuel hmove hrefs, hcall _ hinner]
      exact hrest

end RuleSet

/-- Two sessions show the same, over cells with the same values. -/
structure Session.Agrees (s s' : Session V R) (cells : List Nat) (values : List R) : Prop where
  left : s.Shows cells values
  right : s'.Shows cells values
  input : s.input = s'.input
  pos : s.pos = s'.pos
  failure : s.failure = s'.failure

namespace RuleSet

variable [BEq R] {rules : RuleSet σ V R}

/-- A step leads two sessions that show the same to two that show the same. -/
theorem step_agrees (hequal : ∀ a b : R, (a == b) = true → a = b)
    (hprint : ∀ a b : R, toString a = toString b → a = b)
    {u v s : Session V R} {cells : List Nat} {values : List R}
    (hagrees : u.Agrees s cells values) (hfaithful : rules.Faithful s)
    {step : Step R} {fuel : Nat} {result : Option (Option V)}
    (hrun : step.run rules .direct fuel cells u = .ok (result, v)) :
    ∃ t values', EndsWith (fun fuel => step.run rules .kept fuel cells s) (result, t) ∧
      v.Agrees t cells values' ∧ rules.Faithful t := by
  cases step with
  | call slot args distinct =>
      cases hrefs : pick cells args with
      | none =>
          simp only [Step.run, hrefs] at hrun
          cases hrun
      | some refs =>
          simp only [Step.run, hrefs] at hrun ⊢
          obtain ⟨⟨result, u₁⟩, hbody, hdone⟩ := bind_eq_ok.1 hrun
          cases hdone
          have hu := hagrees.left.pick distinct hrefs
          have hs := hagrees.right.pick distinct hrefs
          have hsame : refs.map u.cells.read = refs.map s.cells.read := by
            have hpick := (hagrees.left.pick_values args).symm.trans
              (hagrees.right.pick_values args)
            simpa [hrefs] using hpick
          obtain ⟨fin, hgives, rfl, hu₁⟩ := rules.gives_of_run_direct hu hbody
          rw [hagrees.input, hagrees.pos, hsame] at hgives
          obtain ⟨s₁, hends, hs₁, hfaithful₁⟩ :=
            run_kept_of_gives hequal hprint hgives rfl rfl hs
              (hagrees.failure ▸ hu₁.evolves.room) hfaithful
          obtain ⟨t, hcall, ht, hfaithful'⟩ :=
            call_kept hequal hprint hs hfaithful hgives hs₁ hfaithful₁
          refine ⟨t, cells.map t.cells.read, hends.both hends fun fuel hrun _ => ?_, ?_,
            hfaithful'⟩
          · rw [hcall _ hrun]
            rfl
          · have hput := Session.Reaches.putBack hagrees.left hrefs hu₁
            have hput' := Session.Reaches.putBack hagrees.right hrefs ht
            have hvalues := hput.unique hput'
            have hleft := hagrees.left.of_evolves (hu₁.evolves.of_pick hrefs)
            rw [hvalues] at hleft
            refine ⟨hleft, hagrees.right.of_evolves (ht.evolves.of_pick hrefs), ?_, ?_, ?_⟩
            · rw [hu₁.evolves.input, ht.evolves.input, hagrees.input]
            · rw [hu₁.pos, ht.pos]
            · rw [hu₁.evolves.failure, ht.evolves.failure, hagrees.failure]
  | setPos pos =>
      cases hrun
      refine ⟨s.setPos pos, values, ⟨0, fun _ _ => rfl⟩, ?_, hfaithful⟩
      exact ⟨⟨hagrees.left.nodup, hagrees.left.made, hagrees.left.read⟩,
        ⟨hagrees.right.nodup, hagrees.right.made, hagrees.right.read⟩,
        hagrees.input, rfl, hagrees.failure⟩
  | setCell place value =>
      cases hc : cells[place]? with
      | none =>
          simp only [Step.run, hc] at hrun
          cases hrun
      | some c =>
          simp only [Step.run, hc] at hrun ⊢
          cases hrun
          have hu := Session.follows_setCell hagrees.left () hc value
          have hs := Session.follows_setCell hagrees.right () hc value
          refine ⟨s.setCell c value, values.set place value, ⟨0, fun _ _ => rfl⟩, ?_,
            hfaithful.of_evolves hs.evolves rfl⟩
          exact ⟨hu.shows, hs.shows, hagrees.input, hagrees.pos, hagrees.failure⟩

theorem drive_agrees (hequal : ∀ a b : R, (a == b) = true → a = b)
    (hprint : ∀ a b : R, toString a = toString b → a = b)
    {cells : List Nat} {fuel : Nat} {steps : List (Step R)} {u s : Session V R} {values : List R}
    (hagrees : u.Agrees s cells values) (hfaithful : rules.Faithful s)
    {log : List (Observation V R)} (hrun : rules.drive .direct fuel cells u steps = .ok log) :
    EndsWith (fun fuel => rules.drive .kept fuel cells s steps) log := by
  induction steps generalizing u s values log with
  | nil => exact ⟨0, fun _ _ => hrun⟩
  | cons step steps ih =>
      simp only [drive] at hrun ⊢
      obtain ⟨⟨result, v⟩, hstep, hrest⟩ := bind_eq_ok.1 hrun
      obtain ⟨rest, hdrive, hlog⟩ := bind_eq_ok.1 hrest
      obtain ⟨t, values', hends, hagrees', hfaithful'⟩ :=
        step_agrees hequal hprint hagrees hfaithful hstep
      refine hends.both (ih hagrees' hfaithful' hdrive) fun fuel hstep' hdrive' => ?_
      have hvalues : cells.map v.cells.read = cells.map t.cells.read :=
        hagrees'.left.read.trans hagrees'.right.read.symm
      cases hlog
      rw [hstep', hvalues, hagrees'.pos, hagrees'.failure]
      simp only [ok_bind, hdrive']

/-- Keeping results cannot be seen: where a parse that runs every body ends, a parse that keeps
results ends too, and shows the same after every step.  Different values of parameters have to
differ in print, and must not compare equal. -/
theorem parse_kept_of_parse_direct [Inhabited R] (rules : RuleSet σ V R)
    (hequal : ∀ a b : R, (a == b) = true → a = b)
    (hprint : ∀ a b : R, toString a = toString b → a = b) (input : String) (values : List R)
    (steps : List (Step R)) {fuel : Nat} {log : List (Observation V R)}
    (hrun : rules.parse .direct fuel input values steps = .ok log) :
    EndsWith (fun fuel => rules.parse .kept fuel input values steps) log := by
  simp only [parse] at hrun ⊢
  have hshows : (Session.start input : Session V R).Shows [] [] := ⟨List.nodup_nil, by simp, rfl⟩
  have hmade := Session.shows_makeCells hshows values
  have hcells : [] ++ List.range' (Session.start input : Session V R).cells.next values.length =
      List.range values.length := by
    rw [List.nil_append, List.range_eq_range']
    rfl
  rw [hcells, List.nil_append] at hmade
  refine drive_agrees hequal hprint ⟨hmade, hmade, rfl, rfl, rfl⟩ ?_ hrun
  intro key entry hentry
  rw [Session.memo_makeCells] at hentry
  cases hentry

end RuleSet

namespace TransparentWitness

/-- Slot 0 takes a character, notes a failure after it and sets its cell.  Slot 1 calls slot 0 with
a cell of its own and then with its caller's. -/
def rules : RuleSet Nat Bool Bool where
  start slot := if slot = 0 then 0 else 10
  move
    | 0 => .act (.exec (.any ⟨0⟩) fun matched => if matched.isSome then 1 else 4)
    | 1 => .act (.fail 7 2)
    | 2 => .act (.setCell 0 true 3)
    | 3 => .done (some true)
    | 10 => .act (.makeCell false 11)
    | 11 => .call 0 [1] (by decide) fun result => if result.isSome then 12 else 4
    | 12 => .call 0 [0] (by decide) fun result => if result.isSome then 3 else 4
    | _ => .done none

/-- The last call finds what slot 0 did to the other cell. -/
def steps : List (Step Bool) :=
  [.call 1 [0] (by decide), .setPos 0, .setCell 0 false, .call 0 [0] (by decide)]

def log : List (Observation Bool Bool) :=
  [⟨some (some true), 2, [true], ⟨2, [7], false⟩⟩, ⟨none, 0, [true], ⟨2, [7], false⟩⟩,
    ⟨none, 0, [false], ⟨2, [7], false⟩⟩, ⟨some (some true), 1, [true], ⟨2, [7], false⟩⟩]

theorem parse_kept_rules :
    rules.parse .direct 9 "ab" [false] steps = .ok log ∧
      EndsWith (fun fuel => rules.parse .kept fuel "ab" [false] steps) log :=
  ⟨rfl, rules.parse_kept_of_parse_direct (by decide) (by decide) "ab" [false] steps
    (show rules.parse .direct 9 "ab" [false] steps = .ok log from rfl)⟩

end TransparentWitness

end Packrat
