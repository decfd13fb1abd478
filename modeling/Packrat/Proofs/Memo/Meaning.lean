import Packrat.Proofs.Memo.Cells
import Packrat.Proofs.Plan.Exec
import Packrat.Proofs.Tracker.Record

/-!
# The meaning of a body

What a body does can be told without a session: by the cursor and the values of its cells when it
starts, and by the result, the cursor, the values and the recorded failures when it ends.  Main
statements: there is at most one such outcome (`Gives.unique`), and a run that answers calls by
running their bodies has it (`gives_of_run_direct`).
-/

namespace Packrat

open Text

variable {σ V R : Type}

/-- What an act comes to. -/
structure Effect (σ R : Type) where
  next : σ
  pos : Nat
  values : List R
  failures : List Failure

/-- Acts on the values of cells in place of the cells. -/
def Act.effect (input : Text) (pos : Nat) (values : List R) : Act σ R → Option (Effect σ R)
  | exec plan next =>
    match plan.exec input pos with
    | .ok r => some ⟨next r.matched, r.pos, values, []⟩
    | .error _ => none
  | fail index next => some ⟨next, pos, values, [⟨pos, index⟩]⟩
  | failSilently next => some ⟨next, pos, values, []⟩
  | readPos next => some ⟨next pos, pos, values, []⟩
  | setPos pos next => some ⟨next, pos, values, []⟩
  | readCell place next => values[place]?.map fun value => ⟨next value, pos, values, []⟩
  | setCell place value next =>
    if place < values.length then some ⟨next, pos, values.set place value, []⟩ else none
  | makeCell value next => some ⟨next, pos, values ++ [value], []⟩

/-- What a body comes to: the values are those of the cells that it was given and, after them, of
those that it made. -/
structure Ending (V R : Type) where
  result : Option V
  pos : Nat
  values : List R
  failures : List Failure

/-- An outcome after further failures. -/
def Ending.after (failures : List Failure) (fin : Ending V R) : Ending V R :=
  { fin with failures := failures ++ fin.failures }

/-- From a state, a cursor and values, the body comes to an outcome. -/
inductive RuleSet.Gives (rules : RuleSet σ V R) (input : Text) :
    σ → Nat → List R → Ending V R → Prop where
  | done {state : σ} {pos : Nat} {values : List R} {result : Option V}
      (hmove : rules.move state = .done result) :
      Gives rules input state pos values ⟨result, pos, values, []⟩
  | act {state : σ} {pos : Nat} {values : List R} {a : Act σ R} {e : Effect σ R}
      {fin : Ending V R} (hmove : rules.move state = .act a)
      (heffect : a.effect input pos values = some e)
      (hrest : Gives rules input e.next e.pos e.values fin) :
      Gives rules input state pos values (fin.after e.failures)
  | call {state : σ} {pos : Nat} {values : List R} {slot : Nat} {args : List Nat}
      {distinct : args.Nodup} {next : Option V → σ} {given after : List R}
      {inner fin : Ending V R} (hmove : rules.move state = .call slot args distinct next)
      (hgiven : pick values args = some given)
      (hinner : Gives rules input (rules.start slot) pos given inner)
      (hafter : PutBack values args (inner.values.take given.length) after)
      (hrest : Gives rules input (next inner.result) inner.pos after fin) :
      Gives rules input state pos values (fin.after inner.failures)

/-- A body comes to one outcome at most. -/
theorem RuleSet.Gives.unique {rules : RuleSet σ V R} {input : Text} {state : σ} {pos : Nat}
    {values : List R} {fin fin' : Ending V R} (h : rules.Gives input state pos values fin)
    (h' : rules.Gives input state pos values fin') : fin = fin' := by
  induction h generalizing fin' with
  | done hmove =>
      cases h' with
      | done hmove' =>
          rw [hmove] at hmove'
          cases hmove'
          rfl
      | act hmove' => simp [hmove] at hmove'
      | call hmove' => simp [hmove] at hmove'
  | act hmove heffect _ ih =>
      cases h' with
      | done hmove' => simp [hmove] at hmove'
      | act hmove' heffect' hrest' =>
          rw [hmove] at hmove'
          cases hmove'
          rw [heffect] at heffect'
          cases heffect'
          rw [ih hrest']
      | call hmove' => simp [hmove] at hmove'
  | call hmove hgiven _ hafter _ ihinner ihrest =>
      cases h' with
      | done hmove' => simp [hmove] at hmove'
      | act hmove' => simp [hmove] at hmove'
      | call hmove' hgiven' hinner' hafter' hrest' =>
          rw [hmove] at hmove'
          cases hmove'
          rw [hgiven] at hgiven'
          cases hgiven'
          cases ihinner hinner'
          cases hafter.unique hafter'
          rw [ihrest hrest']

namespace Session

/-- Some cells, all different, hold some values. -/
structure Shows (s : Session V R) (cells : List Nat) (values : List R) : Prop where
  nodup : cells.Nodup
  made : ∀ c ∈ cells, c < s.cells.next
  read : cells.map s.cells.read = values

/-- A session goes on: it has recorded some failures, for which there was room, and of the cells
that were there it has changed some at most. -/
structure Evolves (s s' : Session V R) (cells : List Nat) (failures : List Failure) : Prop where
  input : s'.input = s.input
  room : s.failure.Takes failures
  failure : s'.failure = s.failure.record failures
  next : s.cells.next ≤ s'.cells.next
  frame : ∀ c, c < s.cells.next → c ∉ cells → s'.cells.read c = s.cells.read c

/-- A session goes on to where an outcome leaves it. -/
structure Reaches (s s' : Session V R) (cells : List Nat) (fin : Ending V R) : Prop where
  evolves : s.Evolves s' cells fin.failures
  pos : s'.pos = fin.pos
  values : cells.map s'.cells.read = fin.values.take cells.length

/-- A session goes on by an effect, perhaps with one more cell. -/
structure Follows (s s' : Session V R) (cells cells' : List Nat) (e : Effect σ R) : Prop where
  evolves : s.Evolves s' cells e.failures
  memo : s'.memo = s.memo
  pos : s'.pos = e.pos
  shows : s'.Shows cells' e.values
  keeps : cells <+: cells'
  fresh : ∀ c ∈ cells', c ∈ cells ∨ s.cells.next ≤ c

theorem Shows.length {s : Session V R} {cells : List Nat} {values : List R}
    (h : s.Shows cells values) : values.length = cells.length := by
  rw [← h.read, List.length_map]

/-- The cells of a call hold what is at their places. -/
theorem Shows.pick {s : Session V R} {cells : List Nat} {values : List R}
    (h : s.Shows cells values) {args refs : List Nat} (hargs : args.Nodup)
    (hrefs : pick cells args = some refs) : s.Shows refs (refs.map s.cells.read) where
  nodup := nodup_pick h.nodup hargs hrefs
  made c hc := h.made c (mem_of_mem_pick hrefs hc)
  read := rfl

theorem Shows.pick_values {s : Session V R} {cells : List Nat} {values : List R}
    (h : s.Shows cells values) (args : List Nat) :
    Packrat.pick values args = (Packrat.pick cells args).map (List.map s.cells.read) := by
  rw [← h.read, pick_map]

theorem Evolves.trans {s s₁ s₂ : Session V R} {cells cells' : List Nat}
    {fs gs : List Failure} (h : s.Evolves s₁ cells fs) (h' : s₁.Evolves s₂ cells' gs)
    (hfresh : ∀ c ∈ cells', c ∈ cells ∨ s.cells.next ≤ c) : s.Evolves s₂ cells (fs ++ gs) where
  input := h'.input.trans h.input
  room := Tracker.takes_append.2 ⟨h.room, h.failure ▸ h'.room⟩
  failure := by rw [h'.failure, h.failure, Tracker.record_append]
  next := Nat.le_trans h.next h'.next
  frame := by
    intro c hlt hc
    have hc' : c ∉ cells' := by
      intro hmem
      rcases hfresh c hmem with hold | hnew
      · exact hc hold
      · omega
    rw [h'.frame c (Nat.lt_of_lt_of_le hlt h.next) hc', h.frame c hlt hc]

theorem Reaches.trans {s s₁ s₂ : Session V R} {cells cells' : List Nat} {fs : List Failure}
    {fin : Ending V R} (h : s.Evolves s₁ cells fs) (h' : s₁.Reaches s₂ cells' fin)
    (hkeeps : cells <+: cells') (hfresh : ∀ c ∈ cells', c ∈ cells ∨ s.cells.next ≤ c) :
    s.Reaches s₂ cells (fin.after fs) where
  evolves := h.trans h'.evolves hfresh
  pos := h'.pos
  values := by
    obtain ⟨added, rfl⟩ := hkeeps
    have htake := congrArg (List.take cells.length) h'.values
    simpa [List.take_take, Ending.after] using htake

/-- A call leaves its caller with new values at the places that it was given. -/
theorem Reaches.putBack {s s' : Session V R} {cells : List Nat} {values : List R}
    {fin : Ending V R} (hs : s.Shows cells values) {args refs : List Nat}
    (hrefs : Packrat.pick cells args = some refs) (h : s.Reaches s' refs fin) :
    PutBack values args (fin.values.take refs.length) (cells.map s'.cells.read) where
  pick_eq := by rw [pick_map, hrefs, Option.map_some, h.values]
  getElem?_eq := by
    intro place hplace
    rw [← hs.read, List.getElem?_map, List.getElem?_map]
    cases hc : cells[place]? with
    | none => rfl
    | some c =>
        have hmade := hs.made c (List.mem_of_getElem? hc)
        have hsame := h.evolves.frame c hmade (not_mem_pick hs.nodup hrefs hplace hc)
        rw [Option.map_some, Option.map_some, hsame]

/-- A call within the cells of its caller. -/
theorem Evolves.of_pick {s s' : Session V R} {cells args refs : List Nat} {fs : List Failure}
    (hrefs : Packrat.pick cells args = some refs) (h : s.Evolves s' refs fs) :
    s.Evolves s' cells fs where
  input := h.input
  room := h.room
  failure := h.failure
  next := h.next
  frame c hlt hc := h.frame c hlt fun hmem => hc (mem_of_mem_pick hrefs hmem)

theorem Shows.of_evolves {s s' : Session V R} {cells : List Nat} {values : List R}
    {fs : List Failure} (hs : s.Shows cells values) (h : s.Evolves s' cells fs) :
    s'.Shows cells (cells.map s'.cells.read) where
  nodup := hs.nodup
  made c hc := Nat.lt_of_lt_of_le (hs.made c hc) h.next
  read := rfl

theorem reaches_self {s : Session V R} {cells : List Nat} {values : List R}
    (hs : s.Shows cells values) (result : Option V) :
    s.Reaches s cells ⟨result, s.pos, values, []⟩ where
  evolves := ⟨rfl, trivial, rfl, Nat.le_refl _, fun _ _ _ => rfl⟩
  pos := rfl
  values := by rw [hs.read, ← hs.length, List.take_length]

theorem follows_setPos {s : Session V R} {cells : List Nat} {values : List R}
    (hs : s.Shows cells values) (next : σ) (pos : Nat) :
    s.Follows (s.setPos pos) cells cells (⟨next, pos, values, []⟩ : Effect σ R) where
  evolves := ⟨rfl, trivial, rfl, Nat.le_refl _, fun _ _ _ => rfl⟩
  memo := rfl
  pos := rfl
  shows := ⟨hs.nodup, hs.made, hs.read⟩
  keeps := List.prefix_rfl
  fresh _ hc := Or.inl hc

theorem follows_note {s : Session V R} {cells : List Nat} {values : List R}
    (hs : s.Shows cells values) (next : σ) {index : Nat}
    (hroom : s.failure.HasRoom ⟨s.pos, index⟩) :
    s.Follows (s.note index) cells cells
      (⟨next, s.pos, values, [⟨s.pos, index⟩]⟩ : Effect σ R) where
  evolves := ⟨rfl, ⟨hroom, trivial⟩, rfl, Nat.le_refl _, fun _ _ _ => rfl⟩
  memo := rfl
  pos := rfl
  shows := ⟨hs.nodup, hs.made, hs.read⟩
  keeps := List.prefix_rfl
  fresh _ hc := Or.inl hc

theorem follows_setCell {s : Session V R} {cells : List Nat} {values : List R}
    (hs : s.Shows cells values) (next : σ) {place c : Nat} (hc : cells[place]? = some c)
    (value : R) :
    s.Follows (s.setCell c value) cells cells
      (⟨next, s.pos, values.set place value, []⟩ : Effect σ R) where
  evolves := by
    refine ⟨rfl, trivial, rfl, Nat.le_refl _, fun other _ hother => ?_⟩
    have hne : other ≠ c := fun heq => hother (heq ▸ List.mem_of_getElem? hc)
    exact Cells.read_write_of_ne s.cells hne value
  memo := rfl
  pos := rfl
  shows := by
    refine ⟨hs.nodup, hs.made, ?_⟩
    rw [← hs.read]
    exact Cells.map_read_write s.cells hs.nodup hc value
  keeps := List.prefix_rfl
  fresh _ hc := Or.inl hc

theorem follows_makeCell {s : Session V R} {cells : List Nat} {values : List R}
    (hs : s.Shows cells values) (next : σ) (value : R) :
    s.Follows (s.makeCell value).2 cells (cells ++ [s.cells.next])
      (⟨next, s.pos, values ++ [value], []⟩ : Effect σ R) where
  evolves := by
    refine ⟨rfl, trivial, rfl, Nat.le_succ _, fun c hlt _ => ?_⟩
    exact Cells.read_write_of_ne s.cells (Nat.ne_of_lt hlt) value
  memo := rfl
  pos := rfl
  shows := by
    have hfresh : s.cells.next ∉ cells := fun hmem => Nat.lt_irrefl _ (hs.made _ hmem)
    refine ⟨?_, ?_, ?_⟩
    · exact List.nodup_append.2 ⟨hs.nodup, by simp, by rintro c hc d hd rfl; simp_all⟩
    · intro c hc
      rcases List.mem_append.1 hc with hold | hnew
      · exact Nat.lt_succ_of_lt (hs.made c hold)
      · exact Nat.lt_succ_of_le (Nat.le_of_eq (List.mem_singleton.1 hnew))
    · have hold : cells.map (s.makeCell value).2.cells.read = cells.map s.cells.read := by
        refine List.map_congr_left fun c hc => ?_
        exact Cells.read_write_of_ne s.cells (Nat.ne_of_lt (hs.made c hc)) value
      have hnew : (s.makeCell value).2.cells.read s.cells.next = value :=
        Cells.read_write_self s.cells s.cells.next value
      rw [List.map_append, List.map_singleton, hold, hnew, hs.read]
  keeps := List.prefix_append _ _
  fresh := by
    intro c hc
    rcases List.mem_append.1 hc with hold | hnew
    · exact Or.inl hold
    · exact Or.inr (Nat.le_of_eq (List.mem_singleton.1 hnew).symm)

end Session

open Session

/-- An act on cells that hold values has its effect on the values, if there is room for the failures
that it records. -/
theorem Act.run_of_effect (a : Act σ R) {s : Session V R} {cells : List Nat} {values : List R}
    (hs : s.Shows cells values) {e : Effect σ R} (he : a.effect s.input s.pos values = some e)
    (hroom : s.failure.Takes e.failures) :
    ∃ cells' s', a.run s cells = .ok (e.next, cells', s') ∧ s.Follows s' cells cells' e := by
  cases a with
  | exec plan next =>
      cases hexec : plan.exec s.input s.pos with
      | error fault => simp [effect, hexec] at he
      | ok r =>
          obtain rfl : ⟨next r.matched, r.pos, values, []⟩ = e := by
            simpa [effect, hexec] using he
          have hrun : s.exec plan = .ok (r.matched, s.setPos r.pos) := by
            rw [Session.exec, hexec]
            rfl
          exact ⟨cells, s.setPos r.pos, by rw [run, hrun], follows_setPos hs _ r.pos⟩
  | fail index next =>
      cases he
      have hfail := fail_eq_ok_iff.2 ⟨hroom.1, rfl⟩
      exact ⟨cells, s.note index, by rw [run, hfail], follows_note hs next hroom.1⟩
  | failSilently next =>
      cases he
      exact ⟨cells, s, rfl, follows_setPos hs next s.pos⟩
  | readPos next =>
      cases he
      exact ⟨cells, s, rfl, follows_setPos hs _ s.pos⟩
  | setPos pos next =>
      cases he
      exact ⟨cells, s.setPos pos, rfl, follows_setPos hs next pos⟩
  | readCell place next =>
      obtain ⟨value, hvalue, rfl⟩ := Option.map_eq_some_iff.1 he
      rw [← hs.read, List.getElem?_map, Option.map_eq_some_iff] at hvalue
      obtain ⟨c, hc, rfl⟩ := hvalue
      exact ⟨cells, s, by rw [run, hc], follows_setPos hs _ s.pos⟩
  | setCell place value next =>
      by_cases hplace : place < values.length
      · obtain rfl : ⟨next, s.pos, values.set place value, []⟩ = e := by
          simpa [effect, hplace] using he
        rw [hs.length] at hplace
        have hc : cells[place]? = some cells[place] := List.getElem?_eq_getElem hplace
        exact ⟨cells, s.setCell cells[place] value, by rw [run, hc],
          follows_setCell hs next hc value⟩
      · simp [effect, hplace] at he
  | makeCell value next =>
      cases he
      exact ⟨cells ++ [s.cells.next], (s.makeCell value).2, rfl, follows_makeCell hs next value⟩

/-- An act that runs has an effect, and there is room for the failures that it records. -/
theorem Act.effect_of_run (a : Act σ R) {s : Session V R} {cells : List Nat} {values : List R}
    (hs : s.Shows cells values) {out : σ × List Nat × Session V R}
    (hrun : a.run s cells = .ok out) :
    ∃ e, a.effect s.input s.pos values = some e ∧ s.failure.Takes e.failures := by
  cases a with
  | exec plan next =>
      cases hexec : plan.exec s.input s.pos with
      | error fault =>
          have hfault : s.exec plan = .error fault := by
            rw [Session.exec, hexec]
            rfl
          rw [run, hfault] at hrun
          cases hrun
      | ok r => exact ⟨⟨next r.matched, r.pos, values, []⟩, by rw [effect, hexec], trivial⟩
  | fail index next =>
      cases hfail : s.fail index with
      | error fault =>
          rw [run, hfail] at hrun
          cases hrun
      | ok after => exact ⟨_, rfl, (fail_eq_ok_iff.1 hfail).1, trivial⟩
  | readCell place next =>
      cases hc : cells[place]? with
      | none =>
          rw [run, hc] at hrun
          cases hrun
      | some c =>
          refine ⟨⟨next (s.cells.read c), s.pos, values, []⟩, ?_, trivial⟩
          rw [effect, ← hs.read, List.getElem?_map, hc]
          rfl
  | setCell place value next =>
      cases hc : cells[place]? with
      | none =>
          rw [run, hc] at hrun
          cases hrun
      | some c =>
          have hplace : place < values.length := by
            rw [hs.length]
            exact (List.getElem?_eq_some_iff.1 hc).1
          exact ⟨⟨next, s.pos, values.set place value, []⟩, if_pos hplace, trivial⟩
  | failSilently | readPos | setPos | makeCell => exact ⟨_, rfl, trivial⟩

section Runs

variable [BEq R] [ToString R]

theorem RuleSet.run_act (rules : RuleSet σ V R) (mode : CallMode) (fuel : Nat) {state : σ}
    {a : Act σ R} (hmove : rules.move state = .act a) (cells : List Nat) (s : Session V R) :
    rules.run mode (fuel + 1) state cells s =
      (a.run s cells >>= fun out => rules.run mode fuel out.1 out.2.1 out.2.2) := by
  rw [run, hmove]

theorem RuleSet.run_call (rules : RuleSet σ V R) (mode : CallMode) (fuel : Nat) {state : σ}
    {slot : Nat} {args : List Nat} {distinct : args.Nodup} {next : Option V → σ}
    (hmove : rules.move state = .call slot args distinct next) {cells refs : List Nat}
    (hrefs : pick cells args = some refs) (s : Session V R) :
    rules.run mode (fuel + 1) state cells s =
      (s.call mode slot refs (rules.run mode fuel (rules.start slot) refs) >>=
        fun out => rules.run mode fuel (next out.1) cells out.2) := by
  rw [run, hmove]
  simp only [hrefs]

/-- A run that answers calls by running their bodies has the meaning of its body. -/
theorem RuleSet.gives_of_run_direct (rules : RuleSet σ V R) {fuel : Nat} {state : σ}
    {s s' : Session V R} {cells : List Nat} {values : List R} {result : Option V}
    (hs : s.Shows cells values)
    (hrun : rules.run .direct fuel state cells s = .ok (result, s')) :
    ∃ fin, rules.Gives s.input state s.pos values fin ∧ fin.result = result ∧
      s.Reaches s' cells fin := by
  induction fuel generalizing state s cells values result s' with
  | zero => cases hrun
  | succ fuel ih =>
      cases hmove : rules.move state with
      | done result' =>
          rw [run, hmove] at hrun
          cases hrun
          exact ⟨_, .done hmove, rfl, reaches_self hs result⟩
      | act a =>
          rw [rules.run_act .direct fuel hmove, bind_eq_ok] at hrun
          obtain ⟨out, hact, hrest⟩ := hrun
          obtain ⟨e, he, hroom⟩ := a.effect_of_run hs hact
          obtain ⟨cells₁, s₁, hact₁, h₁⟩ := a.run_of_effect hs he hroom
          rw [hact] at hact₁
          cases hact₁
          obtain ⟨fin, hgives, hresult, hreaches⟩ := ih h₁.shows hrest
          rw [h₁.evolves.input, h₁.pos] at hgives
          exact ⟨_, .act hmove he hgives, hresult,
            Reaches.trans h₁.evolves hreaches h₁.keeps h₁.fresh⟩
      | call slot args distinct next =>
          cases hrefs : pick cells args with
          | none =>
              rw [run, hmove] at hrun
              simp [hrefs] at hrun
          | some refs =>
              rw [rules.run_call .direct fuel hmove hrefs, bind_eq_ok] at hrun
              obtain ⟨⟨inner, s₁⟩, hbody, hrest⟩ := hrun
              have hgiven : pick values args = some (refs.map s.cells.read) := by
                rw [hs.pick_values, hrefs, Option.map_some]
              obtain ⟨body, hinner, rfl, h₁⟩ := ih (hs.pick distinct hrefs) hbody
              have hcells := h₁.evolves.of_pick hrefs
              obtain ⟨fin, hgives, hresult, hreaches⟩ := ih (hs.of_evolves hcells) hrest
              rw [h₁.evolves.input, h₁.pos] at hgives
              have hafter := Reaches.putBack hs hrefs h₁
              rw [← List.length_map s.cells.read] at hafter
              exact ⟨_, .call hmove hgiven hinner hafter hgives, hresult,
                Reaches.trans hcells hreaches List.prefix_rfl fun c hc => Or.inl hc⟩

end Runs

end Packrat
