import Packrat.Plan.Exec

/-!
# Runs of plans

What the statements of a plan do where the cursor is at a place in the input, and what a plan gives
that loads one character, tests it and steps over it.  Main statements: `exec_oneChar`, `exec_any`.
-/

namespace Packrat

open Text

section

variable {α β ε : Type}

@[simp] theorem ok_bind (a : α) (f : α → Except ε β) : (Except.ok a >>= f) = f a := rfl

theorem bind_eq_ok {x : Except ε α} {f : α → Except ε β} {b : β} :
    (x >>= f) = .ok b ↔ ∃ a, x = .ok a ∧ f a = .ok b := by
  cases x with
  | error e => simp [bind, Except.bind]
  | ok a => simp

theorem bind_eq_error {x : Except ε α} {f : α → Except ε β} {e : ε} :
    (x >>= f) = .error e ↔ x = .error e ∨ ∃ a, x = .ok a ∧ f a = .error e := by
  cases x with
  | error other => simp [bind, Except.bind]
  | ok a => simp

end

variable {input rest left right : Text} {pos middle stop : Nat} {reg : Reg}

/-- What a plan for one character gives at the head of the remaining input. -/
def oneChar (accepts : Char → Bool) (pos : Nat) : Text → PlanResult
  | c :: _ => if accepts c then ⟨some [c], pos + c.utf8Size⟩ else ⟨none, pos⟩
  | [] => ⟨none, pos⟩

/-- The plan consumes something at a position. -/
def MatchPlan.Matches (plan : MatchPlan) (input : Text) (pos : Nat) : Prop :=
  ∃ matched next, plan.exec input pos = .ok ⟨some matched, next⟩

/-- The plan does not match at a position, and leaves the cursor there. -/
def MatchPlan.Misses (plan : MatchPlan) (input : Text) (pos : Nat) : Prop :=
  plan.exec input pos = .ok ⟨none, pos⟩

/-- Wherever the input can be read, the plan matches the next character if it is accepted, and
nothing else. -/
structure MatchPlan.MatchesOne (plan : MatchPlan) (accepts : Char → Bool) : Prop where
  exec_eq : ∀ {input rest : Text} {pos : Nat}, readFrom input pos = .ok rest →
    plan.exec input pos = .ok (oneChar accepts pos rest)

namespace MatchPlan.MatchesOne

variable {plan : MatchPlan} {accepts : Char → Bool} {c : Char} {cs : Text}

theorem matches_iff (h : plan.MatchesOne accepts) (hrest : readFrom input pos = .ok (c :: cs)) :
    plan.Matches input pos ↔ accepts c = true := by
  cases haccepts : accepts c <;> simp [Matches, h.exec_eq hrest, oneChar, haccepts]

theorem misses_iff (h : plan.MatchesOne accepts) (hrest : readFrom input pos = .ok (c :: cs)) :
    plan.Misses input pos ↔ accepts c = false := by
  cases haccepts : accepts c <;> simp [Misses, h.exec_eq hrest, oneChar, haccepts]

end MatchPlan.MatchesOne

theorem oneChar_eq_some_iff {accepts : Char → Bool} {matched : Text} {next : Nat} :
    oneChar accepts pos rest = ⟨some matched, next⟩ ↔
      ∃ c cs, rest = c :: cs ∧ accepts c = true ∧ matched = [c] ∧ next = pos + c.utf8Size := by
  cases rest with
  | nil => simp [oneChar]
  | cons c cs =>
      cases haccepts : accepts c with
      | false => simp [oneChar, haccepts]
      | true =>
          simp only [oneChar, haccepts, if_true, PlanResult.mk.injEq, Option.some.injEq]
          constructor
          · rintro ⟨rfl, rfl⟩
            exact ⟨c, cs, rfl, haccepts, rfl, rfl⟩
          · rintro ⟨d, ds, hcons, -, rfl, rfl⟩
            cases hcons
            exact ⟨rfl, rfl⟩

theorem dropBytes?_of_readFrom (h : readFrom input pos = .ok rest) :
    dropBytes? pos input = some rest := by
  unfold readFrom at h
  split at h
  next hdrop => rw [hdrop, Except.ok.inj h]
  next => cases h

/-- The input is read between two characters, and what is read is all that follows. -/
theorem readFrom_eq_ok_iff :
    readFrom input pos = .ok rest ↔ ∃ before, input = before ++ rest ∧ byteLength before = pos := by
  constructor
  · intro h
    have hdrop := dropBytes?_of_readFrom h
    simp only [dropBytes?, Option.map_eq_some_iff] at hdrop
    obtain ⟨⟨before, after⟩, hsplit, rfl⟩ := hdrop
    exact ⟨before, splitBytes?_eq_some_iff.1 hsplit⟩
  · rintro ⟨before, rfl, rfl⟩
    simp [readFrom, dropBytes?, splitBytes?_append]

namespace Text

theorem isBoundary_iff {pos : Nat} {cs : Text} :
    isBoundary pos cs = true ↔ ∃ before after, cs = before ++ after ∧ byteLength before = pos := by
  simp [isBoundary, Option.isSome_iff_exists, splitBytes?_eq_some_iff]

/-- A position between two characters is not past the end. -/
theorem le_of_isBoundary {pos : Nat} {cs : Text} (h : isBoundary pos cs = true) :
    pos ≤ byteLength cs := by
  obtain ⟨before, after, rfl, rfl⟩ := isBoundary_iff.1 h
  simp

end Text

/-- The input is read wherever a position is between two characters. -/
theorem exists_readFrom (h : isBoundary pos input = true) :
    ∃ rest, readFrom input pos = .ok rest := by
  obtain ⟨⟨before, after⟩, hsplit⟩ := Option.isSome_iff_exists.1 h
  refine ⟨after, ?_⟩
  simp [readFrom, dropBytes?, hsplit]

theorem isBoundary_zero (input : Text) : isBoundary 0 input = true := by
  simp [isBoundary, splitBytes?]

theorem readFrom_zero (input : Text) : readFrom input 0 = .ok input :=
  readFrom_eq_ok_iff.2 ⟨[], rfl, rfl⟩

theorem byteLength_of_readFrom (h : readFrom input pos = .ok rest) :
    byteLength input = pos + byteLength rest := by
  obtain ⟨before, rfl, rfl⟩ := readFrom_eq_ok_iff.1 h
  exact byteLength_append before rest

theorem readBetween_of_readFrom (piece after : Text)
    (h : readFrom input pos = .ok (piece ++ after)) :
    readBetween input pos (pos + byteLength piece) = .ok piece := by
  have hsplit := splitBytes?_append piece after
  simp [readBetween, sliceBytes?, dropBytes?_of_readFrom h, hsplit]

/-- The input between two positions is the piece between what comes before and after. -/
theorem readBetween_eq_ok_iff {piece : Text} :
    readBetween input pos stop = .ok piece ↔
      ∃ before after, input = before ++ (piece ++ after) ∧ byteLength before = pos ∧
        pos + byteLength piece = stop := by
  constructor
  · intro h
    unfold readBetween at h
    split at h
    next slice hslice =>
      obtain rfl := Except.ok.inj h
      simp only [sliceBytes?] at hslice
      split at hslice
      next hle =>
        simp only [Option.bind_eq_bind, Option.bind_eq_some_iff, Prod.exists, dropBytes?,
          Option.map_eq_some_iff, splitBytes?_eq_some_iff, Option.some.injEq] at hslice
        obtain ⟨_, ⟨before, _, ⟨rfl, rfl⟩, rfl⟩, _, after, ⟨rfl, hlength⟩, rfl⟩ := hslice
        exact ⟨before, after, rfl, rfl, by omega⟩
      next => cases hslice
    next => cases h
  · rintro ⟨before, after, rfl, rfl, rfl⟩
    exact readBetween_of_readFrom piece after (readFrom_eq_ok_iff.2 ⟨before, rfl, rfl⟩)

theorem readFrom_of_readBetween (h : readBetween input pos stop = .ok left) :
    ∃ rest, readFrom input stop = .ok rest := by
  obtain ⟨before, after, rfl, rfl, rfl⟩ := readBetween_eq_ok_iff.1 h
  refine ⟨after, readFrom_eq_ok_iff.2 ⟨before ++ left, ?_, byteLength_append before left⟩⟩
  rw [List.append_assoc]

theorem isBoundary_of_readFrom (h : readFrom input pos = .ok rest) :
    isBoundary pos input = true := by
  obtain ⟨before, rfl, rfl⟩ := readFrom_eq_ok_iff.1 h
  exact isBoundary_iff.2 ⟨before, rest, rfl, rfl⟩

theorem readBetween_self (h : readFrom input pos = .ok rest) :
    readBetween input pos pos = .ok [] := by
  obtain ⟨before, rfl, rfl⟩ := readFrom_eq_ok_iff.1 h
  exact readBetween_eq_ok_iff.2 ⟨before, rest, rfl, rfl, rfl⟩

/-- Pieces that follow one another are read as one. -/
theorem readBetween_append (hleft : readBetween input pos middle = .ok left)
    (hright : readBetween input middle stop = .ok right) :
    readBetween input pos stop = .ok (left ++ right) := by
  obtain ⟨before, after, rfl, rfl, rfl⟩ := readBetween_eq_ok_iff.1 hleft
  obtain ⟨before', after', hinput, hbefore', rfl⟩ := readBetween_eq_ok_iff.1 hright
  have hrest : readFrom (before ++ (left ++ after)) (byteLength before + byteLength left) =
      .ok after :=
    readFrom_eq_ok_iff.2 ⟨before ++ left, by rw [List.append_assoc], byteLength_append ..⟩
  have hrest' : readFrom (before ++ (left ++ after)) (byteLength before + byteLength left) =
      .ok (right ++ after') :=
    readFrom_eq_ok_iff.2 ⟨before', hinput, hbefore'⟩
  obtain rfl : after = right ++ after' := Except.ok.inj (hrest.symm.trans hrest')
  refine readBetween_eq_ok_iff.2 ⟨before, after', ?_, rfl, ?_⟩
  · rw [List.append_assoc]
  · rw [byteLength_append, Nat.add_assoc]

theorem write_of_lt (s : PlanState) (hreg : reg.index < 4) (value : Text) :
    s.write reg value = .ok { s with regs := fun r => if r = reg then value else s.regs r } := by
  have hwrite : s.regs.write reg value =
      .ok fun r => if r = reg then value else s.regs r := if_pos hreg
  simp [PlanState.write, hwrite]

/-- Loading a character, testing it and stepping over it matches one character or nothing. -/
theorem exec_oneChar {load advance : Stmt} {cond : Cond} {accepts : Char → Bool}
    (hload : load = .loadChar reg ∨ load = .loadCodePoint reg)
    (hadvance : advance = .advance .one ∨ advance = .advancePast reg)
    (hreg : reg.index < 4) (hrest : readFrom input pos = .ok rest)
    (hcond : ∀ s : PlanState, s.regs reg = rest.take 1 →
      cond.test input s = .ok ((rest.take 1).any accepts)) :
    (MatchPlan.mk reg [load] cond [advance]).exec input pos = .ok (oneChar accepts pos rest) := by
  have hloaded : load.run input ⟨pos, .empty⟩ =
      .ok ⟨pos, fun r => if r = reg then rest.take 1 else []⟩ := by
    rcases hload with rfl | rfl <;>
      simp [Stmt.run, hrest, write_of_lt _ hreg, Registers.empty]
  have htest := hcond ⟨pos, fun r => if r = reg then rest.take 1 else []⟩ (if_pos rfl)
  have hadvanced : advance.run input ⟨pos, fun r => if r = reg then rest.take 1 else []⟩ =
      .ok ⟨pos + byteLength (rest.take 1), fun r => if r = reg then rest.take 1 else []⟩ := by
    rcases hadvance with rfl | rfl <;>
      simp [Stmt.run, hrest, PlanState.skip, Width.one]
  have hslice : readBetween input pos (pos + byteLength (rest.take 1)) = .ok (rest.take 1) := by
    apply readBetween_of_readFrom _ (rest.drop 1)
    rw [List.take_append_drop, hrest]
  simp only [MatchPlan.exec, List.foldlM_cons, List.foldlM_nil, hloaded, htest, hadvanced,
    hslice, ok_bind, pure, Except.pure]
  cases rest with
  | nil => rfl
  | cons c cs => cases haccepts : accepts c <;> simp [oneChar, haccepts]

theorem exec_any (hreg : reg.index < 4) (hrest : readFrom input pos = .ok rest) :
    (MatchPlan.any reg).exec input pos = .ok (oneChar (fun _ => true) pos rest) := by
  have hlength := byteLength_of_readFrom hrest
  cases rest with
  | nil =>
      have hend : ¬ pos < byteLength input := by
        rw [hlength, byteLength_nil]
        omega
      simp [MatchPlan.exec, MatchPlan.any, Cond.test, hend, oneChar, pure, Except.pure]
  | cons c cs =>
      have hmore : pos < byteLength input := by
        have := c.utf8Size_pos
        rw [hlength, byteLength_cons]
        omega
      have hslice : readBetween input pos (pos + c.utf8Size) = .ok [c] :=
        readBetween_of_readFrom [c] cs hrest
      simp [MatchPlan.exec, MatchPlan.any, Cond.test, hmore, oneChar, Stmt.run, hrest,
        write_of_lt _ hreg, PlanState.skip, hslice, pure, Except.pure]

theorem exec_never (reg : Reg) (input rest : Text) (pos : Nat) :
    (MatchPlan.never reg).exec input pos = .ok (oneChar (fun _ => false) pos rest) := by
  cases rest <;> rfl

end Packrat
