import Packrat.Plan.Literal
import Packrat.Proofs.Plan.Exec
import Packrat.Proofs.Text.CaseMap

/-!
# What literal plans match

The plan of a literal matches as many characters as the literal has, or as are left, or nothing,
whichever way it compares them.  Main statements: what the plan of any literal gives
(`exec_ofLiteral_eq`), and that a literal which heeds case matches itself
(`literalMatches_caseSensitive`).
-/

namespace Packrat

open Text

/-- What a plan for a number of characters gives at the head of the remaining input. -/
def headOf (accepted : Bool) (count pos : Nat) (rest : Text) : PlanResult :=
  if accepted then ⟨some (rest.take count), pos + byteLength (rest.take count)⟩ else ⟨none, pos⟩

theorem headOf_eq_some_iff {accepted : Bool} {count pos next : Nat} {rest matched : Text} :
    headOf accepted count pos rest = ⟨some matched, next⟩ ↔
      accepted = true ∧ rest.take count = matched ∧ next = pos + byteLength matched := by
  cases accepted with
  | false => simp [headOf]
  | true =>
      simp only [headOf, if_true, PlanResult.mk.injEq, Option.some.injEq, true_and]
      constructor
      · rintro ⟨rfl, rfl⟩
        exact ⟨rfl, rfl⟩
      · rintro ⟨rfl, rfl⟩
        exact ⟨rfl, rfl⟩

theorem oneChar_eq_headOf (accepts : Char → Bool) (pos : Nat) (rest : Text) :
    oneChar accepts pos rest = headOf (rest.head?.any accepts) 1 pos rest := by
  cases rest with
  | nil => rfl
  | cons c cs => cases h : accepts c <;> simp [oneChar, headOf, h]

/-- Whether the plan of a literal matches at the head of the remaining input. -/
def literalMatches (value : Text) (ignoreCase : Bool) (rest : Text) : Bool :=
  if ignoreCase then lower (rest.take value.length) == lower value
  else if (utf16 value).length = 1 then (utf16 (rest.take 1)).head? == (utf16 value).head?
  else rest.take value.length == value

/-- A text of one code unit is one character. -/
theorem length_of_utf16_length {cs : Text} (h : (utf16 cs).length = 1) : cs.length = 1 := by
  match cs with
  | [] => simp at h
  | [_] => rfl
  | c :: d :: rest =>
      have hc := length_codeUnits_pos c
      have hd := length_codeUnits_pos d
      simp only [utf16_cons, List.length_append] at h
      omega

/-- A text of one code unit is a character of the Basic Multilingual Plane. -/
theorem eq_singleton_of_utf16_length {cs : Text} (h : (utf16 cs).length = 1) :
    ∃ c, cs = [c] ∧ ¬ Astral c := by
  obtain ⟨c, rfl⟩ := List.length_eq_one_iff.1 (length_of_utf16_length h)
  refine ⟨c, rfl, fun hastral => ?_⟩
  have htwo := length_codeUnits_of_astral hastral
  rw [utf16_cons, utf16_nil, List.append_nil] at h
  omega

/-- Only a character of the plane itself starts with its code unit: no half of a surrogate pair is a
character. -/
theorem head?_codeUnits_eq_iff {c d : Char} (hc : ¬ Astral c) :
    (codeUnits d).head? = some c.toNat ↔ d = c := by
  by_cases hd : Astral d
  · have hne : d ≠ c := fun heq => hc (heq ▸ hd)
    have hlarge : ¬ d.toNat < 0x10000 := by
      simp only [Astral] at hd
      omega
    have hvalid : c.toNat < 0xD800 ∨ 0xDFFF < c.toNat ∧ c.toNat < 0x110000 := c.valid
    have hbound : d.toNat < 0xD800 ∨ 0xDFFF < d.toNat ∧ d.toNat < 0x110000 := d.valid
    simp only [codeUnits, if_neg hlarge, List.head?_cons, Option.some.injEq, hne, iff_false]
    omega
  · rw [codeUnits_of_not_astral hd, List.head?_cons, Option.some.injEq, Char.toNat_inj]

/-- A literal that heeds case matches itself, whichever way it is compared. -/
theorem literalMatches_caseSensitive (value rest : Text) :
    literalMatches value false rest = true ↔ rest.take value.length = value := by
  unfold literalMatches
  rw [if_neg Bool.false_ne_true]
  split
  next hone =>
    obtain ⟨c, rfl, hc⟩ := eq_singleton_of_utf16_length hone
    rw [utf16_cons, utf16_nil, List.append_nil, codeUnits_of_not_astral hc]
    cases rest with
    | nil => simp
    | cons d rest => simp [head?_codeUnits_eq_iff hc]
  next => rw [beq_iff_eq]

variable {input rest : Text} {pos : Nat} {reg : Reg}

/-- Loading a candidate, testing it and stepping over it matches the head of the
input or nothing. -/
theorem exec_headOf {load : Stmt} {cond : Cond} {width : Width} {accepted : Bool}
    (hload : load = .loadChar reg ∧ width.chars = 1 ∨ load = .loadSubstring reg width)
    (hreg : reg.index < 4) (hrest : readFrom input pos = .ok rest)
    (hcond : ∀ s : PlanState, s.regs reg = rest.take width.chars →
      cond.test input s = .ok accepted) :
    (MatchPlan.mk reg [load] cond [.advance width]).exec input pos =
      .ok (headOf accepted width.chars pos rest) := by
  let loaded : PlanState := ⟨pos, fun r => if r = reg then rest.take width.chars else []⟩
  have hloaded : load.run input ⟨pos, .empty⟩ = .ok loaded := by
    rcases hload with ⟨rfl, hone⟩ | rfl
    · simp [Stmt.run, hrest, write_of_lt _ hreg, Registers.empty, loaded, hone]
    · simp [Stmt.run, hrest, write_of_lt _ hreg, Registers.empty, loaded]
  have htest : cond.test input loaded = .ok accepted := hcond loaded (if_pos rfl)
  have hadvanced : (Stmt.advance width).run input loaded =
      .ok (loaded.skip (rest.take width.chars)) := by
    simp [Stmt.run, hrest, loaded]
  have hslice : readBetween input pos (pos + byteLength (rest.take width.chars)) =
      .ok (rest.take width.chars) := by
    apply readBetween_of_readFrom _ (rest.drop width.chars)
    rw [List.take_append_drop, hrest]
  simp only [MatchPlan.exec, List.foldlM_cons, List.foldlM_nil, hloaded, htest, hadvanced,
    ok_bind, pure, Except.pure]
  cases accepted with
  | false => rfl
  | true => simp [PlanState.skip, loaded, hslice, headOf]

/-- A literal of one code unit is compared with the unit at the cursor, without a load. -/
theorem exec_codeAt {value : String} {unit : Nat} {width : Width} (hreg : reg.index < 4)
    (hrest : readFrom input pos = .ok rest) :
    (MatchPlan.mk reg [] (.codeAt unit) [.assign reg value, .advance width]).exec input pos =
      .ok (headOf ((utf16 (rest.take 1)).head? == some unit) width.chars pos rest) := by
  have hslice : readBetween input pos (pos + byteLength (rest.take width.chars)) =
      .ok (rest.take width.chars) := by
    apply readBetween_of_readFrom _ (rest.drop width.chars)
    rw [List.take_append_drop, hrest]
  simp only [MatchPlan.exec, List.foldlM_cons, List.foldlM_nil, Cond.test, hrest, ok_bind, pure,
    Except.pure]
  cases (utf16 (rest.take 1)).head? == some unit with
  | false => rfl
  | true =>
      simp [Stmt.run, hrest, write_of_lt _ hreg, PlanState.skip, hslice, headOf]

/-- The plan of a literal matches the head of the input or nothing. -/
theorem exec_ofLiteral_eq (value : String) (ignoreCase : Bool) (hreg : reg.index < 4)
    (hrest : readFrom input pos = .ok rest) :
    (MatchPlan.ofLiteral value ignoreCase reg).exec input pos =
      .ok (headOf (literalMatches value.toList ignoreCase rest) value.toList.length pos rest) := by
  have hwidth : (Width.ofText value.toList).chars = value.toList.length := rfl
  have hload : (if (utf16 value.toList).length = 1 then Stmt.loadChar reg
        else .loadSubstring reg (Width.ofText value.toList)) = .loadChar reg ∧
        (Width.ofText value.toList).chars = 1 ∨
      (if (utf16 value.toList).length = 1 then Stmt.loadChar reg
        else .loadSubstring reg (Width.ofText value.toList)) =
        .loadSubstring reg (Width.ofText value.toList) := by
    by_cases h : (utf16 value.toList).length = 1
    · exact Or.inl ⟨if_pos h, length_of_utf16_length h⟩
    · exact Or.inr (if_neg h)
  unfold MatchPlan.ofLiteral
  rw [← hwidth]
  split
  next unit hunits =>
    rw [exec_codeAt hreg hrest]
    simp [literalMatches, hunits]
  next ignoreCase _ _ hnot =>
    apply exec_headOf hload hreg hrest
    intro s hs
    cases ignoreCase with
    | true => simp [Cond.test, hs, literalMatches, hwidth]
    | false =>
        have hlength : (utf16 value.toList).length ≠ 1 := by
          intro h
          obtain ⟨unit, hunit⟩ := List.length_eq_one_iff.1 h
          exact hnot unit hunit rfl
        simp [Cond.test, hs, literalMatches, hlength, hwidth]

end Packrat
