import Packrat.Parse.Session
import Packrat.Plan.Class
import Packrat.Proofs.CharClass.Reduced
import Packrat.Proofs.Plan.Exec

/-!
# What class plans match

The plan of a class matches one character or nothing, whichever way it loads it.  Where case matters
and ranges have their ends in order, it matches the characters that the class describes, at any
place in any input.  Main statements: what the plan of any class gives (`exec_ofClass_eq`), and that
it is the class where case matters (`exec_ofClass_caseSensitive`).
-/

namespace Packrat

open Text

theorem occursIn_singleton_iff {c : Char} {set : Text} : occursIn [c] set = true ↔ c ∈ set := by
  induction set with
  | nil => simp [occursIn]
  | cons d set ih => simp [occursIn, ih, List.isPrefixOf]

namespace ReducedClass

/-- What the condition of a reduced class comes to for a character. -/
def admits (reduced : ReducedClass) (inverted ignoreCase : Bool) (c : Char) : Bool :=
  !(reduced.set.isEmpty && reduced.ranges.isEmpty) && (reduced.accepts ignoreCase c != inverted)

variable {input : Text} {s : PlanState} {reg : Reg}

/-- The condition is false where nothing was loaded. -/
theorem test_cond_of_nil (reduced : ReducedClass) (inverted ignoreCase : Bool)
    (h : s.regs reg = []) : (reduced.cond reg inverted ignoreCase).test input s = .ok false := by
  obtain ⟨set, ranges⟩ := reduced
  cases set <;> cases ranges <;> cases inverted <;>
    simp [cond, tests, Cond.test, h]

theorem test_cond_of_singleton (reduced : ReducedClass) (inverted ignoreCase : Bool) {c : Char}
    (h : s.regs reg = [c]) :
    (reduced.cond reg inverted ignoreCase).test input s =
      .ok (reduced.admits inverted ignoreCase c) := by
  obtain ⟨set, ranges⟩ := reduced
  have hset : occursIn [c] set = set.contains c := by
    rw [Bool.eq_iff_iff, occursIn_singleton_iff, List.contains_iff_mem]
  have hnone : inClassRanges [] ignoreCase c = false := by simp [inClassRanges]
  cases hempty : set with
  | nil =>
      cases ranges with
      | nil => simp [cond, tests, Cond.test, admits]
      | cons r ranges => simp [cond, tests, Cond.test, admits, accepts, h]
  | cons d set' =>
      rw [← hempty]
      have hne : set.isEmpty = false := by rw [hempty]; rfl
      cases ranges with
      | nil => simp [cond, tests, Cond.test, admits, accepts, h, hne, hset, hnone]
      | cons r ranges =>
          -- the right side is tested or not depending on the left
          cases inverted <;> by_cases hc : c ∈ set <;>
            simp [cond, tests, Cond.test, admits, accepts, h, hne, hset, hc]

end ReducedClass

/-- Whether the plan of a class matches a character. -/
def CharClass.matchesChar (cls : CharClass) (small : Bool) (c : Char) : Bool :=
  if cls.parts.isEmpty then cls.inverted
  else (ReducedClass.ofRanges ⟨cls.ignoreCase, small⟩ cls.ranges).admits cls.inverted
    cls.ignoreCase c

/-- The plan of a class matches one character or nothing. -/
theorem exec_ofClass_eq (cls : CharClass) {reg : Reg} (small : Bool) {input rest : Text} {pos : Nat}
    (hreg : reg.index < 4) (hrest : readFrom input pos = .ok rest) :
    (MatchPlan.ofClass cls reg small).exec input pos =
      .ok (oneChar (cls.matchesChar small) pos rest) := by
  unfold MatchPlan.ofClass
  by_cases hempty : cls.parts.isEmpty = true
  · have hconst : cls.matchesChar small = fun _ => cls.inverted := by
      funext c
      exact if_pos hempty
    rw [if_pos hempty, hconst]
    cases cls.inverted with
    | true => exact exec_any hreg hrest
    | false => exact exec_never ..
  · rw [if_neg hempty]
    have hadmits : cls.matchesChar small =
        (ReducedClass.ofRanges ⟨cls.ignoreCase, small⟩ cls.ranges).admits cls.inverted
          cls.ignoreCase := by
      funext c
      exact if_neg hempty
    have hcond : ∀ s : PlanState, s.regs reg = rest.take 1 →
        ((ReducedClass.ofRanges ⟨cls.ignoreCase, small⟩ cls.ranges).cond reg cls.inverted
          cls.ignoreCase).test input s = .ok ((rest.take 1).any (cls.matchesChar small)) := by
      intro s hs
      cases rest with
      | nil => exact ReducedClass.test_cond_of_nil _ _ _ hs
      | cons c cs =>
          rw [ReducedClass.test_cond_of_singleton _ _ _ hs, hadmits]
          simp
    by_cases hastral : cls.ranges.any CharRange.isAstral = true
    · simp only [hastral, if_true]
      exact exec_oneChar (.inr rfl) (.inr rfl) hreg hrest hcond
    · simp only [hastral]
      exact exec_oneChar (.inl rfl) (.inl rfl) hreg hrest hcond

theorem matchesOne_ofClass (cls : CharClass) {reg : Reg} (small : Bool) (hreg : reg.index < 4) :
    (MatchPlan.ofClass cls reg small).MatchesOne (cls.matchesChar small) :=
  ⟨exec_ofClass_eq cls small hreg⟩

/-- A part of a class describes a character. -/
def ClassPart.Describes : ClassPart → Char → Prop
  | char d, c => c = d
  | range first last, c => first ≤ c ∧ c ≤ last

/-- A class that heeds case selects a character that some part describes, or none if inverted. -/
def CharClass.Selects (cls : CharClass) (c : Char) : Prop :=
  (∃ part ∈ cls.parts, part.Describes c) ↔ cls.inverted = false

/-- Every range among some parts has its ends in order. -/
def ClassPart.Ordered (parts : List ClassPart) : Prop :=
  ∀ first last, ClassPart.range first last ∈ parts → first ≤ last

theorem ClassPart.describes_iff (part : ClassPart) (c : Char) :
    part.Describes c ↔ part.toRange.first.toNat ≤ c.toNat ∧ c.toNat ≤ part.toRange.last.toNat := by
  cases part with
  | char d =>
      simp only [Describes, toRange]
      constructor
      · rintro rfl
        exact ⟨Nat.le_refl _, Nat.le_refl _⟩
      · rintro ⟨hle, hge⟩
        exact Char.toNat_inj.1 (Nat.le_antisymm hge hle)
  | range first last => exact Iff.rfl

theorem CharClass.covers_ranges_iff (cls : CharClass) (c : Char) :
    CharRange.Covers cls.ranges c.toNat ↔ ∃ part ∈ cls.parts, part.Describes c := by
  constructor
  · rintro ⟨r, hr, hc⟩
    obtain ⟨part, hpart, rfl⟩ := List.mem_map.1 hr
    exact ⟨part, hpart, (part.describes_iff c).2 hc⟩
  · rintro ⟨part, hpart, hc⟩
    exact ⟨part.toRange, List.mem_map_of_mem hpart, (part.describes_iff c).1 hc⟩

/-- The first end of an ordered range is a member, so that something is left to test. -/
theorem CharClass.exists_covered (cls : CharClass) (hparts : cls.parts ≠ [])
    (hordered : ClassPart.Ordered cls.parts) : ∃ c : Char, CharRange.Covers cls.ranges c.toNat := by
  obtain ⟨part, rest, hcons⟩ := List.exists_cons_of_ne_nil hparts
  have hpart : part ∈ cls.parts := by simp [hcons]
  refine ⟨part.toRange.first, (cls.covers_ranges_iff _).2 ⟨part, hpart, ?_⟩⟩
  cases part with
  | char d => rfl
  | range first last => exact ⟨Char.le_refl first, hordered first last hpart⟩

theorem CharClass.matchesChar_iff_selects {parts : List ClassPart} (inverted small : Bool)
    (hordered : ClassPart.Ordered parts) (c : Char) :
    CharClass.matchesChar ⟨parts, inverted, false⟩ small c = true ↔
      CharClass.Selects ⟨parts, inverted, false⟩ c := by
  by_cases hempty : parts = []
  · subst hempty
    cases inverted <;> simp [matchesChar, Selects]
  · obtain ⟨d, hd⟩ := CharClass.exists_covered ⟨parts, inverted, false⟩ hempty hordered
    rw [← ReducedClass.accepts_ofRanges_iff small] at hd
    have hc := ReducedClass.accepts_ofRanges_iff small
      (CharClass.ranges ⟨parts, inverted, false⟩) c
    rw [CharClass.covers_ranges_iff] at hc
    have hparts : parts.isEmpty = false := by simpa using hempty
    simp only [matchesChar, hparts, Selects, ← hc]
    generalize ReducedClass.ofRanges _ _ = reduced at hd ⊢
    -- the member `d` is accepted, so one of the tests is there
    have htests : (reduced.set.isEmpty && reduced.ranges.isEmpty) = false := by
      obtain ⟨set, ranges⟩ := reduced
      cases set <;> cases ranges <;> simp_all [ReducedClass.accepts, inClassRanges]
    cases inverted <;> simp [ReducedClass.admits, htests]

namespace Session

variable {V R : Type}

theorem rest_of_isBoundary {s : Session V R} (h : isBoundary s.pos s.input = true) :
    ∃ rest, s.rest = .ok rest :=
  exists_readFrom h

theorem setPos_self (s : Session V R) : s.setPos s.pos = s := rfl

/-- A plan of a class that heeds case matches the character at the cursor if the class selects it,
and nothing else. -/
theorem exec_ofClass_caseSensitive (s : Session V R) {parts : List ClassPart}
    (inverted small : Bool) {reg : Reg} (hordered : ClassPart.Ordered parts) (hreg : reg.index < 4)
    (hpos : isBoundary s.pos s.input = true) :
    (∀ c cs, s.rest = .ok (c :: cs) → CharClass.Selects ⟨parts, inverted, false⟩ c →
      s.exec (.ofClass ⟨parts, inverted, false⟩ reg small) =
        .ok (some [c], s.setPos (s.pos + c.utf8Size))) ∧
    ((∀ c cs, s.rest = .ok (c :: cs) → ¬ CharClass.Selects ⟨parts, inverted, false⟩ c) →
      s.exec (.ofClass ⟨parts, inverted, false⟩ reg small) = .ok (none, s)) := by
  constructor
  · intro c cs hrest hselects
    have hmatches := (CharClass.matchesChar_iff_selects inverted small hordered c).2 hselects
    have hexec := exec_ofClass_eq ⟨parts, inverted, false⟩ small hreg hrest
    simp [exec, hexec, oneChar, hmatches]
  · intro hnone
    obtain ⟨rest, hrest⟩ := rest_of_isBoundary hpos
    have hexec := exec_ofClass_eq ⟨parts, inverted, false⟩ small hreg hrest
    cases rest with
    | nil => simp [exec, hexec, oneChar, setPos_self]
    | cons c cs =>
        have hmiss : CharClass.matchesChar ⟨parts, inverted, false⟩ small c = false := by
          rw [Bool.eq_false_iff, ne_eq, CharClass.matchesChar_iff_selects inverted small hordered]
          exact hnone c cs hrest
        simp [exec, hexec, oneChar, hmiss, setPos_self]

end Session

namespace ClassPlanWitness

def parts : List ClassPart := [.range 'a' 'c', .char '_']

theorem ordered_parts : ClassPart.Ordered parts := by
  intro first last h
  obtain ⟨rfl, rfl⟩ : first = 'a' ∧ last = 'c' := by simpa [parts] using h
  decide

/-- The cursor stands between a letter that takes two bytes and one that the class describes. -/
def session : Session Unit Unit := ⟨['é', 'b'], 2, .empty, .empty, .empty⟩

theorem selects_b : CharClass.Selects ⟨parts, false, false⟩ 'b' := by
  have hdescribes : (ClassPart.range 'a' 'c').Describes 'b' := by
    constructor <;> decide
  exact ⟨fun _ => rfl, fun _ => ⟨_, List.mem_cons_self, hdescribes⟩⟩

theorem exec_parts :
    isBoundary session.pos session.input = true ∧
      session.exec (.ofClass ⟨parts, false, false⟩ ⟨3⟩ true) =
        .ok (some ['b'], session.setPos 3) := by
  have hpos : isBoundary session.pos session.input = true := by decide
  exact ⟨hpos, (session.exec_ofClass_caseSensitive false true ordered_parts (by decide) hpos).1
    'b' [] rfl selects_b⟩

end ClassPlanWitness

end Packrat
