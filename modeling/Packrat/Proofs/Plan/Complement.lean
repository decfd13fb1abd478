import Packrat.Proofs.Plan.ClassStrategy

/-!
# Classes and their inverses

Inverting a class turns around the outcome of each of its tests and how they are joined, so the
plans of a class and of its inverse share out the characters.  A class of which nothing is left to
test is the exception: its plan matches nothing whether it is inverted or not.  Main statement: for
exactly which classes the two plans are complementary (`complementary_ofClass_iff`).
-/

namespace Packrat

open Text ReducedClass

/-- The class that selects the characters which another does not. -/
def CharClass.inverse (cls : CharClass) : CharClass :=
  { cls with inverted := !cls.inverted }

namespace MatchPlan

/-- Before every character exactly one of two plans matches, and at the end of an input neither
does. -/
structure Complementary (plan other : MatchPlan) : Prop where
  before : ∀ {input : Text} {pos : Nat} {c : Char} {cs : Text},
    readFrom input pos = .ok (c :: cs) →
      plan.Matches input pos ∧ other.Misses input pos ∨
        plan.Misses input pos ∧ other.Matches input pos
  atEnd : ∀ {input : Text} {pos : Nat}, readFrom input pos = .ok [] →
    plan.Misses input pos ∧ other.Misses input pos

variable {plan other : MatchPlan} {accepts acceptsOther : Char → Bool}

/-- Two plans for one character are complementary if they accept opposite characters. -/
theorem MatchesOne.complementary_iff (h : plan.MatchesOne accepts)
    (hother : other.MatchesOne acceptsOther) :
    plan.Complementary other ↔ ∀ c, acceptsOther c = !accepts c := by
  constructor
  · intro hcompl c
    have hrest := readFrom_zero [c]
    rcases hcompl.before hrest with ⟨hmatches, hmisses⟩ | ⟨hmisses, hmatches⟩
    · rw [(h.matches_iff hrest).1 hmatches, (hother.misses_iff hrest).1 hmisses]
      rfl
    · rw [(h.misses_iff hrest).1 hmisses, (hother.matches_iff hrest).1 hmatches]
      rfl
  · intro hopposite
    constructor
    · intro input pos c cs hrest
      rw [h.matches_iff hrest, h.misses_iff hrest, hother.matches_iff hrest,
        hother.misses_iff hrest, hopposite c]
      cases accepts c <;> decide
    · intro input pos hrest
      exact ⟨h.exec_eq hrest, hother.exec_eq hrest⟩

end MatchPlan

namespace CharClass

variable (cls : CharClass)

/-- Where something is left to test, and where there are no parts, the inverse matches the other
characters. -/
theorem matchesChar_inverse (small : Bool)
    (hleft : small = true ∨ cls.parts = [] ∨ ∃ c, cls.Lists c) (c : Char) :
    cls.inverse.matchesChar small c = !cls.matchesChar small c := by
  have hturn : ∀ found inverted : Bool, (found != !inverted) = !(found != inverted) := by decide
  by_cases hparts : cls.parts = []
  · simp [matchesChar, inverse, hparts]
  · cases small with
    | true =>
        rw [cls.matchesChar_small hparts, cls.inverse.matchesChar_small hparts]
        exact hturn _ _
    | false =>
        have hlists : ∃ c, cls.Lists c := by simpa [hparts] using hleft
        rw [cls.matchesChar_fast hlists, cls.inverse.matchesChar_fast hlists]
        exact hturn _ _

end CharClass

/-- The plans of a class and of its inverse are complementary, save for fast tests of a class whose
parts list no character. -/
theorem complementary_ofClass_iff (cls : CharClass) (small : Bool) {reg : Reg}
    (hreg : reg.index < Registers.count) :
    (MatchPlan.ofClass cls reg small).Complementary (.ofClass cls.inverse reg small) ↔
      small = true ∨ cls.parts = [] ∨ ∃ c, cls.Lists c := by
  rw [(matchesOne_ofClass cls small hreg).complementary_iff
    (matchesOne_ofClass cls.inverse small hreg)]
  constructor
  · intro hopposite
    refine Classical.byContradiction fun hnot => ?_
    simp only [not_or, Bool.not_eq_true] at hnot
    obtain ⟨rfl, hparts, hnone⟩ := hnot
    -- neither of the two matches anything
    have hmiss := cls.matchesChar_fast_of_not_lists hparts hnone 'x'
    have hmissInverse := cls.inverse.matchesChar_fast_of_not_lists hparts hnone 'x'
    have hx := hopposite 'x'
    rw [hmiss, hmissInverse] at hx
    cases hx
  · exact cls.matchesChar_inverse small

namespace ComplementWitness

/-- A range whose ends are in order, beside one whose ends are not, where case is ignored. -/
def mixed : CharClass := ⟨[.range 'a' 'c', .range 'z' 'x'], false, true⟩

/-- A range whose ends are not in order. -/
def reversed : CharClass := ⟨[.range 'b' 'a'], false, false⟩

theorem mixed_complementary :
    (⟨3⟩ : Reg).index < Registers.count ∧
      (MatchPlan.ofClass mixed ⟨3⟩ false).Complementary (.ofClass mixed.inverse ⟨3⟩ false) := by
  have hreg : (⟨3⟩ : Reg).index < Registers.count := by decide
  have hlists : mixed.Lists 'b' := by
    refine ⟨.range 'a' 'c', List.mem_cons_self, ?_⟩
    constructor <;> decide
  exact ⟨hreg, (complementary_ofClass_iff mixed false hreg).2 (Or.inr (Or.inr ⟨'b', hlists⟩))⟩

/-- For fast tests neither this class nor its inverse matches a character. -/
theorem not_exec_reversed :
    (MatchPlan.ofClass reversed ⟨0⟩ false).Misses ['x'] 0 ∧
      (MatchPlan.ofClass reversed.inverse ⟨0⟩ false).Misses ['x'] 0 :=
  ⟨rfl, rfl⟩

end ComplementWitness

end Packrat
