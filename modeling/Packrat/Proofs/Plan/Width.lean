import Packrat.Proofs.Plan.ClassStrategy
import Packrat.Proofs.Plan.Literal

/-!
# Widths of matches

A plan that steps by a fixed width tells a target in code units how far to go before any input is
seen.  It keeps pace if what it consumes always has that width in both measures.  Main statement:
exactly which plans of literals and classes do (`keepsPace_iff`).
-/

namespace Packrat

open Text ReducedClass

/-- Wherever the plan matches, the text it consumes has the width that it steps by. -/
def MatchPlan.KeepsPace (plan : MatchPlan) : Prop :=
  ∀ width, .advance width ∈ plan.onSuccess → ∀ (input matched : Text) (pos next : Nat),
    isBoundary pos input = true → plan.exec input pos = .ok ⟨some matched, next⟩ →
      Width.ofText matched = width

/-- A plan that matches a number of characters at the head of the remaining input, or nothing, keeps
pace if whatever it accepts there has its width. -/
theorem keepsPace_iff_of_exec {plan : MatchPlan} {accepts : Text → Bool} {count : Nat}
    (hexec : ∀ {input rest : Text} {pos : Nat}, readFrom input pos = .ok rest →
      plan.exec input pos = .ok (headOf (accepts rest) count pos rest)) :
    plan.KeepsPace ↔ ∀ width, .advance width ∈ plan.onSuccess → ∀ rest : Text,
      accepts rest = true → Width.ofText (rest.take count) = width := by
  constructor
  · intro hpace width hadvance rest haccepts
    have hrun := hexec (readFrom_zero rest)
    rw [haccepts] at hrun
    exact hpace width hadvance rest _ 0 _ (isBoundary_zero rest) hrun
  · intro hwidth width hadvance input matched pos next hpos hrun
    obtain ⟨rest, hrest⟩ := exists_readFrom hpos
    rw [hexec hrest, Except.ok.injEq, headOf_eq_some_iff] at hrun
    obtain ⟨haccepts, rfl, -⟩ := hrun
    exact hwidth width hadvance rest haccepts

section Literal

variable {value : String} {ignoreCase : Bool} {reg : Reg}

theorem advance_mem_ofLiteral_iff {width : Width} :
    .advance width ∈ (MatchPlan.ofLiteral value ignoreCase reg).onSuccess ↔
      width = .ofText value.toList := by
  unfold MatchPlan.ofLiteral
  split <;> simp

/-- The plan of a literal keeps pace if whatever matches is as wide as the literal. -/
theorem keepsPace_ofLiteral_iff_width (hreg : reg.index < 4) :
    (MatchPlan.ofLiteral value ignoreCase reg).KeepsPace ↔
      ∀ rest : Text, literalMatches value.toList ignoreCase rest = true →
        Width.ofText (rest.take value.toList.length) = .ofText value.toList := by
  rw [keepsPace_iff_of_exec (exec_ofLiteral_eq value ignoreCase hreg)]
  simp only [advance_mem_ofLiteral_iff, forall_eq]

/-- A candidate that was cut short matches a literal only if it writes a letter and its dot as one
character, so these are the literals that fall out of step. -/
theorem keepsPace_ofLiteral_iff (hreg : reg.index < 4) :
    (MatchPlan.ofLiteral value ignoreCase reg).KeepsPace ↔
      ¬ (ignoreCase = true ∧ SpellsDottedI value.toList) := by
  rw [keepsPace_ofLiteral_iff_width hreg]
  cases ignoreCase with
  | false =>
      refine ⟨fun _ h => Bool.false_ne_true h.1, fun _ rest hmatches => ?_⟩
      rw [(literalMatches_caseSensitive _ _).1 hmatches]
  | true =>
      simp only [literalMatches, if_true, beq_iff_eq, true_and, spellsDottedI_iff]
      constructor
      · rintro hwidth ⟨shorter, hlength, hlower⟩
        have hcut : shorter.take value.toList.length = shorter :=
          List.take_of_length_le (Nat.le_of_lt hlength)
        have hwide := hwidth shorter (by rw [hcut, hlower])
        rw [hcut] at hwide
        have hchars : shorter.length = value.toList.length := congrArg Width.chars hwide
        omega
      · intro hnone rest hlower
        have hchars : (rest.take value.toList.length).length = value.toList.length := by
          apply Nat.le_antisymm (List.length_take_le ..)
          exact Nat.le_of_not_lt fun hshort => hnone ⟨_, hshort, hlower⟩
        have hunits := (length_eq_iff_of_lower_eq hlower).1 hchars
        rw [Width.ofText, Width.ofText, hchars, hunits]

end Literal

section Class

variable {cls : CharClass} {small : Bool} {reg : Reg}

theorem advance_mem_ofClass_iff {width : Width} :
    .advance width ∈ (MatchPlan.ofClass cls reg small).onSuccess ↔
      width = .one ∧ cls.parts ≠ [] ∧ cls.ranges.any CharRange.isAstral = false := by
  unfold MatchPlan.ofClass
  by_cases hempty : cls.parts = []
  · cases hinverted : cls.inverted <;> simp [hempty, MatchPlan.any, MatchPlan.never]
  · cases hastral : cls.ranges.any CharRange.isAstral <;> simp [hempty]

/-- A case of a character lies on its side of the end of the plane. -/
theorem astral_iff_of_mem_setForms {ignoreCase : Bool} {c d : Char}
    (h : d ∈ setForms ignoreCase c) : Astral d ↔ Astral c := by
  cases ignoreCase with
  | false =>
      obtain rfl : d = c := by simpa [setForms] using h
      rfl
  | true =>
      rcases mem_setForms_true_iff.1 h with hupper | hlower
      · exact astral_iff_of_upperChar_eq hupper
      · exact astral_iff_of_lowerChar_eq hlower

/-- A class whose ranges end within the plane lists no character beyond it. -/
theorem not_lists_of_astral (hplane : cls.ranges.any CharRange.isAstral = false) {c : Char}
    (hc : Astral c) : ¬ cls.Lists c := by
  rw [CharClass.Lists, ← cls.covers_ranges_iff]
  rintro ⟨r, hr, -, hlast⟩
  have hrange := List.any_eq_false.1 hplane r hr
  simp only [CharRange.isAstral, decide_eq_true_eq] at hrange
  simp only [Astral] at hc
  omega

/-- Ranges that hold only what such a class lists have no case of a character beyond the plane. -/
theorem inClassRanges_of_astral (hplane : cls.ranges.any CharRange.isAstral = false)
    {ranges : List CharRange} (hlists : ∀ d, (∃ r ∈ ranges, r.contains d = true) → cls.Lists d)
    (ignoreCase : Bool) {c : Char} (hc : Astral c) : inClassRanges ranges ignoreCase c = false := by
  rw [Bool.eq_false_iff]
  intro hin
  cases ignoreCase with
  | false => exact not_lists_of_astral hplane hc (hlists c (inClassRanges_iff.1 hin))
  | true =>
      obtain ⟨d, hd, hranges⟩ := inClassRanges_true_iff.1 hin
      have hastral : Astral d := by
        rcases hd with rfl | hd
        · exact hc
        · exact (astral_iff_of_mem_setForms hd).2 hc
      exact not_lists_of_astral hplane hastral (hlists d hranges)

/-- The set and the ranges that such a class is reduced to accept no character beyond the plane. -/
theorem accepts_of_astral (hplane : cls.ranges.any CharRange.isAstral = false) {c : Char}
    (hc : Astral c) :
    (ofRanges ⟨cls.ignoreCase, false⟩ cls.ranges).accepts cls.ignoreCase c = false := by
  rw [Bool.eq_false_iff, ne_eq, cls.accepts_fast_iff]
  rintro (⟨d, hd, hform⟩ | hkept)
  · exact not_lists_of_astral hplane ((astral_iff_of_mem_setForms hform).1 hc) hd.1
  · rw [inClassRanges_of_astral hplane (fun d hd => (cls.lists_iff_unrolls d).2 (Or.inr hd)) _ hc]
      at hkept
    cases hkept

/-- Such a class matches a character beyond the plane if it is inverted and there is something to
test. -/
theorem matchesChar_of_astral (hparts : cls.parts ≠ [])
    (hplane : cls.ranges.any CharRange.isAstral = false) (small : Bool) {c : Char}
    (hc : Astral c) :
    cls.matchesChar small c = true ↔
      cls.inverted = true ∧ (small = true ∨ ∃ d, cls.Lists d) := by
  cases small with
  | true =>
      have hmerged := inClassRanges_of_astral hplane (fun d => (cls.lists_iff_merged d).2)
        cls.ignoreCase hc
      simp [cls.matchesChar_small hparts, hmerged]
  | false =>
      by_cases hlists : ∃ d, cls.Lists d
      · simp [cls.matchesChar_fast hlists, accepts_of_astral hplane hc, hlists]
      · simp [cls.matchesChar_fast_of_not_lists hparts hlists, hlists]

theorem ofText_singleton_eq_one_iff {c : Char} : Width.ofText [c] = .one ↔ ¬ Astral c := by
  by_cases hc : Astral c
  · simp [Width.ofText, Width.one, length_codeUnits_of_astral hc, hc]
  · simp [Width.ofText, Width.one, codeUnits_of_not_astral hc, hc]

/-- The plan of a class keeps pace if, where it steps by one code unit, it matches no character of
two. -/
theorem keepsPace_ofClass_iff_matches (hreg : reg.index < 4) :
    (MatchPlan.ofClass cls reg small).KeepsPace ↔
      (cls.parts ≠ [] → cls.ranges.any CharRange.isAstral = false →
        ∀ c, cls.matchesChar small c = true → ¬ Astral c) := by
  have hexec : ∀ {input rest : Text} {pos : Nat}, readFrom input pos = .ok rest →
      (MatchPlan.ofClass cls reg small).exec input pos =
        .ok (headOf (rest.head?.any (cls.matchesChar small)) 1 pos rest) := by
    intro input rest pos hrest
    rw [exec_ofClass_eq cls small hreg hrest, oneChar_eq_headOf]
  rw [keepsPace_iff_of_exec hexec]
  constructor
  · intro hwidth hparts hplane c hmatches
    have hadvance : .advance .one ∈ (MatchPlan.ofClass cls reg small).onSuccess :=
      advance_mem_ofClass_iff.2 ⟨rfl, hparts, hplane⟩
    exact ofText_singleton_eq_one_iff.1 (hwidth .one hadvance [c] hmatches)
  · intro hnone width hadvance rest hmatches
    obtain ⟨rfl, hparts, hplane⟩ := advance_mem_ofClass_iff.1 hadvance
    cases rest with
    | nil => cases hmatches
    | cons c cs => exact ofText_singleton_eq_one_iff.2 (hnone hparts hplane c hmatches)

/-- There is a character beyond the plane, so the inverted classes that list none of them fall out
of step. -/
theorem keepsPace_ofClass_iff (hreg : reg.index < 4) :
    (MatchPlan.ofClass cls reg small).KeepsPace ↔
      ¬ (cls.inverted = true ∧ cls.parts ≠ [] ∧ cls.ranges.any CharRange.isAstral = false ∧
        (small = true ∨ ∃ c, cls.Lists c)) := by
  rw [keepsPace_ofClass_iff_matches hreg]
  constructor
  · rintro hnone ⟨hinverted, hparts, hplane, hleft⟩
    have hastral : Astral '😀' := by decide
    exact hnone hparts hplane '😀'
      ((matchesChar_of_astral hparts hplane small hastral).2 ⟨hinverted, hleft⟩) hastral
  · intro hnot hparts hplane c hmatches hastral
    obtain ⟨hinverted, hleft⟩ := (matchesChar_of_astral hparts hplane small hastral).1 hmatches
    exact hnot ⟨hinverted, hparts, hplane, hleft⟩

end Class

/-- All plans of literals and classes keep pace, save for those of literals that spell a dotted I
while ignoring case, and of inverted classes with members in the plane only. -/
theorem keepsPace_iff {reg : Reg} (hreg : reg.index < Registers.count) :
    (∀ value ignoreCase, (MatchPlan.ofLiteral value ignoreCase reg).KeepsPace ↔
      ¬ (ignoreCase = true ∧ SpellsDottedI value.toList)) ∧
    ∀ cls small, (MatchPlan.ofClass cls reg small).KeepsPace ↔
      ¬ (cls.inverted = true ∧ cls.parts ≠ [] ∧ cls.ranges.any CharRange.isAstral = false ∧
        (small = true ∨ ∃ c, cls.Lists c)) :=
  ⟨fun _ _ => keepsPace_ofLiteral_iff hreg, fun _ _ => keepsPace_ofClass_iff hreg⟩

namespace WidthWitness

/-- All characters but one letter. -/
def inverted : CharClass := ⟨[.char 'a'], true, false⟩

/-- A small i and its dot. -/
def dotted : String := .ofList ['i', dotAbove]

theorem inverted_dotted_fall_out :
    (⟨3⟩ : Reg).index < Registers.count ∧
      (MatchPlan.ofLiteral dotted false ⟨3⟩).KeepsPace ∧
      ¬ (MatchPlan.ofLiteral dotted true ⟨3⟩).KeepsPace ∧
      (MatchPlan.ofClass { inverted with inverted := false } ⟨3⟩ true).KeepsPace ∧
      ¬ (MatchPlan.ofClass inverted ⟨3⟩ true).KeepsPace := by
  have hreg : (⟨3⟩ : Reg).index < Registers.count := by decide
  have hspells : SpellsDottedI dotted.toList := by decide
  obtain ⟨hliteral, hclass⟩ := keepsPace_iff hreg
  refine ⟨hreg, ?_, ?_, ?_, ?_⟩
  · rw [hliteral]
    exact fun h => Bool.false_ne_true h.1
  · rw [hliteral]
    exact not_not_intro ⟨rfl, hspells⟩
  · rw [hclass]
    exact fun h => Bool.false_ne_true h.1
  · rw [hclass]
    exact not_not_intro ⟨rfl, by decide, rfl, Or.inl rfl⟩

/-- The class steps by one code unit over a character of two, and the literal by two over a
character of one. -/
theorem exec_inverted_dotted :
    let class_ := MatchPlan.ofClass inverted ⟨0⟩ false
    let literal := MatchPlan.ofLiteral dotted true ⟨0⟩
    (.advance ⟨1, 1⟩ ∈ class_.onSuccess ∧ class_.exec ['😀'] 0 = .ok ⟨some ['😀'], 4⟩ ∧
        Width.ofText ['😀'] = ⟨1, 2⟩) ∧
      .advance ⟨2, 2⟩ ∈ literal.onSuccess ∧ literal.exec ['İ'] 0 = .ok ⟨some ['İ'], 2⟩ ∧
        Width.ofText ['İ'] = ⟨1, 1⟩ := by
  refine ⟨⟨?_, rfl, rfl⟩, ?_, ?_, rfl⟩
  · exact List.mem_singleton.2 rfl
  · exact List.mem_singleton.2 rfl
  · rfl

end WidthWitness

end Packrat
