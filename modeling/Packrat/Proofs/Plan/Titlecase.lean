import Packrat.Proofs.Plan.ClassStrategy
import Packrat.Proofs.Text.CaseForm

/-!
# Matches that ignoring case loses

Ignoring case is to add matches to a class and to take none away.  Tests of ranges see to it by
looking for the candidate itself first.  Fast tests put the two cases of a member into the set in
its place, and a letter in titlecase is neither of its own cases, nor a case of any other member.
Main statement: exactly the classes that unroll no such letter, save where a kept range holds a case
of it, keep all matches and match every character that they list (`coveredBy_ignoringCase_iff`).
-/

namespace Packrat

open Text ReducedClass

namespace MatchPlan

/-- Wherever the plan matches, another consumes the same text. -/
def CoveredBy (plan wide : MatchPlan) : Prop :=
  ∀ {input matched : Text} {pos next : Nat}, isBoundary pos input = true →
    plan.exec input pos = .ok ⟨some matched, next⟩ → wide.exec input pos = .ok ⟨some matched, next⟩

/-- The plan consumes a character wherever it stands at the cursor. -/
def Finds (plan : MatchPlan) (c : Char) : Prop :=
  ∀ {input cs : Text} {pos : Nat}, readFrom input pos = .ok (c :: cs) →
    plan.exec input pos = .ok ⟨some [c], pos + c.utf8Size⟩

variable {plan wide : MatchPlan} {accepts acceptsWide : Char → Bool}

theorem MatchesOne.finds_iff (h : plan.MatchesOne accepts) (c : Char) :
    plan.Finds c ↔ accepts c = true := by
  constructor
  · intro hfinds
    have hrest := readFrom_zero [c]
    exact (h.matches_iff hrest).1 ⟨_, _, hfinds hrest⟩
  · intro haccepts input cs pos hrest
    rw [h.exec_eq hrest, oneChar, if_pos haccepts]

/-- One of two plans for one character covers the other if it accepts what that accepts. -/
theorem MatchesOne.coveredBy_iff (h : plan.MatchesOne accepts)
    (hwide : wide.MatchesOne acceptsWide) :
    plan.CoveredBy wide ↔ ∀ c, accepts c = true → acceptsWide c = true := by
  constructor
  · intro hcovered c haccepts
    have hrest := readFrom_zero [c]
    have hmatch := (h.finds_iff c).2 haccepts hrest
    exact (hwide.matches_iff hrest).1 ⟨_, _, hcovered (isBoundary_zero [c]) hmatch⟩
  · intro haccepts input matched pos next hpos hmatch
    obtain ⟨rest, hrest⟩ := exists_readFrom hpos
    rw [h.exec_eq hrest, Except.ok.injEq, oneChar_eq_some_iff] at hmatch
    obtain ⟨c, cs, rfl, hc, rfl, rfl⟩ := hmatch
    exact (hwide.finds_iff c).2 (haccepts c hc) hrest

end MatchPlan

theorem inClassRanges_of_contains {ranges : List CharRange} {r : CharRange} {c : Char}
    (hr : r ∈ ranges) (hc : r.contains c = true) (ignoreCase : Bool) :
    inClassRanges ranges ignoreCase c = true := by
  cases ignoreCase with
  | false => exact inClassRanges_iff.2 ⟨r, hr, hc⟩
  | true => exact inClassRanges_true_iff.2 ⟨c, Or.inl rfl, r, hr, hc⟩

theorem accepts_empty (ignoreCase : Bool) (c : Char) :
    ReducedClass.empty.accepts ignoreCase c = false := by
  simp [accepts, inClassRanges, ReducedClass.empty]

theorem ofRanges_nil (options : ReduceOptions) : ofRanges options [] = ReducedClass.empty := by
  obtain ⟨ignoreCase, small⟩ := options
  cases small <;> rfl

theorem mem_setForms_self_of_not_titlecase {c : Char} (h : ¬ Titlecase c) :
    c ∈ setForms true c := by
  rw [mem_setForms_true_iff]
  by_cases hupper : upperChar c = [c]
  · exact Or.inl hupper
  · exact Or.inr (Decidable.byContradiction fun hlower => h ⟨hupper, hlower⟩)

namespace CharClass

/-- The class of some parts that is not inverted. -/
def ofParts (parts : List ClassPart) (ignoreCase : Bool) : CharClass :=
  ⟨parts, false, ignoreCase⟩

/-- Every letter in titlecase that is unrolled has a case in a range that is kept. -/
def KeepsTitlecase (cls : CharClass) : Prop :=
  ∀ c, Titlecase c → cls.Unrolls c → inClassRanges cls.keptRanges true c = true

variable (parts : List ClassPart)

/-- A class that is not inverted matches what its two tests accept. -/
theorem matchesChar_ofParts (ignoreCase small : Bool) (c : Char) :
    (ofParts parts ignoreCase).matchesChar small c =
      (ofRanges ⟨ignoreCase, small⟩ (ofParts parts ignoreCase).ranges).accepts ignoreCase c := by
  have hadmits : ∀ reduced : ReducedClass,
      reduced.admits false ignoreCase c = reduced.accepts ignoreCase c := by
    rintro ⟨set, ranges⟩
    cases set <;> cases ranges <;> simp [admits, accepts, inClassRanges]
  by_cases hempty : parts = []
  · subst hempty
    have hranges : (ofParts [] ignoreCase).ranges = [] := rfl
    rw [hranges, ofRanges_nil, accepts_empty]
    rfl
  · have hparts : (ofParts parts ignoreCase).parts.isEmpty = false := by
      simpa [ofParts] using hempty
    rw [matchesChar, if_neg (by simp [hparts]), ← hadmits]
    rfl

/-- A class that heeds case matches what it lists. -/
theorem matchesChar_heedingCase_iff (small : Bool) (c : Char) :
    (ofParts parts false).matchesChar small c = true ↔ (ofParts parts false).Lists c := by
  rw [matchesChar_ofParts, accepts_ofRanges_iff, covers_ranges_iff]
  rfl

/-- Tests of all ranges find a listed character itself, whether or not case is ignored. -/
theorem matchesChar_small_of_lists {ignoreCase : Bool} {c : Char}
    (h : (ofParts parts ignoreCase).Lists c) :
    (ofParts parts ignoreCase).matchesChar true c = true := by
  obtain ⟨r, hr, hc⟩ := (lists_iff_merged _ c).1 h
  rw [matchesChar_ofParts, accepts, Bool.or_eq_true]
  exact Or.inr (inClassRanges_of_contains hr hc ignoreCase)

/-- Fast tests that ignore case miss a listed character only if it is an unrolled letter in
titlecase without a case in a kept range. -/
theorem matchesChar_fast_iff_of_lists {c : Char} (h : (ofParts parts true).Lists c) :
    (ofParts parts true).matchesChar false c = true ↔
      (Titlecase c → (ofParts parts true).Unrolls c →
        inClassRanges (ofParts parts true).keptRanges true c = true) := by
  have haccepts := (ofParts parts true).accepts_fast_iff c
  rw [matchesChar_ofParts]
  constructor
  · intro hmatches htitle _
    rcases haccepts.1 hmatches with ⟨d, -, hform⟩ | hkept
    · exact absurd htitle (not_titlecase_of_case (mem_setForms_true_iff.1 hform))
    · exact hkept
  · intro hcase
    apply haccepts.2
    rcases ((ofParts parts true).lists_iff_unrolls c).1 h with hunrolls | ⟨r, hr, hc⟩
    · by_cases htitle : Titlecase c
      · exact Or.inr (hcase htitle hunrolls)
      · exact Or.inl ⟨c, hunrolls, mem_setForms_self_of_not_titlecase htitle⟩
    · exact Or.inr (inClassRanges_of_contains hr hc true)

/-- A class that ignores case matches all that it lists, save for fast tests that lose a letter in
titlecase. -/
theorem matchesChar_listed_iff (small : Bool) :
    (∀ c, (ofParts parts true).Lists c → (ofParts parts true).matchesChar small c = true) ↔
      small = true ∨ (ofParts parts true).KeepsTitlecase := by
  cases small with
  | true => exact ⟨fun _ => Or.inl rfl, fun _ c => matchesChar_small_of_lists parts⟩
  | false =>
      simp only [Bool.false_eq_true, false_or]
      constructor
      · intro hmatches c htitle hunrolls
        exact (matchesChar_fast_iff_of_lists parts hunrolls.1).1 (hmatches c hunrolls.1) htitle
          hunrolls
      · intro hkeeps c hlists
        exact (matchesChar_fast_iff_of_lists parts hlists).2 (hkeeps c)

end CharClass

/-- Ignoring case loses no match of a class, and the class that ignores case matches every character
that it lists, for exactly those classes that are compiled for small code or keep their letters in
titlecase. -/
theorem coveredBy_ignoringCase_iff (parts : List ClassPart) (small : Bool) {reg : Reg}
    (hreg : reg.index < Registers.count) :
    ((MatchPlan.ofClass (.ofParts parts false) reg small).CoveredBy
        (.ofClass (.ofParts parts true) reg small) ↔
      small = true ∨ (CharClass.ofParts parts true).KeepsTitlecase) ∧
    ((∀ c, (CharClass.ofParts parts true).Lists c →
        (MatchPlan.ofClass (.ofParts parts true) reg small).Finds c) ↔
      small = true ∨ (CharClass.ofParts parts true).KeepsTitlecase) := by
  have hignoring := matchesOne_ofClass (.ofParts parts true) small hreg
  rw [← CharClass.matchesChar_listed_iff]
  constructor
  · have hheeding := matchesOne_ofClass (.ofParts parts false) small hreg
    rw [hheeding.coveredBy_iff hignoring]
    simp only [CharClass.matchesChar_heedingCase_iff]
    rfl
  · simp only [hignoring.finds_iff]

namespace TitlecaseWitness

/-- Letters, one of which has an uppercase form of two characters. -/
def letters : List ClassPart := [.range 'a' 'c', .char 'ß']

/-- A letter in titlecase. -/
def digraph : List ClassPart := [.char 'ǅ']

theorem letters_keepTitlecase : (CharClass.ofParts letters true).KeepsTitlecase := by
  have hranges : ((CharClass.ofParts letters true).ranges.all fun r =>
      r.toList.all fun c => !decide (Titlecase c)) = true := by
    decide +kernel
  rintro c htitle ⟨⟨part, hpart, hdescribes⟩, -⟩
  have hrange := List.all_eq_true.1 hranges _ (List.mem_map_of_mem (f := ClassPart.toRange) hpart)
  have hc : c ∈ part.toRange.toList := by
    rw [CharRange.mem_toList_iff, CharRange.contains_iff, ← part.describes_iff]
    exact hdescribes
  have hnot := List.all_eq_true.1 hrange c hc
  simp [htitle] at hnot

theorem not_digraph_keepsTitlecase : ¬ (CharClass.ofParts digraph true).KeepsTitlecase := by
  intro hkeeps
  have htitle : Titlecase 'ǅ' := by decide +kernel
  have hkept : (CharClass.ofParts digraph true).keptRanges = [] := by decide +kernel
  have hlists : (CharClass.ofParts digraph true).Lists 'ǅ' := ⟨_, List.mem_cons_self, rfl⟩
  have hfound := hkeeps 'ǅ' htitle ⟨hlists, by simp [hkept]⟩
  rw [hkept] at hfound
  simp [inClassRanges] at hfound

theorem letters_covered :
    (⟨3⟩ : Reg).index < Registers.count ∧
      (MatchPlan.ofClass (.ofParts letters false) ⟨3⟩ false).CoveredBy
        (.ofClass (.ofParts letters true) ⟨3⟩ false) ∧
      ¬ (MatchPlan.ofClass (.ofParts digraph false) ⟨3⟩ false).CoveredBy
        (.ofClass (.ofParts digraph true) ⟨3⟩ false) := by
  have hreg : (⟨3⟩ : Reg).index < Registers.count := by decide
  refine ⟨hreg, ?_, ?_⟩
  · exact (coveredBy_ignoringCase_iff letters false hreg).1.2 (Or.inr letters_keepTitlecase)
  · intro hcovered
    rcases (coveredBy_ignoringCase_iff digraph false hreg).1.1 hcovered with hsmall | hkeeps
    · cases hsmall
    · exact not_digraph_keepsTitlecase hkeeps

/-- The letter is matched as long as its case counts, and lost when it does not. -/
theorem exec_digraph :
    (MatchPlan.ofClass (.ofParts digraph false) ⟨0⟩ false).exec ['ǅ'] 0 =
        .ok ⟨some ['ǅ'], 2⟩ ∧
      (MatchPlan.ofClass (.ofParts digraph true) ⟨0⟩ false).exec ['ǅ'] 0 = .ok ⟨none, 0⟩ :=
  ⟨rfl, rfl⟩

end TitlecaseWitness

end Packrat
