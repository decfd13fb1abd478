import Packrat.Proofs.Plan.Class

/-!
# Small and fast plans of a class

A class can be compiled for small code, where all its ranges are tested as such, or for fast tests,
where members are unrolled into a set.  The set holds the cases of a member while a range is tested
with the cases of the candidate, and a class of which nothing is left to test matches nothing.  Main
statement: exactly which classes match alike either way (`exec_small_eq_exec_fast_iff`).
-/

namespace Packrat

open Text ReducedClass

/-- A class lists the characters that its parts describe. -/
def CharClass.Lists (cls : CharClass) (c : Char) : Prop :=
  ∃ part ∈ cls.parts, part.Describes c

/-- The ranges of a class that are tested as such for fast tests. -/
def CharClass.keptRanges (cls : CharClass) : List CharRange :=
  (ofRanges ⟨cls.ignoreCase, false⟩ cls.ranges).ranges

/-- The characters of a class that are unrolled for fast tests. -/
def CharClass.Unrolls (cls : CharClass) (c : Char) : Prop :=
  cls.Lists c ∧ ∀ r ∈ cls.keptRanges, r.contains c = false

/-- Save for what the kept ranges accept, a character is unrolled or has a case that is if and only
if it is a case of an unrolled one. -/
def CharClass.CasesAgree (cls : CharClass) : Prop :=
  ∀ c, inClassRanges cls.keptRanges true c = false →
    ((∃ d, cls.Unrolls d ∧ (d = c ∨ d ∈ setForms true c)) ↔
      ∃ d, cls.Unrolls d ∧ c ∈ setForms true d)

/-- What lets a class match alike for small code and for fast tests: an inverted class has a member
to keep out, and case mappings lead back. -/
def CharClass.StrategyFree (cls : CharClass) : Prop :=
  cls.parts = [] ∨
    (cls.inverted = true → ∃ c, cls.Lists c) ∧ (cls.ignoreCase = true → cls.CasesAgree)

/-- Every character has a case of one character. -/
theorem setForms_ne_nil (ignoreCase : Bool) (c : Char) : setForms ignoreCase c ≠ [] := by
  cases ignoreCase with
  | false => simp [setForms]
  | true =>
      by_cases h : c.toNat = 0x130
      · -- the one character whose lowercase takes two characters is uppercase
        have hlookup : upperExpansions.lookup c.toNat = none := by
          rw [h]
          decide
        simp [setForms, upperChar, hlookup, single?]
      · simp [setForms, lowerChar, h, single?]

theorem inClassRanges_true_iff {ranges : List CharRange} {c : Char} :
    inClassRanges ranges true c = true ↔
      ∃ d, (d = c ∨ d ∈ setForms true c) ∧ ∃ r ∈ ranges, r.contains d = true := by
  have hany : ∀ o : Option Char, o.any (fun d => ranges.any (·.contains d)) = true ↔
      ∃ d ∈ o.toList, ∃ r ∈ ranges, r.contains d = true := by
    intro o
    cases o <;> simp
  simp only [inClassRanges, Bool.true_and, Bool.or_eq_true, hany, List.any_eq_true, setForms,
    if_true, List.mem_append, or_and_right, exists_or, exists_eq_left]
  exact or_congr_right or_comm

namespace CharClass

variable (cls : CharClass)

theorem lists_iff_merged (c : Char) :
    cls.Lists c ↔ ∃ r ∈ CharRange.merge cls.ranges, r.contains c = true := by
  rw [Lists, ← cls.covers_ranges_iff, ← CharRange.covers_merge_iff]
  simp only [CharRange.Covers, CharRange.contains_iff]

/-- The set holds the cases of the unrolled characters. -/
theorem mem_set_iff (c : Char) :
    c ∈ (ofRanges ⟨cls.ignoreCase, false⟩ cls.ranges).set ↔
      ∃ d, cls.Unrolls d ∧ c ∈ setForms cls.ignoreCase d := by
  obtain ⟨unrolled, kept, hsplit⟩ := exists_split ⟨cls.ignoreCase, false⟩ cls.ranges
  have hkept : cls.keptRanges = kept := by
    rw [keptRanges, hsplit.ranges_eq]
    rfl
  have hunrolls : ∀ d, cls.Unrolls d ↔ ∃ r ∈ unrolled, r.contains d = true := by
    intro d
    rw [Unrolls, cls.lists_iff_merged, hkept]
    constructor
    · rintro ⟨⟨r, hr, hd⟩, hnot⟩
      rcases (hsplit.mem_iff r).1 hr with hr | hr
      · exact ⟨r, hr, hd⟩
      · rw [hnot r hr] at hd
        cases hd
    · rintro ⟨r, hr, hd⟩
      refine ⟨⟨r, (hsplit.mem_iff r).2 (Or.inl hr), hd⟩, fun s hs => ?_⟩
      exact hsplit.not_contains (CharRange.gapped_merge _) hr hs hd
  rw [hsplit.set_iff]
  simp only [hunrolls, empty, List.not_mem_nil, false_or]
  constructor
  · rintro ⟨r, hr, d, hd, hc⟩
    exact ⟨d, ⟨r, hr, hd⟩, hc⟩
  · rintro ⟨d, ⟨r, hr, hd⟩, hc⟩
    exact ⟨r, hr, d, hd, hc⟩

/-- Fast tests accept the cases of unrolled characters and what the kept ranges accept. -/
theorem accepts_fast_iff (c : Char) :
    (ofRanges ⟨cls.ignoreCase, false⟩ cls.ranges).accepts cls.ignoreCase c = true ↔
      (∃ d, cls.Unrolls d ∧ c ∈ setForms cls.ignoreCase d) ∨
        inClassRanges cls.keptRanges cls.ignoreCase c = true := by
  rw [accepts, Bool.or_eq_true, List.contains_iff_mem, cls.mem_set_iff, keptRanges]

/-- A listed character is unrolled or lies in a kept range. -/
theorem lists_iff_unrolls (c : Char) :
    cls.Lists c ↔ cls.Unrolls c ∨ ∃ r ∈ cls.keptRanges, r.contains c = true := by
  have hkept : (∃ r ∈ cls.keptRanges, r.contains c = true) → cls.Lists c := by
    obtain ⟨unrolled, kept, hsplit⟩ := exists_split ⟨cls.ignoreCase, false⟩ cls.ranges
    rintro ⟨r, hr, hc⟩
    have hmem : r ∈ kept := by
      rw [keptRanges, hsplit.ranges_eq] at hr
      exact hr
    exact (cls.lists_iff_merged c).2 ⟨r, (hsplit.mem_iff r).2 (Or.inr hmem), hc⟩
  constructor
  · intro hlists
    by_cases h : ∃ r ∈ cls.keptRanges, r.contains c = true
    · exact Or.inr h
    · exact Or.inl ⟨hlists, by simpa using h⟩
  · rintro (h | h)
    · exact h.1
    · exact hkept h

/-- For small code a class is tested by its merged ranges. -/
theorem matchesChar_small (hparts : cls.parts ≠ []) (c : Char) :
    cls.matchesChar true c =
      (inClassRanges (CharRange.merge cls.ranges) cls.ignoreCase c != cls.inverted) := by
  have hempty : cls.parts.isEmpty = false := by simpa using hparts
  have hmerge : (CharRange.merge cls.ranges).isEmpty = false := by
    have hranges : cls.ranges ≠ [] := by simpa [ranges] using hparts
    simpa using CharRange.merge_ne_nil hranges
  simp [matchesChar, hempty, admits, accepts, ofRanges, hmerge]

/-- For fast tests nothing is left of a class exactly where it lists no character. -/
theorem nothing_left_iff :
    ((ofRanges ⟨cls.ignoreCase, false⟩ cls.ranges).set.isEmpty && cls.keptRanges.isEmpty) = true ↔
      ¬ ∃ c, cls.Lists c := by
  rw [Bool.and_eq_true, List.isEmpty_iff, List.isEmpty_iff]
  constructor
  · rintro ⟨hset, hkept⟩ ⟨c, hc⟩
    rcases (cls.lists_iff_unrolls c).1 hc with hunrolls | ⟨r, hr, -⟩
    · obtain ⟨d, hd⟩ := List.exists_mem_of_ne_nil _ (setForms_ne_nil cls.ignoreCase c)
      have hmem := (cls.mem_set_iff d).2 ⟨c, hunrolls, hd⟩
      rw [hset] at hmem
      cases hmem
    · rw [hkept] at hr
      cases hr
  · intro hnone
    constructor
    · refine List.eq_nil_iff_forall_not_mem.2 fun c hc => ?_
      obtain ⟨d, hd, -⟩ := (cls.mem_set_iff c).1 hc
      exact hnone ⟨d, hd.1⟩
    · refine List.eq_nil_iff_forall_not_mem.2 fun r hr => hnone ⟨r.first, ?_⟩
      have hspan := shortSpan_le_of_mem_ranges cls.ignoreCase hr
      refine (cls.lists_iff_unrolls _).2 (Or.inr ⟨r, hr, CharRange.contains_iff.2 ?_⟩)
      simp only [shortSpan, CharRange.span] at hspan
      omega

/-- A class that lists a character has something left to test for fast tests. -/
theorem matchesChar_fast (hlists : ∃ c, cls.Lists c) (c : Char) :
    cls.matchesChar false c =
      ((ofRanges ⟨cls.ignoreCase, false⟩ cls.ranges).accepts cls.ignoreCase c != cls.inverted) := by
  have hleft := mt cls.nothing_left_iff.1 (not_not_intro hlists)
  rw [Bool.not_eq_true] at hleft
  obtain ⟨d, part, hpart, -⟩ := hlists
  have hempty : cls.parts.isEmpty = false := by
    simpa using List.ne_nil_of_mem hpart
  rw [matchesChar, if_neg (by simp [hempty]), admits]
  rw [keptRanges] at hleft
  rw [hleft]
  rfl

theorem matchesChar_fast_of_not_lists (hparts : cls.parts ≠ []) (hnone : ¬ ∃ c, cls.Lists c)
    (c : Char) : cls.matchesChar false c = false := by
  have hleft := cls.nothing_left_iff.2 hnone
  have hempty : cls.parts.isEmpty = false := by simpa using hparts
  rw [matchesChar, if_neg (by simp [hempty]), admits]
  rw [keptRanges] at hleft
  rw [hleft]
  rfl

/-- The two tests accept the same characters exactly where the cases of the members agree. -/
theorem accepts_agree_iff :
    (∀ c, inClassRanges (CharRange.merge cls.ranges) cls.ignoreCase c =
        (ofRanges ⟨cls.ignoreCase, false⟩ cls.ranges).accepts cls.ignoreCase c) ↔
      (cls.ignoreCase = true → cls.CasesAgree) := by
  cases hcase : cls.ignoreCase with
  | false =>
      refine ⟨fun _ h => absurd h Bool.false_ne_true, fun _ c => ?_⟩
      have hsmall := accepts_ofRanges_iff true cls.ranges c
      have hfast := accepts_ofRanges_iff false cls.ranges c
      have hset : (ofRanges ⟨false, true⟩ cls.ranges).accepts false c =
          inClassRanges (CharRange.merge cls.ranges) false c := by
        simp [accepts, ofRanges]
      rw [hset] at hsmall
      rw [Bool.eq_iff_iff, hsmall, hfast]
  | true =>
      have hsmall : ∀ c, inClassRanges (CharRange.merge cls.ranges) true c = true ↔
          (∃ d, cls.Unrolls d ∧ (d = c ∨ d ∈ setForms true c)) ∨
            inClassRanges cls.keptRanges true c = true := by
        intro c
        simp only [inClassRanges_true_iff, ← cls.lists_iff_merged, cls.lists_iff_unrolls,
          and_or_left (b := cls.Unrolls _), exists_or, and_comm (b := cls.Unrolls _)]
      have hfast : ∀ c, (ofRanges ⟨true, false⟩ cls.ranges).accepts true c = true ↔
          (∃ d, cls.Unrolls d ∧ c ∈ setForms true d) ∨
            inClassRanges cls.keptRanges true c = true := by
        intro c
        have haccepts := cls.accepts_fast_iff c
        rw [hcase] at haccepts
        exact haccepts
      constructor
      · intro hsame _ c hkept
        have h := hsame c
        rw [Bool.eq_iff_iff, hsmall, hfast, hkept] at h
        simpa using h
      · intro hagree c
        rw [Bool.eq_iff_iff, hsmall, hfast]
        cases hkept : inClassRanges cls.keptRanges true c with
        | true => simp
        | false => simp [hagree rfl c hkept]

/-- A class with parts matches the same characters either way exactly if, when inverted, it lists a
character, and, when it ignores case, the cases of its members agree. -/
theorem matchesChar_small_eq_fast_iff (hparts : cls.parts ≠ []) :
    (∀ c, cls.matchesChar true c = cls.matchesChar false c) ↔
      (cls.inverted = true → ∃ c, cls.Lists c) ∧ (cls.ignoreCase = true → cls.CasesAgree) := by
  by_cases hlists : ∃ c, cls.Lists c
  · have hcancel : ∀ a b : Bool, (a != cls.inverted) = (b != cls.inverted) ↔ a = b := by
      intro a b
      cases cls.inverted <;> cases a <;> cases b <;> decide
    simp only [cls.matchesChar_small hparts, cls.matchesChar_fast hlists, hcancel,
      cls.accepts_agree_iff, hlists, implies_true, true_and]
  · have hnone : ∀ d, ¬ cls.Unrolls d := fun d hd => hlists ⟨d, hd.1⟩
    have hagree : cls.CasesAgree := by
      intro c _
      simp [hnone]
    have hleft := cls.nothing_left_iff.2 hlists
    rw [Bool.and_eq_true, List.isEmpty_iff, List.isEmpty_iff, keptRanges] at hleft
    have hsmall : ∀ c, inClassRanges (CharRange.merge cls.ranges) cls.ignoreCase c = false := by
      intro c
      rw [cls.accepts_agree_iff.2 (fun _ => hagree) c]
      simp [accepts, inClassRanges, hleft]
    simp only [cls.matchesChar_small hparts, cls.matchesChar_fast_of_not_lists hparts hlists,
      hsmall, hlists, hagree]
    cases cls.inverted <;> simp

end CharClass

namespace Session

variable {V R : Type}

theorem exec_ofClass (s : Session V R) (cls : CharClass) {reg : Reg} (small : Bool) {rest : Text}
    (hreg : reg.index < 4) (hrest : s.rest = .ok rest) :
    s.exec (.ofClass cls reg small) =
      .ok ((oneChar (cls.matchesChar small) s.pos rest).matched,
        s.setPos (oneChar (cls.matchesChar small) s.pos rest).pos) := by
  simp [exec, exec_ofClass_eq cls small hreg hrest]

/-- Whether a class is compiled for small code or for fast tests cannot be told from any match
exactly if it is free of the strategy. -/
theorem exec_small_eq_exec_fast_iff [Inhabited R] (cls : CharClass) :
    (∀ (s : Session V R) (reg : Reg), reg.index < 4 → isBoundary s.pos s.input = true →
        s.exec (.ofClass cls reg true) = s.exec (.ofClass cls reg false)) ↔
      cls.StrategyFree := by
  constructor
  · intro hsame
    by_cases hparts : cls.parts = []
    · exact Or.inl hparts
    · refine Or.inr ((cls.matchesChar_small_eq_fast_iff hparts).1 fun c => ?_)
      have hrest : (⟨[c], 0, .empty, .empty, .empty⟩ : Session V R).rest = .ok [c] := rfl
      have hreg : (⟨0⟩ : Reg).index < 4 := by decide
      have h := hsame ⟨[c], 0, .empty, .empty, .empty⟩ ⟨0⟩ hreg rfl
      rw [exec_ofClass _ cls true hreg hrest, exec_ofClass _ cls false hreg hrest] at h
      have hmatched := congrArg (·.map (·.1.isSome)) h
      cases hsmall : cls.matchesChar true c <;> cases hfast : cls.matchesChar false c <;>
        simp_all [oneChar, Except.map]
  · rintro hfree s reg hreg hpos
    have hmatches : cls.matchesChar true = cls.matchesChar false := by
      rcases hfree with hparts | hfree
      · funext c
        simp [CharClass.matchesChar, hparts]
      · by_cases hparts : cls.parts = []
        · funext c
          simp [CharClass.matchesChar, hparts]
        · exact funext ((cls.matchesChar_small_eq_fast_iff hparts).2 hfree)
    obtain ⟨rest, hrest⟩ := rest_of_isBoundary hpos
    rw [exec_ofClass s cls true hreg hrest, exec_ofClass s cls false hreg hrest, hmatches]

end Session

namespace ClassStrategyWitness

def session (c : Char) : Session Unit Unit := ⟨[c], 0, .empty, .empty, .empty⟩

/-- An inverted class whose only range is empty. -/
def reversed : CharClass := ⟨[.range 'b' 'a'], true, false⟩

/-- A titlecase letter, which is neither its own uppercase nor its own lowercase. -/
def titlecase : CharClass := ⟨[.char 'ǅ'], false, true⟩

/-- For small code these classes match, for fast tests they do not. -/
theorem exec_reversed_titlecase :
    (session 'x').exec (.ofClass reversed ⟨0⟩ true) =
        .ok (some ['x'], (session 'x').setPos 1) ∧
      (session 'x').exec (.ofClass reversed ⟨0⟩ false) = .ok (none, session 'x') ∧
      (session 'ǅ').exec (.ofClass titlecase ⟨0⟩ true) =
        .ok (some ['ǅ'], (session 'ǅ').setPos 2) ∧
      (session 'ǅ').exec (.ofClass titlecase ⟨0⟩ false) = .ok (none, session 'ǅ') :=
  ⟨rfl, rfl, rfl, rfl⟩

end ClassStrategyWitness

end Packrat
