import Packrat.CharClass.Reduced
import Packrat.Plan.Exec
import Packrat.Proofs.CharClass.Merge
import Packrat.Proofs.Text.CaseMap

/-!
# Members of reduced classes

Reducing a class splits its merged ranges in two: some are unrolled into the set, others are kept.
Main statements: the split (`exists_split`), and that a class which heeds case has the same members
before and after (`accepts_ofRanges_iff`).
-/

namespace Packrat

open Text

theorem CharRange.mem_toList_iff {r : CharRange} {c : Char} :
    c ∈ r.toList ↔ r.contains c = true := by
  simp only [toList, List.mem_filterMap, List.mem_range'_1, contains_iff]
  constructor
  · rintro ⟨n, hn, hc⟩
    by_cases hvalid : n.isValidChar
    · rw [if_pos hvalid, Option.some.injEq] at hc
      have hsame : c.toNat = n := by
        rw [← hc, Char.ofNat, dif_pos hvalid]
        rfl
      omega
    · simp [hvalid] at hc
  · intro h
    refine ⟨c.toNat, by omega, ?_⟩
    have hvalid : c.toNat.isValidChar := c.valid
    rw [if_pos hvalid, Char.ofNat_toNat]

namespace ReducedClass

theorem mem_insertNew_iff {set : Text} {c d : Char} : d ∈ insertNew set c ↔ d ∈ set ∨ d = c := by
  unfold insertNew
  by_cases h : c ∈ set
  · have hcontains : set.contains c = true := by simpa using h
    rw [if_pos hcontains]
    refine ⟨Or.inl, ?_⟩
    rintro (hd | rfl)
    · exact hd
    · exact h
  · have hcontains : ¬ set.contains c = true := by simpa using h
    rw [if_neg hcontains]
    simp

theorem mem_foldl_insertNew_iff {cs set : Text} {d : Char} :
    d ∈ cs.foldl insertNew set ↔ d ∈ set ∨ d ∈ cs := by
  induction cs generalizing set with
  | nil => simp
  | cons c cs ih => rw [List.foldl_cons, ih, mem_insertNew_iff, List.mem_cons, or_assoc]

/-- Where case is ignored, a character is stood for by its single uppercase and lowercase forms. -/
theorem mem_setForms_true_iff {c d : Char} :
    d ∈ setForms true c ↔ upperChar c = [d] ∨ lowerChar c = [d] := by
  simp only [setForms, if_true, List.mem_append, Option.mem_toList, single?_eq_some_iff]

/-- Unrolling a range adds what stands for its members. -/
theorem mem_unroll_iff {ignoreCase : Bool} {set : Text} {r : CharRange} {d : Char} :
    d ∈ unroll ignoreCase set r ↔
      d ∈ set ∨ ∃ c, r.contains c = true ∧ d ∈ setForms ignoreCase c := by
  have hfold : ∀ (cs set : Text),
      d ∈ cs.foldl (fun set c => (setForms ignoreCase c).foldl insertNew set) set ↔
        d ∈ set ∨ ∃ c ∈ cs, d ∈ setForms ignoreCase c := by
    intro cs
    induction cs with
    | nil => simp
    | cons c cs ih =>
        intro set
        rw [List.foldl_cons, ih, mem_foldl_insertNew_iff]
        simp only [List.mem_cons, exists_eq_or_imp, or_assoc]
  rw [unroll, hfold]
  simp only [CharRange.mem_toList_iff]

/-- Ranges are unrolled or kept. -/
structure Split (ignoreCase : Bool) (before after : ReducedClass)
    (ranges unrolled kept : List CharRange) : Prop where
  perm : ranges.Perm (unrolled ++ kept)
  set_iff : ∀ d, d ∈ after.set ↔
    d ∈ before.set ∨ ∃ r ∈ unrolled, ∃ c, r.contains c = true ∧ d ∈ setForms ignoreCase c
  ranges_eq : after.ranges = before.ranges ++ kept

theorem Split.mem_iff {ignoreCase : Bool} {before after : ReducedClass}
    {ranges unrolled kept : List CharRange}
    (h : Split ignoreCase before after ranges unrolled kept) (r : CharRange) :
    r ∈ ranges ↔ r ∈ unrolled ∨ r ∈ kept := by
  rw [h.perm.mem_iff, List.mem_append]

/-- No character is a member both of a range that is unrolled and of one that is kept. -/
theorem Split.not_contains {ignoreCase : Bool} {before after : ReducedClass}
    {ranges unrolled kept : List CharRange}
    (h : Split ignoreCase before after ranges unrolled kept) (hgapped : CharRange.Gapped ranges)
    {r s : CharRange} (hr : r ∈ unrolled) (hs : s ∈ kept) {c : Char} (hc : r.contains c = true) :
    s.contains c = false := by
  have hapart : (unrolled ++ kept).Pairwise fun a b => ∀ c : Char,
      ¬ (a.contains c = true ∧ b.contains c = true) := by
    refine (h.perm.pairwise_iff fun {a b} hab c hc => hab c hc.symm).1 (hgapped.imp ?_)
    intro a b hgap c hc
    simp only [CharRange.contains_iff] at hc
    omega
  rw [Bool.eq_false_iff]
  intro hc'
  exact (List.pairwise_append.1 hapart).2.2 r hr s hs c ⟨hc, hc'⟩

theorem exists_split_foldl (ignoreCase : Bool) (ranges : List CharRange) (before : ReducedClass) :
    ∃ unrolled kept, Split ignoreCase before (ranges.foldl (addRange ignoreCase) before)
      ranges unrolled kept := by
  induction ranges generalizing before with
  | nil => exact ⟨[], [], by simp, by simp, by simp⟩
  | cons r ranges ih =>
      obtain ⟨unrolled, kept, hperm, hset, hranges⟩ := ih (addRange ignoreCase before r)
      rw [List.foldl_cons]
      by_cases hshort : r.span < shortSpan ∨ before.set.length + r.span < setLimit
      · have hadd : addRange ignoreCase before r =
            { before with set := unroll ignoreCase before.set r } := if_pos hshort
        rw [hadd] at hset hranges ⊢
        refine ⟨r :: unrolled, kept, hperm.cons r, ?_, hranges⟩
        · intro d
          rw [hset, mem_unroll_iff]
          simp only [List.mem_cons, exists_eq_or_imp, or_assoc]
      · have hadd : addRange ignoreCase before r =
            { before with ranges := before.ranges ++ [r] } := if_neg hshort
        rw [hadd] at hset hranges ⊢
        refine ⟨unrolled, r :: kept, ?_, hset, by simp [hranges]⟩
        exact (hperm.cons r).trans List.perm_middle.symm

/-- The merged ranges of a class are unrolled or kept; all are kept if it is to be small. -/
theorem exists_split (options : ReduceOptions) (ranges : List CharRange) :
    ∃ unrolled kept, Split options.ignoreCase empty (ofRanges options ranges)
      (CharRange.merge ranges) unrolled kept := by
  unfold ofRanges
  by_cases hsmall : options.small = true
  · simp only [hsmall, if_true]
    exact ⟨[], CharRange.merge ranges, by simp, by simp [empty], by simp [empty]⟩
  · simp only [hsmall]
    exact exists_split_foldl ..

/-- Only ranges that are not short are kept for fast tests. -/
theorem shortSpan_le_of_mem_ranges (ignoreCase : Bool) {ranges : List CharRange} {r : CharRange}
    (hr : r ∈ (ofRanges ⟨ignoreCase, false⟩ ranges).ranges) : shortSpan ≤ r.span := by
  have hfold : ∀ (ranges : List CharRange) (before : ReducedClass),
      r ∈ (ranges.foldl (addRange ignoreCase) before).ranges →
        r ∈ before.ranges ∨ shortSpan ≤ r.span := by
    intro ranges
    induction ranges with
    | nil => exact fun _ => Or.inl
    | cons next ranges ih =>
        intro before hmem
        rcases ih _ hmem with hmem | hspan
        · unfold addRange at hmem
          split at hmem
          next => exact Or.inl hmem
          next hlong =>
            rcases List.mem_append.1 hmem with hmem | hmem
            · exact Or.inl hmem
            · obtain rfl : r = next := List.mem_singleton.1 hmem
              exact Or.inr (by omega)
        · exact Or.inr hspan
  rcases hfold _ empty hr with hmem | hspan
  · cases hmem
  · exact hspan

/-- Whether one of the two tests accepts a character. -/
def accepts (reduced : ReducedClass) (ignoreCase : Bool) (c : Char) : Bool :=
  reduced.set.contains c || inClassRanges reduced.ranges ignoreCase c

theorem inClassRanges_iff {ranges : List CharRange} {c : Char} :
    inClassRanges ranges false c = true ↔ ∃ r ∈ ranges, r.contains c = true := by
  simp [inClassRanges]

/-- Where case matters, a reduced class has the members of the ranges that it is made from. -/
theorem accepts_ofRanges_iff (small : Bool) (ranges : List CharRange) (c : Char) :
    (ofRanges ⟨false, small⟩ ranges).accepts false c = true ↔
      CharRange.Covers ranges c.toNat := by
  obtain ⟨unrolled, kept, hsplit⟩ := exists_split ⟨false, small⟩ ranges
  have hforms : ∀ r : CharRange, (∃ d, r.contains d = true ∧ c ∈ setForms false d) ↔
      r.contains c = true := by
    intro r
    simp [setForms]
  rw [← CharRange.covers_merge_iff, accepts, Bool.or_eq_true, inClassRanges_iff,
    hsplit.ranges_eq, List.contains_iff_mem, hsplit.set_iff]
  simp only [hforms, empty, List.not_mem_nil, false_or, List.nil_append]
  simp only [CharRange.Covers, ← CharRange.contains_iff, hsplit.mem_iff, or_and_right, exists_or]

end ReducedClass

end Packrat
