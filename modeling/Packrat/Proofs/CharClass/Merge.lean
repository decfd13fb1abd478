import Packrat.CharClass.Merge

/-!
# Coverage of merged ranges

Merging keeps the code points that lie in some range, whether or not the ranges come with their ends
in order, and leaves a gap between any two ranges.  Main statements: `covers_merge_iff`,
`gapped_merge`.
-/

namespace Packrat.CharRange

/-- A code point lies in one of some ranges. -/
def Covers (ranges : List CharRange) (n : Nat) : Prop :=
  ∃ r ∈ ranges, r.first.toNat ≤ n ∧ n ≤ r.last.toNat

/-- Every range has its ends in order. -/
def Ordered (ranges : List CharRange) : Prop :=
  ∀ r ∈ ranges, r.first.toNat ≤ r.last.toNat

/-- Ranges come sorted by first character. -/
def SortedByFirst (ranges : List CharRange) : Prop :=
  ranges.Pairwise fun a b => a.first.toNat ≤ b.first.toNat

/-- Each range ends before the code point that precedes a later one. -/
def Gapped (ranges : List CharRange) : Prop :=
  ranges.Pairwise fun a b => a.last.toNat + 1 < b.first.toNat

theorem covers_cons_iff {r : CharRange} {ranges : List CharRange} {n : Nat} :
    Covers (r :: ranges) n ↔ (r.first.toNat ≤ n ∧ n ≤ r.last.toNat) ∨ Covers ranges n := by
  simp [Covers]

@[simp] theorem first_extendTo (r other : CharRange) : (r.extendTo other).first = r.first := by
  unfold extendTo
  split <;> rfl

theorem toNat_last_extendTo (r other : CharRange) :
    (r.extendTo other).last.toNat = max r.last.toNat other.last.toNat := by
  unfold extendTo
  split
  next h => exact (Nat.max_eq_right h).symm
  next h => exact (Nat.max_eq_left (Nat.le_of_not_le h)).symm

/-- A range that is extended to another which starts no earlier covers both and no gap. -/
theorem mem_extendTo_iff {r other : CharRange} (hfirst : r.first.toNat ≤ other.first.toNat)
    (htouch : other.first.toNat ≤ r.last.toNat + 1) {n : Nat} :
    ((r.extendTo other).first.toNat ≤ n ∧ n ≤ (r.extendTo other).last.toNat) ↔
      (r.first.toNat ≤ n ∧ n ≤ r.last.toNat) ∨
        (other.first.toNat ≤ n ∧ n ≤ other.last.toNat) := by
  rw [first_extendTo, toNat_last_extendTo]
  omega

theorem sortedByFirst_extendTo {top next : CharRange} {rest : List CharRange}
    (h : SortedByFirst (top :: next :: rest)) : SortedByFirst (top.extendTo next :: rest) := by
  obtain ⟨htop, hrest⟩ := List.pairwise_cons.1 h
  refine List.pairwise_cons.2 ⟨fun r hr => ?_, hrest.of_cons⟩
  rw [first_extendTo]
  exact htop r (List.mem_cons_of_mem next hr)

theorem covers_mergeFrom_iff {top : CharRange} {rest : List CharRange}
    (h : SortedByFirst (top :: rest)) {n : Nat} :
    Covers (mergeFrom top rest) n ↔ Covers (top :: rest) n := by
  induction rest generalizing top with
  | nil => rfl
  | cons next rest ih =>
      have hfirst := (List.pairwise_cons.1 h).1 next List.mem_cons_self
      rw [mergeFrom]
      by_cases htouch : next.first.toNat ≤ top.last.toNat + 1
      · rw [if_pos htouch, ih (sortedByFirst_extendTo h), covers_cons_iff,
          mem_extendTo_iff hfirst htouch, covers_cons_iff, covers_cons_iff, or_assoc]
      · rw [if_neg htouch, covers_cons_iff, ih h.of_cons, covers_cons_iff (r := top)]

theorem sortedByFirst_sortByFirst (ranges : List CharRange) :
    SortedByFirst (sortByFirst ranges) := by
  have h : (sortByFirst ranges).Pairwise
      fun a b => decide (a.first.toNat ≤ b.first.toNat) = true := by
    apply pairwise_sortBy
    · intro a b
      simpa using Nat.le_total a.first.toNat b.first.toNat
    · intro a b c hab hbc
      simp only [decide_eq_true_eq] at hab hbc ⊢
      exact Nat.le_trans hab hbc
  exact h.imp (by simp)

/-- Merging keeps what is covered. -/
theorem covers_merge_iff (ranges : List CharRange) (n : Nat) :
    Covers (merge ranges) n ↔ Covers ranges n := by
  have hsame : Covers (merge ranges) n ↔ Covers (sortByFirst ranges) n := by
    have hsorted := sortedByFirst_sortByFirst ranges
    unfold merge
    cases hcase : sortByFirst ranges with
    | nil => rfl
    | cons top rest =>
        rw [hcase] at hsorted
        exact covers_mergeFrom_iff hsorted
  rw [hsame]
  simp only [Covers, sortByFirst, mem_sortBy]

theorem first_le_of_mem_mergeFrom {top : CharRange} {rest : List CharRange}
    (h : SortedByFirst (top :: rest)) {r : CharRange} (hr : r ∈ mergeFrom top rest) :
    top.first.toNat ≤ r.first.toNat := by
  induction rest generalizing top with
  | nil =>
      obtain rfl : r = top := List.mem_singleton.1 hr
      exact Nat.le_refl _
  | cons next rest ih =>
      rw [mergeFrom] at hr
      by_cases htouch : next.first.toNat ≤ top.last.toNat + 1
      · rw [if_pos htouch] at hr
        simpa using ih (sortedByFirst_extendTo h) hr
      · rw [if_neg htouch] at hr
        rcases List.mem_cons.1 hr with rfl | hr
        · exact Nat.le_refl _
        · exact Nat.le_trans ((List.pairwise_cons.1 h).1 next List.mem_cons_self) (ih h.of_cons hr)

theorem gapped_mergeFrom {top : CharRange} {rest : List CharRange}
    (h : SortedByFirst (top :: rest)) : Gapped (mergeFrom top rest) := by
  induction rest generalizing top with
  | nil => exact List.pairwise_singleton _ _
  | cons next rest ih =>
      rw [mergeFrom]
      by_cases htouch : next.first.toNat ≤ top.last.toNat + 1
      · rw [if_pos htouch]
        exact ih (sortedByFirst_extendTo h)
      · rw [if_neg htouch]
        refine List.pairwise_cons.2 ⟨fun r hr => ?_, ih h.of_cons⟩
        have hfirst := first_le_of_mem_mergeFrom h.of_cons hr
        omega

theorem mergeFrom_ne_nil (top : CharRange) (rest : List CharRange) : mergeFrom top rest ≠ [] := by
  induction rest generalizing top with
  | nil => simp [mergeFrom]
  | cons next rest ih =>
      rw [mergeFrom]
      split
      · exact ih _
      · simp

theorem merge_ne_nil {ranges : List CharRange} (h : ranges ≠ []) : merge ranges ≠ [] := by
  obtain ⟨r, hr⟩ := List.exists_mem_of_ne_nil ranges h
  have hmem : r ∈ sortByFirst ranges := mem_sortBy.2 hr
  unfold merge
  cases hcase : sortByFirst ranges with
  | nil =>
      rw [hcase] at hmem
      cases hmem
  | cons top rest => exact mergeFrom_ne_nil top rest

/-- Merging leaves no two ranges that overlap or touch. -/
theorem gapped_merge (ranges : List CharRange) : Gapped (merge ranges) := by
  have hsorted := sortedByFirst_sortByFirst ranges
  unfold merge
  cases hcase : sortByFirst ranges with
  | nil => exact List.Pairwise.nil
  | cons top rest =>
      rw [hcase] at hsorted
      exact gapped_mergeFrom hsorted

theorem ordered_mergeFrom {top : CharRange} {rest : List CharRange} (h : Ordered (top :: rest)) :
    Ordered (mergeFrom top rest) := by
  induction rest generalizing top with
  | nil => exact h
  | cons next rest ih =>
      have htop := h top List.mem_cons_self
      have hrest : Ordered (next :: rest) := fun r hr => h r (List.mem_cons_of_mem top hr)
      rw [mergeFrom]
      by_cases htouch : next.first.toNat ≤ top.last.toNat + 1
      · rw [if_pos htouch]
        apply ih
        intro r hr
        rcases List.mem_cons.1 hr with rfl | hr
        · rw [first_extendTo, toNat_last_extendTo]
          exact Nat.le_trans htop (Nat.le_max_left ..)
        · exact hrest r (List.mem_cons_of_mem next hr)
      · rw [if_neg htouch]
        intro r hr
        rcases List.mem_cons.1 hr with rfl | hr
        · exact htop
        · exact ih hrest r hr

theorem ordered_merge {ranges : List CharRange} (h : Ordered ranges) : Ordered (merge ranges) := by
  have hsorted : Ordered (sortByFirst ranges) := fun r hr => h r (mem_sortBy.1 hr)
  unfold merge
  cases hcase : sortByFirst ranges with
  | nil => simp [mergeSorted, Ordered]
  | cons top rest =>
      rw [hcase] at hsorted
      exact ordered_mergeFrom hsorted

end Packrat.CharRange
