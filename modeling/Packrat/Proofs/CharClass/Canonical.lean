import Packrat.Proofs.CharClass.Merge

/-!
# The canonical form of a class

Ranges that have their ends in order and leave gaps are told by the code points that they cover, so
merging picks one list among all those that cover the same.  Merging a second time changes nothing,
even where a range has its ends the other way round.  Main statements: `eq_of_covers_iff`,
`merge_merge`, and both together with what merging keeps (`canonical_merge`).
-/

namespace Packrat.CharRange

variable {r : CharRange} {ranges left right : List CharRange} {n : Nat}

/-- What later ranges cover lies behind a gap. -/
theorem Gapped.last_lt_of_covers (h : Gapped (r :: ranges)) (hn : Covers ranges n) :
    r.last.toNat + 1 < n := by
  obtain ⟨later, hlater, hfirst, -⟩ := hn
  have hgap := (List.pairwise_cons.1 h).1 later hlater
  omega

theorem Gapped.first_le_of_covers (h : Gapped (r :: ranges))
    (hordered : r.first.toNat ≤ r.last.toNat) (hn : Covers (r :: ranges) n) :
    r.first.toNat ≤ n := by
  rcases covers_cons_iff.1 hn with hr | hlater
  · exact hr.1
  · have hlast := h.last_lt_of_covers hlater
    omega

/-- The code point behind the first range is in the gap. -/
theorem Gapped.not_covers_succ (h : Gapped (r :: ranges)) :
    ¬ Covers (r :: ranges) (r.last.toNat + 1) := by
  intro hn
  rcases covers_cons_iff.1 hn with hr | hlater
  · omega
  · exact Nat.lt_irrefl _ (h.last_lt_of_covers hlater)

/-- The later ranges cover what lies behind the first. -/
theorem Gapped.covers_tail_iff (h : Gapped (r :: ranges)) :
    Covers ranges n ↔ Covers (r :: ranges) n ∧ r.last.toNat < n := by
  rw [covers_cons_iff]
  constructor
  · intro hn
    have hlast := h.last_lt_of_covers hn
    exact ⟨Or.inr hn, by omega⟩
  · rintro ⟨hr | hlater, hlast⟩
    · omega
    · exact hlater

/-- The first range of one list ends no later than that of another which covers as much. -/
theorem Gapped.last_le {s : CharRange} (hleft : Gapped (r :: left))
    (hordered : r.first.toNat ≤ r.last.toNat) (hfirst : r.first = s.first)
    (hcovers : ∀ n, Covers (s :: right) n → Covers (r :: left) n) :
    s.last.toNat ≤ r.last.toNat := by
  apply Nat.le_of_not_lt
  intro hlast
  apply hleft.not_covers_succ
  apply hcovers
  rw [covers_cons_iff, ← hfirst]
  omega

theorem Gapped.head_eq {s : CharRange} (hleft : Gapped (r :: left)) (hright : Gapped (s :: right))
    (hr : r.first.toNat ≤ r.last.toNat) (hs : s.first.toNat ≤ s.last.toNat)
    (h : ∀ n, Covers (r :: left) n ↔ Covers (s :: right) n) : r = s := by
  have hrfirst : Covers (s :: right) r.first.toNat :=
    (h _).1 ⟨r, List.mem_cons_self, Nat.le_refl _, hr⟩
  have hsfirst : Covers (r :: left) s.first.toNat :=
    (h _).2 ⟨s, List.mem_cons_self, Nat.le_refl _, hs⟩
  have hfirst : r.first = s.first := Char.toNat_inj.1 (Nat.le_antisymm
    (hleft.first_le_of_covers hr hsfirst) (hright.first_le_of_covers hs hrfirst))
  have hlast : r.last = s.last := Char.toNat_inj.1 (Nat.le_antisymm
    (hright.last_le hs hfirst.symm fun n => (h n).1) (hleft.last_le hr hfirst fun n => (h n).2))
  cases r
  cases s
  cases hfirst
  cases hlast
  rfl

/-- Lists with gaps of ranges in order that cover the same code points are the same. -/
theorem eq_of_covers_iff (hleft : Gapped left) (hright : Gapped right) (hleftOrdered : Ordered left)
    (hrightOrdered : Ordered right) (h : ∀ n, Covers left n ↔ Covers right n) : left = right := by
  induction left generalizing right with
  | nil =>
      cases right with
      | nil => rfl
      | cons s right =>
          have hs := hrightOrdered s List.mem_cons_self
          obtain ⟨r, hr, -⟩ := (h s.first.toNat).2 ⟨s, List.mem_cons_self, Nat.le_refl _, hs⟩
          cases hr
  | cons r left ih =>
      have hr := hleftOrdered r List.mem_cons_self
      cases right with
      | nil =>
          obtain ⟨s, hs, -⟩ := (h r.first.toNat).1 ⟨r, List.mem_cons_self, Nat.le_refl _, hr⟩
          cases hs
      | cons s right =>
          have hs := hrightOrdered s List.mem_cons_self
          obtain rfl := hleft.head_eq hright hr hs h
          have htail : left = right := by
            apply ih hleft.of_cons hright.of_cons
            · exact fun t ht => hleftOrdered t (List.mem_cons_of_mem r ht)
            · exact fun t ht => hrightOrdered t (List.mem_cons_of_mem r ht)
            · intro n
              rw [hleft.covers_tail_iff, hright.covers_tail_iff, h]
          rw [htail]

/-! ### Merging again -/

theorem sortedByFirst_mergeFrom {top : CharRange} {rest : List CharRange}
    (h : SortedByFirst (top :: rest)) : SortedByFirst (mergeFrom top rest) := by
  induction rest generalizing top with
  | nil => exact h
  | cons next rest ih =>
      rw [mergeFrom]
      by_cases htouch : next.first.toNat ≤ top.last.toNat + 1
      · rw [if_pos htouch]
        exact ih (sortedByFirst_extendTo h)
      · rw [if_neg htouch]
        refine List.pairwise_cons.2 ⟨fun r hr => ?_, ih h.of_cons⟩
        exact Nat.le_trans ((List.pairwise_cons.1 h).1 next List.mem_cons_self)
          (first_le_of_mem_mergeFrom h.of_cons hr)

theorem sortedByFirst_merge (ranges : List CharRange) : SortedByFirst (merge ranges) := by
  have hsorted := sortedByFirst_sortByFirst ranges
  unfold merge
  cases hcase : sortByFirst ranges with
  | nil => exact List.Pairwise.nil
  | cons top rest =>
      rw [hcase] at hsorted
      exact sortedByFirst_mergeFrom hsorted

theorem sortByFirst_eq_self (h : SortedByFirst ranges) : sortByFirst ranges = ranges :=
  sortBy_eq_self (h.imp (by simp))

/-- Where there are gaps nothing is absorbed. -/
theorem mergeFrom_eq_self {top : CharRange} {rest : List CharRange} (h : Gapped (top :: rest)) :
    mergeFrom top rest = top :: rest := by
  induction rest generalizing top with
  | nil => rfl
  | cons next rest ih =>
      have hgap := (List.pairwise_cons.1 h).1 next List.mem_cons_self
      rw [mergeFrom, if_neg (by omega), ih h.of_cons]

theorem merge_eq_self (hsorted : SortedByFirst ranges) (hgapped : Gapped ranges) :
    merge ranges = ranges := by
  rw [merge, sortByFirst_eq_self hsorted]
  cases ranges with
  | nil => rfl
  | cons top rest => exact mergeFrom_eq_self hgapped

/-- Merging twice is merging once. -/
theorem merge_merge (ranges : List CharRange) : merge (merge ranges) = merge ranges :=
  merge_eq_self (sortedByFirst_merge ranges) (gapped_merge ranges)

/-- Ranges that cover the same code points are merged into the same list. -/
theorem merge_eq_merge (hleft : Ordered left) (hright : Ordered right)
    (h : ∀ n, Covers left n ↔ Covers right n) : merge left = merge right := by
  apply eq_of_covers_iff (gapped_merge left) (gapped_merge right) (ordered_merge hleft)
    (ordered_merge hright)
  intro n
  rw [covers_merge_iff, covers_merge_iff, h]

theorem exists_contains_iff_covers {c : Char} :
    (∃ r ∈ ranges, r.contains c = true) ↔ Covers ranges c.toNat := by
  simp only [contains_iff, Covers]

/-- Merged ranges are a canonical form.  If the ranges have their ends in order, so do the merged
ones, which ascend with gaps between them, cover the same code points, and are the same for all
ranges that do.  Any ranges are merged for good, and keep their members. -/
theorem canonical_merge :
    (∀ ranges, Ordered ranges →
      SortedByFirst (merge ranges) ∧ Ordered (merge ranges) ∧ Gapped (merge ranges) ∧
        ∀ n, Covers (merge ranges) n ↔ Covers ranges n) ∧
    (∀ left right, Ordered left → Ordered right → (∀ n, Covers left n ↔ Covers right n) →
      merge left = merge right) ∧
    ∀ ranges, merge (merge ranges) = merge ranges ∧
      ∀ c, (∃ r ∈ merge ranges, r.contains c = true) ↔ ∃ r ∈ ranges, r.contains c = true := by
  refine ⟨?_, fun left right hleft hright => merge_eq_merge hleft hright, ?_⟩
  · intro ranges hordered
    exact ⟨sortedByFirst_merge ranges, ordered_merge hordered, gapped_merge ranges,
      covers_merge_iff ranges⟩
  · intro ranges
    refine ⟨merge_merge ranges, fun c => ?_⟩
    rw [exists_contains_iff_covers, exists_contains_iff_covers, covers_merge_iff]

namespace CanonicalWitness

/-- Letters out of order, a range that another touches, and one of a single letter. -/
def scattered : List CharRange := [⟨'x', 'x'⟩, ⟨'d', 'f'⟩, ⟨'a', 'c'⟩, ⟨'x', 'x'⟩]

/-- The same letters in other ranges. -/
def overlapping : List CharRange := [⟨'a', 'e'⟩, ⟨'b', 'f'⟩, ⟨'x', 'x'⟩]

theorem covers_scattered_iff (n : Nat) : Covers scattered n ↔ Covers overlapping n := by
  have hnil : ¬ Covers [] n := by simp [Covers]
  simp only [scattered, overlapping, covers_cons_iff, hnil, or_false, Char.reduceToNat]
  omega

theorem merge_scattered :
    Ordered scattered ∧ Ordered overlapping ∧ merge scattered = [⟨'a', 'f'⟩, ⟨'x', 'x'⟩] ∧
      Gapped (merge scattered) ∧ merge scattered = merge overlapping := by
  have hscattered : Ordered scattered := by
    unfold Ordered
    decide
  have hoverlapping : Ordered overlapping := by
    unfold Ordered
    decide
  obtain ⟨hform, hsame, -⟩ := canonical_merge
  exact ⟨hscattered, hoverlapping, rfl, (hform scattered hscattered).2.2.1,
    hsame scattered overlapping hscattered hoverlapping covers_scattered_iff⟩

end CanonicalWitness

end Packrat.CharRange
