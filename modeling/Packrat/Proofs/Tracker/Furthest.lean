import Packrat.Proofs.Tracker.Record

/-!
# What a tracker tells

A tracker that starts empty tells the furthest of the failures that it has taken in, and which of
them were there.  Main statements: what it tells after some failures (`tells_record`) and when the
end of input is expected as well (`Tells.failEnd`), and that it only matters which failures there
were (`record_eq_of_mem_iff`).
-/

namespace Packrat

/-- The furthest of some positions, or the start if there is none. -/
def furthestOf (positions : List Nat) : Nat :=
  positions.foldr max 0

@[simp] theorem furthestOf_nil : furthestOf [] = 0 := rfl

@[simp] theorem furthestOf_cons (pos : Nat) (positions : List Nat) :
    furthestOf (pos :: positions) = max pos (furthestOf positions) := rfl

@[simp] theorem furthestOf_append (positions more : List Nat) :
    furthestOf (positions ++ more) = max (furthestOf positions) (furthestOf more) := by
  induction positions with
  | nil => simp
  | cons pos positions ih => simp [ih, Nat.max_assoc]

theorem le_furthestOf {pos : Nat} {positions : List Nat} (h : pos ∈ positions) :
    pos ≤ furthestOf positions := by
  induction positions with
  | nil => cases h
  | cons first positions ih =>
      rw [furthestOf_cons]
      rcases List.mem_cons.1 h with rfl | h
      · exact Nat.le_max_left ..
      · exact Nat.le_trans (ih h) (Nat.le_max_right ..)

namespace Tracker

/-- A tracker tells of failures, and of the end of input if it was expected at a position. -/
structure Tells (t : Tracker) (failures : List Failure) (stop : Option Nat) : Prop where
  furthest : t.furthest = furthestOf (failures.map (·.pos) ++ stop.toList)
  mem_expected : ∀ i, i ∈ t.expected ↔ ∃ f ∈ failures, f.pos = t.furthest ∧ f.index = i
  expectsEnd : t.expectsEnd = true ↔ stop = some t.furthest

variable {t : Tracker} {failures : List Failure}

theorem tells_empty : empty.Tells [] none where
  furthest := rfl
  mem_expected := by simp [empty]
  expectsEnd := by simp [empty]

theorem Tells.pos_le (h : t.Tells failures none) {f : Failure} (hf : f ∈ failures) :
    f.pos ≤ t.furthest := by
  rw [h.furthest]
  exact le_furthestOf (List.mem_append_left _ (List.mem_map_of_mem hf))

/-- One more failure is told of. -/
theorem Tells.note (h : t.Tells failures none) (f : Failure) :
    (t.note f.pos f.index).Tells (failures ++ [f]) none where
  furthest := by
    rw [furthest_note, h.furthest]
    simp
  mem_expected := by
    intro i
    rcases Nat.lt_trichotomy f.pos t.furthest with hlt | heq | hgt
    · rw [note_of_lt hlt, h.mem_expected]
      simp [or_and_right, exists_or, Nat.ne_of_lt hlt]
    · rw [note_of_eq heq, mem_insertAscending, h.mem_expected]
      simp only [List.mem_append, List.mem_singleton, or_and_right, exists_or, exists_eq_left, heq,
        true_and]
      rw [or_comm, eq_comm]
    · have hnone : ¬ ∃ g ∈ failures, g.pos = f.pos ∧ g.index = i := by
        rintro ⟨g, hg, hpos, -⟩
        have := h.pos_le hg
        omega
      rw [note_of_gt hgt]
      simp only [List.mem_append, List.mem_singleton, or_and_right, exists_or, exists_eq_left,
        hnone, false_or, true_and]
      exact eq_comm
  expectsEnd := by
    have hend : t.expectsEnd = false := by simpa using h.expectsEnd
    rcases Nat.lt_trichotomy f.pos t.furthest with hlt | heq | hgt
    · simp [note_of_lt hlt, hend]
    · simp [note_of_eq heq, hend]
    · simp [note_of_gt hgt]

/-- What a tracker tells that starts empty. -/
theorem tells_record (failures : List Failure) : (empty.record failures).Tells failures none := by
  have hmore (failures : List Failure) :
      ∀ {t : Tracker} {before : List Failure}, t.Tells before none →
        (t.record failures).Tells (before ++ failures) none := by
    induction failures with
    | nil => simp
    | cons f failures ih =>
        intro t before h
        rw [record_cons]
        simpa using ih (h.note f)
  exact hmore failures tells_empty

/-- The end of input is told of if no failure lies beyond. -/
theorem Tells.failEnd (h : t.Tells failures none) (pos : Nat) :
    (t.failEnd pos).Tells failures (some pos) where
  furthest := by
    rw [furthest_failEnd, h.furthest]
    simp
  mem_expected := by
    intro i
    by_cases hgt : t.furthest < pos
    · have hnone : ¬ ∃ f ∈ failures, f.pos = pos ∧ f.index = i := by
        rintro ⟨f, hf, hpos, -⟩
        have := h.pos_le hf
        omega
      simpa [Tracker.failEnd, reach, hgt] using hnone
    · have hsame : (t.failEnd pos).furthest = t.furthest ∧
          (t.failEnd pos).expected = t.expected := by
        simp only [Tracker.failEnd, reach, if_neg hgt]
        split <;> exact ⟨rfl, rfl⟩
      rw [hsame.1, hsame.2]
      exact h.mem_expected i
  expectsEnd := by
    have hend : t.expectsEnd = false := by simpa using h.expectsEnd
    by_cases hgt : t.furthest < pos
    · simp [Tracker.failEnd, reach, hgt]
    · by_cases heq : pos = t.furthest
      · simp [Tracker.failEnd, reach, heq]
      · simp [Tracker.failEnd, reach, hgt, heq, hend]

/-- A failure that was taken in leaves no further trace. -/
theorem note_of_mem_record (t : Tracker) {f : Failure} (h : f ∈ failures) :
    (t.record failures).note f.pos f.index = t.record failures := by
  obtain ⟨before, after, rfl⟩ := List.append_of_mem h
  rw [record_append, record_cons, record_note_comm, note_note_self]

theorem absorbs_of_subset (t : Tracker) {more : List Failure} (h : ∀ f ∈ more, f ∈ failures) :
    (t.record failures).Absorbs more := by
  unfold Absorbs
  induction more with
  | nil => rfl
  | cons f more ih =>
      rw [record_cons, note_of_mem_record t (h f List.mem_cons_self)]
      exact ih fun g hg => h g (List.mem_cons_of_mem f hg)

/-- Only which failures there were makes a difference. -/
theorem record_eq_of_mem_iff (t : Tracker) {more : List Failure}
    (h : ∀ f, f ∈ failures ↔ f ∈ more) : t.record failures = t.record more := by
  have hmore := absorbs_of_subset t fun f hf => (h f).2 hf
  have hfailures := absorbs_of_subset t fun f hf => (h f).1 hf
  rw [← hmore, record_comm, hfailures]

end Tracker

end Packrat
