/-!
# Ascending lists

A list in strictly ascending order holds no element twice, so it stands for a set.  Main statements:
insertion adds one member (`mem_insertAscending`) and keeps the order
(`pairwise_insertAscending`).
-/

namespace Packrat

variable {α : Type} [LT α] [DecidableLT α] [DecidableEq α]

/-- Puts an element in its place in an ascending list, unless it is there. -/
def insertAscending (x : α) : List α → List α
  | [] => [x]
  | y :: ys =>
    if x < y then x :: y :: ys
    else if x = y then y :: ys
    else y :: insertAscending x ys

/-- The elements of a list in ascending order, each of them once. -/
def ascending : List α → List α
  | [] => []
  | x :: xs => insertAscending x (ascending xs)

theorem mem_insertAscending {x z : α} {ys : List α} :
    z ∈ insertAscending x ys ↔ z = x ∨ z ∈ ys := by
  induction ys with
  | nil => simp [insertAscending]
  | cons y ys ih =>
    simp only [insertAscending]
    split
    next => simp
    next =>
      split
      next h => simp [h]
      next => simp only [List.mem_cons, ih, or_left_comm]

theorem mem_ascending {z : α} {xs : List α} : z ∈ ascending xs ↔ z ∈ xs := by
  induction xs with
  | nil => simp [ascending]
  | cons x xs ih => simp only [ascending, mem_insertAscending, ih, List.mem_cons]

section Ordered

variable [Std.Trichotomous (α := α) (· < ·)]
  [Trans (α := α) (β := α) (γ := α) (· < ·) (· < ·) (· < ·)]

theorem pairwise_insertAscending {x : α} {ys : List α} (h : ys.Pairwise (· < ·)) :
    (insertAscending x ys).Pairwise (· < ·) := by
  induction ys with
  | nil => simp [insertAscending]
  | cons y ys ih =>
    obtain ⟨hy, hys⟩ := List.pairwise_cons.1 h
    simp only [insertAscending]
    split
    next hlt =>
      refine List.pairwise_cons.2 ⟨fun z hz => ?_, h⟩
      rcases List.mem_cons.1 hz with rfl | hz
      · exact hlt
      · exact Trans.trans hlt (hy z hz)
    next hge =>
      split
      next => exact h
      next hne =>
        refine List.pairwise_cons.2 ⟨fun z hz => ?_, ih hys⟩
        rcases mem_insertAscending.1 hz with rfl | hz
        · exact Decidable.byContradiction fun hnot =>
            hne (Std.Trichotomous.trichotomous _ _ hge hnot)
        · exact hy z hz

/-- The order is strict. -/
theorem pairwise_ascending (xs : List α) : (ascending xs).Pairwise (· < ·) := by
  induction xs with
  | nil => simp [ascending]
  | cons x xs ih => exact pairwise_insertAscending ih

end Ordered

end Packrat
