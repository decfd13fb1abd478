import Packrat.Expectation.Basic

/-!
# Tables of expectations

Failure sites name what they expected by an index.  Equal expectations share one index, and indices
are given in the order of first occurrence.  A table keeps the index of each expectation beside the
list of them.  Main statements: both tell the same (`Consistent.intern`), so that interning returns
the index under which the expectation is found (`Consistent.get?_intern`), and no index given
earlier changes (`get?_intern_of_get?`).
-/

namespace Packrat

theorem getElem?_concat_eq_some_iff {α : Type} {xs : List α} {x y : α} {i : Nat} :
    (xs ++ [x])[i]? = some y ↔ xs[i]? = some y ∨ (xs.length = i ∧ y = x) := by
  rw [List.getElem?_append]
  split
  next hlt => simp [Nat.ne_of_gt hlt]
  next hge =>
    have hnone : xs[i]? = none := List.getElem?_eq_none (Nat.le_of_not_lt hge)
    have hlast : i - xs.length = 0 ↔ xs.length = i := by omega
    simp [hnone, List.getElem?_singleton, hlast, eq_comm]

/-- Expectations by index, and the index of each expectation. -/
structure ExpectationTable where
  entries : List Expectation
  index : List (Expectation × Nat)
  deriving DecidableEq, Repr

namespace ExpectationTable

def empty : ExpectationTable := ⟨[], []⟩

/-- The number of entries. -/
def size (table : ExpectationTable) : Nat :=
  table.entries.length

/-- The expectation with an index. -/
def get? (table : ExpectationTable) (index : Nat) : Option Expectation :=
  table.entries[index]?

/-- The index of an expectation that is in the table. -/
def find? (table : ExpectationTable) (e : Expectation) : Option Nat :=
  table.index.lookup e

/-- The index of an expectation, and the table that holds it. -/
def intern (table : ExpectationTable) (e : Expectation) : Nat × ExpectationTable :=
  match table.find? e with
  | some index => (index, table)
  | none => (table.size, ⟨table.entries ++ [e], (e, table.size) :: table.index⟩)

/-- Interns expectations one after another; gives the index of each. -/
def internAll (table : ExpectationTable) : List Expectation → List Nat × ExpectationTable
  | [] => ([], table)
  | e :: rest =>
    let (index, table) := table.intern e
    let (indices, table) := table.internAll rest
    (index :: indices, table)

/-- The table of some expectations in the order of first occurrence. -/
def ofList (expectations : List Expectation) : ExpectationTable :=
  (empty.internAll expectations).2

/-- The index that is kept for an expectation is the one under which it is listed. -/
def Consistent (table : ExpectationTable) : Prop :=
  ∀ e i, table.find? e = some i ↔ table.get? i = some e

theorem consistent_empty : empty.Consistent := by
  intro e i
  simp [find?, get?, empty]

theorem Consistent.not_mem {table : ExpectationTable} (h : table.Consistent) {e : Expectation}
    (hnone : table.find? e = none) : e ∉ table.entries := by
  intro hmem
  obtain ⟨i, hi⟩ := List.mem_iff_getElem?.1 hmem
  rw [(h e i).2 hi] at hnone
  cases hnone

/-- A new expectation is listed last and found there. -/
theorem Consistent.intern {table : ExpectationTable} (h : table.Consistent) (e : Expectation) :
    (table.intern e).2.Consistent := by
  unfold ExpectationTable.intern
  split
  next => exact h
  next hnone =>
    intro f i
    show _ ↔ (table.entries ++ [e])[i]? = some f
    rw [getElem?_concat_eq_some_iff]
    by_cases hf : f = e
    · have hnew : ¬ table.entries[i]? = some f := fun hi =>
        h.not_mem hnone (hf ▸ List.mem_of_getElem? hi)
      simp [find?, size, hf, hf ▸ hnew]
    · have hold : table.index.lookup f = some i ↔ table.entries[i]? = some f := h f i
      simp [find?, List.lookup_cons, beq_false_of_ne hf, hf, hold]

/-- The returned index leads back to the expectation. -/
theorem Consistent.get?_intern {table : ExpectationTable} (h : table.Consistent)
    (e : Expectation) : (table.intern e).2.get? (table.intern e).1 = some e := by
  unfold ExpectationTable.intern
  split
  next index hfound => exact (h e index).1 hfound
  next => simp [get?, size]

/-- Interning keeps every entry under its index. -/
theorem get?_intern_of_get? {table : ExpectationTable} {e old : Expectation} {index : Nat}
    (h : table.get? index = some old) : (table.intern e).2.get? index = some old := by
  unfold intern
  split
  next => exact h
  next =>
    simp only [get?] at h ⊢
    rw [List.getElem?_append_left (List.getElem?_eq_some_iff.1 h).1]
    exact h

end ExpectationTable

end Packrat
