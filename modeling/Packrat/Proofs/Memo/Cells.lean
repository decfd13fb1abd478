import Packrat.Proofs.Memo.RuleSet

/-!
# Cells of a call

A call is given some of the cells of its caller, by place.  Main statements: different places pick
different cells (`nodup_pick`), and a kept result restores the values of different cells one by one
(`map_read_restore`).
-/

namespace Packrat

variable {α β R : Type}

theorem pick_eq_some_iff {xs : List α} {places : List Nat} {ys : List α} :
    pick xs places = some ys ↔ places.map (xs[·]?) = ys.map some := by
  induction places generalizing ys with
  | nil => cases ys <;> simp [pick]
  | cons place places ih =>
      cases ys with
      | nil =>
          simp only [pick, List.map_cons, List.map_nil, reduceCtorEq, iff_false]
          split <;> simp
      | cons y ys =>
          rw [List.map_cons, List.map_cons, List.cons.injEq, ← ih]
          cases hx : xs[place]? with
          | none => simp [pick, hx]
          | some x =>
              cases hrest : pick xs places with
              | none => simp [pick, hx, hrest]
              | some rest => simp [pick, hx, hrest]

theorem pick_map (f : α → β) (xs : List α) (places : List Nat) :
    pick (xs.map f) places = (pick xs places).map (List.map f) := by
  induction places with
  | nil => rfl
  | cons place places ih =>
      cases hx : xs[place]? with
      | none => simp [pick, hx]
      | some x =>
          cases hrest : pick xs places with
          | none => simp [pick, hx, ih, hrest]
          | some rest => simp [pick, hx, ih, hrest]

theorem exists_place_of_mem_pick {xs : List α} {places : List Nat} {ys : List α}
    (h : pick xs places = some ys) {y : α} (hy : y ∈ ys) :
    ∃ place ∈ places, xs[place]? = some y := by
  have hmem : some y ∈ places.map (xs[·]?) := by
    rw [pick_eq_some_iff.1 h]
    exact List.mem_map_of_mem hy
  simpa using hmem

theorem mem_of_mem_pick {xs : List α} {places : List Nat} {ys : List α}
    (h : pick xs places = some ys) {y : α} (hy : y ∈ ys) : y ∈ xs := by
  obtain ⟨place, -, hplace⟩ := exists_place_of_mem_pick h hy
  exact List.mem_of_getElem? hplace

/-- In a list without repetition an element that is picked stands at one of the places. -/
theorem not_mem_pick {xs : List α} (hxs : xs.Nodup) {places : List Nat} {ys : List α}
    (h : pick xs places = some ys) {place : Nat} (hplace : place ∉ places) {x : α}
    (hx : xs[place]? = some x) : x ∉ ys := by
  intro hmem
  obtain ⟨other, hother, hx'⟩ := exists_place_of_mem_pick h hmem
  have hlt : other < xs.length := (List.getElem?_eq_some_iff.1 hx').1
  have heq : other = place := (List.getElem?_inj hlt hxs).1 (hx'.trans hx.symm)
  exact hplace (heq ▸ hother)

theorem nodup_pick {xs : List α} (hxs : xs.Nodup) {places : List Nat} (hplaces : places.Nodup)
    {ys : List α} (h : pick xs places = some ys) : ys.Nodup := by
  induction places generalizing ys with
  | nil =>
      obtain rfl : [] = ys := by simpa [pick] using h
      exact List.nodup_nil
  | cons place places ih =>
      obtain ⟨hnot, hplaces⟩ := List.nodup_cons.1 hplaces
      cases hx : xs[place]? with
      | none => simp [pick, hx] at h
      | some x =>
          cases hrest : pick xs places with
          | none => simp [pick, hx, hrest] at h
          | some rest =>
              obtain rfl : x :: rest = ys := by simpa [pick, hx, hrest] using h
              exact List.nodup_cons.2 ⟨not_mem_pick hxs hrest hnot hx, ih hplaces hrest⟩

/-- The values of a caller after a call: those at the places that the call was given are new, and
the others are as before. -/
structure PutBack (before : List R) (args : List Nat) (given after : List R) : Prop where
  pick_eq : pick after args = some given
  getElem?_eq : ∀ place, place ∉ args → after[place]? = before[place]?

theorem PutBack.unique {before given after after' : List R} {args : List Nat}
    (h : PutBack before args given after) (h' : PutBack before args given after') :
    after = after' := by
  apply List.ext_getElem?
  intro place
  by_cases hplace : place ∈ args
  · have hpicked := (pick_eq_some_iff.1 h.pick_eq).trans (pick_eq_some_iff.1 h'.pick_eq).symm
    exact List.map_inj_left.1 hpicked place hplace
  · rw [h.getElem?_eq place hplace, h'.getElem?_eq place hplace]

/-- Values with those that changed replaced. -/
def restored (values : List R) (deltas : List (Option R)) : List R :=
  List.zipWith (fun value delta => delta.getD value) values deltas

namespace Cells

@[simp] theorem next_restore (cells : Cells R) (refs : List Nat) (deltas : List (Option R)) :
    (cells.restore refs deltas).next = cells.next := by
  fun_induction restore cells refs deltas with
  | case1 cells c refs value deltas ih => exact ih
  | case2 cells c refs deltas ih => exact ih
  | case3 => rfl

theorem read_restore_of_not_mem (cells : Cells R) {refs : List Nat} (deltas : List (Option R))
    {cell : Nat} (h : cell ∉ refs) : (cells.restore refs deltas).read cell = cells.read cell := by
  fun_induction restore cells refs deltas with
  | case1 cells c refs value deltas ih =>
      simp only [List.mem_cons, not_or] at h
      rw [ih h.2, read_write_of_ne _ h.1]
  | case2 cells c refs deltas ih =>
      simp only [List.mem_cons, not_or] at h
      exact ih h.2
  | case3 => rfl

theorem map_read_write (store : Cells R) {cells : List Nat} (hcells : cells.Nodup)
    {place c : Nat} (hc : cells[place]? = some c) (value : R) :
    cells.map (store.write c value).read = (cells.map store.read).set place value := by
  obtain ⟨hplace, -⟩ := List.getElem?_eq_some_iff.1 hc
  apply List.ext_getElem?
  intro i
  by_cases heq : place = i
  · subst heq
    rw [List.getElem?_set_self (by simpa using hplace), List.getElem?_map, hc, Option.map_some,
      read_write_self]
  · rw [List.getElem?_set_ne heq, List.getElem?_map, List.getElem?_map]
    cases hd : cells[i]? with
    | none => rfl
    | some d =>
        have hne : d ≠ c := by
          rintro rfl
          exact heq ((List.getElem?_inj hplace hcells).1 (hc.trans hd.symm))
        rw [Option.map_some, Option.map_some, read_write_of_ne store hne]

theorem map_read_restore (cells : Cells R) {refs : List Nat} (hrefs : refs.Nodup)
    {deltas : List (Option R)} (hlength : deltas.length = refs.length) :
    refs.map (cells.restore refs deltas).read = restored (refs.map cells.read) deltas := by
  induction refs generalizing cells deltas with
  | nil => simp [restored]
  | cons c refs ih =>
      obtain ⟨hc, hrefs⟩ := List.nodup_cons.1 hrefs
      cases deltas with
      | nil => simp at hlength
      | cons delta deltas =>
          have hlen : deltas.length = refs.length := by simpa using hlength
          cases delta with
          | none =>
              have hrest := ih cells hrefs hlen
              simp only [restore, restored, List.map_cons, List.zipWith_cons_cons] at hrest ⊢
              rw [read_restore_of_not_mem _ _ hc, hrest]
              rfl
          | some value =>
              have hrest := ih (cells.write c value) hrefs hlen
              have hsame : refs.map (cells.write c value).read = refs.map cells.read := by
                refine List.map_congr_left fun other hother => ?_
                have hne : other ≠ c := fun heq => hc (heq ▸ hother)
                exact read_write_of_ne cells hne value
              simp only [restore, restored, List.map_cons, List.zipWith_cons_cons] at hrest ⊢
              rw [read_restore_of_not_mem _ _ hc, hrest, hsame, read_write_self]
              rfl

end Cells

end Packrat
