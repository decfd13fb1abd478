import Packrat.Parse.Session
import Packrat.Proofs.Plan.Exec

/-!
# Recorded failures

A tracker takes in failures one after another as long as it has room for them.  Neither their order
nor their repetition matters, so failures that it has taken in once leave no further trace.  Main
statements: what is recorded is absorbed (`absorbs_record_self`), and stays so whatever is recorded
later (`Absorbs.record`).
-/

namespace Packrat

theorem insertAscending_self (x : Nat) (xs : List Nat) :
    insertAscending x (insertAscending x xs) = insertAscending x xs := by
  induction xs with
  | nil => simp [insertAscending]
  | cons y ys ih =>
      by_cases hlt : x < y
      · simp [insertAscending, hlt]
      · by_cases heq : x = y
        · simp [insertAscending, heq]
        · simp [insertAscending, hlt, heq, ih]

theorem insertAscending_comm (x y : Nat) (zs : List Nat) :
    insertAscending x (insertAscending y zs) = insertAscending y (insertAscending x zs) := by
  induction zs with
  | nil =>
      simp only [insertAscending]
      grind
  | cons z zs ih =>
      -- The order of `x`, `y` and `z` decides where each of the four insertions stops.
      simp only [insertAscending]
      grind [insertAscending]

/-- A failure to match: where it was, and the index of what was expected there. -/
structure Failure where
  pos : Nat
  index : Nat

namespace Tracker

theorem furthest_reach (t : Tracker) (pos : Nat) :
    (t.reach pos).furthest = max t.furthest pos := by
  by_cases hgt : t.furthest < pos
  · have hmax : max t.furthest pos = pos := by omega
    simp [reach, hgt, hmax]
  · rw [reach_of_le (Nat.le_of_not_lt hgt)]
    omega

/-- The tracker with a failure recorded. -/
def note (t : Tracker) (pos index : Nat) : Tracker :=
  let t := t.reach pos
  if pos = t.furthest then { t with expected := insertAscending index t.expected } else t

theorem note_of_lt {t : Tracker} {pos : Nat} (h : pos < t.furthest) (index : Nat) :
    t.note pos index = t := by
  simp only [note, reach_of_le (Nat.le_of_lt h)]
  rw [if_neg (by omega)]

theorem note_of_gt {t : Tracker} {pos : Nat} (h : t.furthest < pos) (index : Nat) :
    t.note pos index = ⟨pos, [index], false⟩ := by
  simp [note, reach, h, insertAscending]

theorem note_of_eq {t : Tracker} {pos : Nat} (h : pos = t.furthest) (index : Nat) :
    t.note pos index = { t with expected := insertAscending index t.expected } := by
  simp [note, reach, h]

theorem furthest_note (t : Tracker) (pos index : Nat) :
    (t.note pos index).furthest = max t.furthest pos := by
  rw [note, ← furthest_reach]
  split <;> rfl

theorem furthest_failEnd (t : Tracker) (pos : Nat) :
    (t.failEnd pos).furthest = max t.furthest pos := by
  rw [failEnd, ← furthest_reach]
  split <;> rfl

/-- There is room for a failure if its index is small enough, or if it is passed by. -/
def HasRoom (t : Tracker) (f : Failure) : Prop :=
  f.pos < t.furthest ∨ f.index + 1 < sizeLimit

/-- A failure is recorded if there is room for it, and is a fault if there is none. -/
theorem fail_eq_ok_iff {t u : Tracker} {pos index : Nat} :
    t.fail pos index = .ok u ↔ t.HasRoom ⟨pos, index⟩ ∧ t.note pos index = u := by
  have hpos : pos = (t.reach pos).furthest ↔ ¬ pos < t.furthest := by
    rw [furthest_reach]
    omega
  simp only [fail, note, expect, HasRoom, hpos]
  by_cases hlt : pos < t.furthest <;> by_cases hindex : index + 1 < sizeLimit <;>
    simp [hlt, hindex]

/-- A failure before another one makes no difference to it. -/
theorem note_note_of_lt (t : Tracker) {first last : Nat} (h : first < last) (i j : Nat) :
    (t.note first i).note last j = t.note last j := by
  rcases Nat.lt_trichotomy last t.furthest with hlt | rfl | hgt
  · rw [note_of_lt (Nat.lt_trans h hlt)]
  · rw [note_of_lt h]
  · have hmax : (t.note first i).furthest < last := by
      rw [furthest_note]
      omega
    rw [note_of_gt hmax, note_of_gt hgt]

theorem note_note_of_gt (t : Tracker) {first last : Nat} (h : first < last) (i j : Nat) :
    (t.note last j).note first i = t.note last j := by
  apply note_of_lt
  rw [furthest_note]
  omega

theorem note_note_self (t : Tracker) (pos index : Nat) :
    (t.note pos index).note pos index = t.note pos index := by
  rcases Nat.lt_trichotomy pos t.furthest with hlt | rfl | hgt
  · rw [note_of_lt hlt, note_of_lt hlt]
  · rw [note_of_eq rfl, note_of_eq rfl, insertAscending_self]
  · rw [note_of_gt hgt, note_of_eq rfl]
    simp [insertAscending]

/-- Failures may be recorded in any order. -/
theorem note_comm (t : Tracker) (p i q j : Nat) :
    (t.note p i).note q j = (t.note q j).note p i := by
  rcases Nat.lt_trichotomy p q with hlt | rfl | hgt
  · rw [note_note_of_lt t hlt, note_note_of_gt t hlt]
  · rcases Nat.lt_trichotomy p t.furthest with hlt | rfl | hgt
    · rw [note_of_lt hlt, note_of_lt hlt, note_of_lt hlt]
    · have hsame (k : Nat) : (t.note t.furthest k).furthest = t.furthest := by
        simp [furthest_note]
      rw [note_of_eq (hsame i).symm, note_of_eq (hsame j).symm, note_of_eq rfl, note_of_eq rfl]
      simp [insertAscending_comm i j]
    · have hswap : insertAscending j [i] = insertAscending i [j] := insertAscending_comm j i []
      rw [note_of_gt hgt, note_of_gt hgt, note_of_eq rfl, note_of_eq rfl]
      simp [hswap]
  · rw [note_note_of_gt t hgt, note_note_of_lt t hgt]

/-- Records failures one after another. -/
def record (t : Tracker) (failures : List Failure) : Tracker :=
  failures.foldl (fun t f => t.note f.pos f.index) t

@[simp] theorem record_nil (t : Tracker) : t.record [] = t := rfl

theorem record_cons (t : Tracker) (f : Failure) (fs : List Failure) :
    t.record (f :: fs) = (t.note f.pos f.index).record fs := rfl

theorem record_append (t : Tracker) (fs gs : List Failure) :
    t.record (fs ++ gs) = (t.record fs).record gs := by
  simp [record]

theorem record_note_comm (t : Tracker) (fs : List Failure) (p i : Nat) :
    (t.note p i).record fs = (t.record fs).note p i := by
  induction fs generalizing t with
  | nil => rfl
  | cons f fs ih =>
      rw [record_cons, record_cons, note_comm, ih]

theorem record_comm (t : Tracker) (fs gs : List Failure) :
    (t.record fs).record gs = (t.record gs).record fs := by
  induction fs generalizing t with
  | nil => rfl
  | cons f fs ih =>
      rw [record_cons, record_cons, ih, record_note_comm]

/-- There is room for failures one after another. -/
def Takes (t : Tracker) : List Failure → Prop
  | [] => True
  | f :: fs => t.HasRoom f ∧ (t.note f.pos f.index).Takes fs

theorem takes_append {t : Tracker} {fs gs : List Failure} :
    t.Takes (fs ++ gs) ↔ t.Takes fs ∧ (t.record fs).Takes gs := by
  induction fs generalizing t with
  | nil => simp [Takes]
  | cons f fs ih => rw [List.cons_append, Takes, Takes, ih, record_cons, and_assoc]

/-- A tracker absorbs failures that would not change it. -/
def Absorbs (t : Tracker) (failures : List Failure) : Prop :=
  t.record failures = t

theorem absorbs_record_self (t : Tracker) (fs : List Failure) :
    (t.record fs).Absorbs fs := by
  unfold Absorbs
  induction fs generalizing t with
  | nil => rfl
  | cons f fs ih =>
      rw [record_cons, record_cons, ← record_note_comm, note_note_self, ih]

theorem Absorbs.record {t : Tracker} {fs : List Failure} (h : t.Absorbs fs)
    (gs : List Failure) : (t.record gs).Absorbs fs := by
  unfold Absorbs at h ⊢
  rw [record_comm, h]

end Tracker

namespace Session

variable {V R : Type}

/-- A session with a failure recorded at the cursor. -/
def note (s : Session V R) (index : Nat) : Session V R :=
  { s with failure := s.failure.note s.pos index }

theorem fail_eq_ok_iff {s after : Session V R} {index : Nat} :
    s.fail index = .ok after ↔ s.failure.HasRoom ⟨s.pos, index⟩ ∧ s.note index = after := by
  rw [fail, bind_eq_ok]
  constructor
  · rintro ⟨failure, hfail, hafter⟩
    obtain ⟨hroom, rfl⟩ := Tracker.fail_eq_ok_iff.1 hfail
    cases hafter
    exact ⟨hroom, rfl⟩
  · rintro ⟨hroom, rfl⟩
    exact ⟨_, Tracker.fail_eq_ok_iff.2 ⟨hroom, rfl⟩, rfl⟩

end Session

end Packrat
