import Mathlib.Data.Nat.Basic
import Packrat.Proofs.Memo.Replay

/-!
# Shared cells

A call may be given one cell for several parameters, which then share it.  What is kept of a call
tells for each parameter whether the body changed it, and does not tell which parameters shared a
cell.  Main statement: a later call that is answered by it leaves its parameters as any body would
that depends on nothing but the cursor and its cells, if and only if the two calls share their cells
alike (`replays_shared_cells`).
-/

namespace Packrat

variable {V R : Type}

/-- Two parameters are given one cell by one call if and only if they are by the other. -/
def SharedAlike (refs refs' : List Nat) : Prop :=
  ∀ i j : Nat, refs[i]? = refs[j]? ↔ refs'[i]? = refs'[j]?

/-- Cells are shared alike under other numbers. -/
theorem sharedAlike_map {f : Nat → Nat} (hf : Function.Injective f) (refs : List Nat) :
    SharedAlike refs (refs.map f) := by
  intro i j
  rw [List.getElem?_map, List.getElem?_map]
  exact (Option.map_injective hf).eq_iff.symm

/-- The parameters of two calls hold the same values if they do so place by place. -/
theorem map_eq_map_iff {refs refs' : List Nat} {f f' : Nat → R}
    (hlength : refs'.length = refs.length) :
    refs'.map f' = refs.map f ↔
      ∀ k c c' : Nat, refs[k]? = some c → refs'[k]? = some c' → f' c' = f c := by
  rw [List.ext_getElem?_iff]
  constructor
  · intro h k c c' hc hc'
    have hk := h k
    rw [List.getElem?_map, List.getElem?_map, hc, hc'] at hk
    exact Option.some.inj hk
  · intro h k
    by_cases hk : k < refs.length
    · have hc := List.getElem?_eq_getElem hk
      have hc' := List.getElem?_eq_getElem (hlength ▸ hk : k < refs'.length)
      rw [List.getElem?_map, List.getElem?_map, hc, hc', Option.map_some, Option.map_some,
        h k _ _ hc hc']
    · have hle : refs.length ≤ k := Nat.le_of_not_lt hk
      rw [List.getElem?_eq_none (by simpa [hlength] using hle),
        List.getElem?_eq_none (by simpa using hle)]

namespace Cells

/-- A restored cell holds the value that is kept for one of its places if no other value is kept for
another of them. -/
theorem read_restore_of_agree (cells : Cells R) {refs : List Nat} {deltas : List (Option R)}
    {i cell : Nat} {value : R} (hcell : refs[i]? = some cell)
    (hvalue : deltas[i]?.join = some value)
    (hagree : ∀ (j : Nat) (other : R), refs[j]? = some cell → deltas[j]?.join = some other →
      other = value) :
    (cells.restore refs deltas).read cell = value := by
  induction refs generalizing cells deltas i with
  | nil => simp at hcell
  | cons c refs ih =>
      cases deltas with
      | nil => simp at hvalue
      | cons delta deltas =>
          by_cases hlater : ∃ j : Nat, refs[j]? = some cell ∧ deltas[j]?.join = some value
          · obtain ⟨j, hj, hkept⟩ := hlater
            have hrest (cells : Cells R) : (cells.restore refs deltas).read cell = value :=
              ih cells hj hkept fun k other hk hother => hagree (k + 1) other hk hother
            cases delta with
            | none => exact hrest cells
            | some other => exact hrest (cells.write c other)
          · -- the place in question is the first one, and the later ones keep nothing
            have hnone : ∀ j : Nat, refs[j]? = some cell → deltas[j]?.join = none := by
              intro j hj
              apply Option.eq_none_iff_forall_ne_some.2
              intro other hother
              exact hlater ⟨j, hj, hagree (j + 1) other hj hother ▸ hother⟩
            cases i with
            | zero =>
                obtain rfl : c = cell := by simpa using hcell
                obtain rfl : delta = some value := by simpa using hvalue
                rw [restore, read_restore_of_none _ hnone, read_write_self]
            | succ i => exact absurd ⟨i, hcell, hvalue⟩ hlater

end Cells

namespace Session

variable {s t mid : Session V R} {refs refs' : List Nat} {i j : Nat} {value a b : R}

/-- Two calls look alike to a body: they are at the same position of the same input, the parameters
hold the same values, and the cells are shared alike. -/
structure LooksLike (s : Session V R) (refs : List Nat) (t : Session V R) (refs' : List Nat) :
    Prop where
  input : t.input = s.input
  pos : t.pos = s.pos
  values : refs'.map t.cells.read = refs.map s.cells.read
  shared : SharedAlike refs refs'

theorem LooksLike.length_eq (h : s.LooksLike refs t refs') : refs'.length = refs.length := by
  simpa using congrArg List.length h.values

/-- Sets a parameter of a call. -/
def setParam (s : Session V R) (refs : List Nat) (i : Nat) (value : R) : Session V R :=
  match refs[i]? with
  | some c => s.setCell c value
  | none => s

theorem read_setParam (c : Nat) :
    (s.setParam refs i value).cells.read c =
      if refs[i]? = some c then value else s.cells.read c := by
  rw [setParam]
  cases refs[i]? with
  | none => simp
  | some d =>
      by_cases hd : d = c
      · simp [setCell, hd]
      · simp [setCell, hd, Cells.read_write_of_ne s.cells (Ne.symm hd)]

/-- Sets some parameters of a call one after another. -/
def setParams (s : Session V R) (refs : List Nat) (sets : List (Nat × R)) : Session V R :=
  sets.foldl (fun s set => s.setParam refs set.1 set.2) s

theorem LooksLike.setParam (h : s.LooksLike refs t refs') (i : Nat) (value : R) :
    (s.setParam refs i value).LooksLike refs (t.setParam refs' i value) refs' := by
  have hkeeps : ∀ (s : Session V R) refs, (s.setParam refs i value).input = s.input ∧
      (s.setParam refs i value).pos = s.pos := by
    intro s refs
    rw [Session.setParam]
    cases refs[i]? <;> exact ⟨rfl, rfl⟩
  refine ⟨?_, ?_, ?_, h.shared⟩
  · rw [(hkeeps t refs').1, (hkeeps s refs).1, h.input]
  · rw [(hkeeps t refs').2, (hkeeps s refs).2, h.pos]
  · rw [map_eq_map_iff h.length_eq]
    intro k c c' hc hc'
    have hread := (map_eq_map_iff h.length_eq).1 h.values k c c' hc hc'
    have hset : refs[i]? = some c ↔ refs'[i]? = some c' := by
      rw [← hc, ← hc']
      exact h.shared i k
    simp only [read_setParam, hset, hread]

theorem LooksLike.setParams (h : s.LooksLike refs t refs') (sets : List (Nat × R)) :
    (s.setParams refs sets).LooksLike refs (t.setParams refs' sets) refs' := by
  induction sets generalizing s t with
  | nil => exact h
  | cons set sets ih => exact ih (h.setParam set.1 set.2)

/-- Calls of a slot from one position with the same values have one key. -/
theorem memoKey_eq [ToString R] (slot : Nat) (hpos : t.pos = s.pos)
    (hvalues : refs'.map t.cells.read = refs.map s.cells.read) :
    t.memoKey slot refs' = s.memoKey slot refs := by
  have hprinted := congrArg (List.map toString) hvalues
  rw [List.map_map, List.map_map] at hprinted
  simp only [memoKey, hpos, MemoKey.mk.injEq, true_and]
  exact hprinted

/-- One parameter is set to a value, and another one back to that which all cells held. -/
theorem read_setBack (hs : ∀ c, s.cells.read c = b) (refs : List Nat) (i j : Nat) (a : R)
    (c : Nat) :
    (s.setParams refs [(i, a), (j, b)]).cells.read c =
      if refs[i]? = some c ∧ refs[j]? ≠ some c then a else b := by
  simp only [setParams, List.foldl_cons, List.foldl_nil, read_setParam, hs]
  by_cases hj : refs[j]? = some c <;> simp [hj]

section

variable [BEq R] {α ε : Type} {slot : Nat} {result : Option V}

/-- A value is kept for a parameter if it does not compare equal to the one before. -/
theorem join_deltas_entryOf (k : Nat) :
    (s.entryOf mid refs result).deltas[k]?.join =
      refs[k]?.bind fun c =>
        if mid.cells.read c == s.cells.read c then none else some (mid.cells.read c) := by
  cases hc : refs[k]? <;> simp [entryOf, hc, bne, ← Bool.not_eq_true, ite_not]

section

variable [LawfulBEq R]

/-- A call that is answered by what is kept of another call that looks alike to bodies has the
values after that one. -/
theorem LooksLike.values_replay (h : s.LooksLike refs t refs') (mid : Session V R)
    (result : Option V) :
    refs'.map (t.replay refs' (s.entryOf mid refs result)).cells.read =
      refs.map mid.cells.read := by
  rw [map_eq_map_iff h.length_eq]
  intro k c c' hc hc'
  have hread := (map_eq_map_iff h.length_eq).1 h.values k c c' hc hc'
  have hdelta : ∀ j : Nat, refs'[j]? = some c' → (s.entryOf mid refs result).deltas[j]?.join =
      if mid.cells.read c == s.cells.read c then none else some (mid.cells.read c) := by
    intro j hj
    have hcell : refs[j]? = some c := by
      rw [← hc]
      exact (h.shared j k).2 (hj.trans hc'.symm)
    rw [join_deltas_entryOf, hcell, Option.bind_some]
  by_cases hsame : mid.cells.read c = s.cells.read c
  · have hnone := t.cells.read_restore_of_none fun j hj => by
      rw [hdelta j hj, if_pos (beq_iff_eq.2 hsame)]
    exact hnone.trans (hread.trans hsame.symm)
  · have hkept : ∀ j : Nat, refs'[j]? = some c' →
        (s.entryOf mid refs result).deltas[j]?.join = some (mid.cells.read c) := by
      intro j hj
      rw [hdelta j hj, if_neg (mt eq_of_beq hsame)]
    apply t.cells.read_restore_of_agree hc' (hkept k hc')
    intro j other hj hother
    exact Option.some.inj (hother.symm.trans (hkept j hj))

/-- What is kept of a call that sets one parameter, and another one back, sets the first one unless
both had one cell in that call. -/
theorem read_replay_setBack (hs : ∀ c, s.cells.read c = b) (ht : ∀ c, t.cells.read c = b)
    (hab : a ≠ b) {c c' : Nat} (hc : refs[i]? = some c) (hc' : refs'[i]? = some c') :
    (t.replay refs' (s.entryOf (s.setParams refs [(i, a), (j, b)]) refs result)).cells.read c' =
      if refs[j]? = some c then b else a := by
  have hset := read_setBack hs refs i j a
  by_cases hj : refs[j]? = some c
  · have hback : ∀ d, (s.setParams refs [(i, a), (j, b)]).cells.read d = s.cells.read d := by
      intro d
      rw [hset, hs]
      apply if_neg
      rintro ⟨hd, hne⟩
      exact hne (Option.some.inj (hc.symm.trans hd) ▸ hj)
    have hnone : ∀ k : Nat, refs'[k]? = some c' →
        (s.entryOf (s.setParams refs [(i, a), (j, b)]) refs result).deltas[k]?.join = none := by
      intro k _
      rw [join_deltas_entryOf]
      cases refs[k]? <;> simp [hback]
    rw [if_pos hj]
    exact (t.cells.read_restore_of_none hnone).trans (ht c')
  · have hkept : (s.setParams refs [(i, a), (j, b)]).cells.read c = a := by
      rw [hset, if_pos ⟨hc, hj⟩]
    rw [if_neg hj]
    apply t.cells.read_restore_of_agree hc'
    · rw [join_deltas_entryOf, hc, Option.bind_some, hkept, hs, if_neg (mt eq_of_beq hab)]
    · intro k other _ hother
      rw [join_deltas_entryOf] at hother
      obtain ⟨d, -, hd⟩ := Option.bind_eq_some_iff.1 hother
      rw [hset, hs] at hd
      by_cases hfirst : refs[i]? = some d ∧ refs[j]? ≠ some d
      · rw [if_pos hfirst, if_neg (mt eq_of_beq hab)] at hd
        exact (Option.some.inj hd).symm
      · rw [if_neg hfirst, if_pos (beq_self_eq_true b)] at hd
        cases hd

end

variable [ToString R]

theorem callCached_of_find? {entry : MemoEntry V R}
    (body : Session V R → Except ε (α × Option V × Session V R))
    (h : s.memo.find? (s.memoKey slot refs) = some entry) :
    s.callCached slot refs body = .ok (none, entry.result, s.replay refs entry) := by
  simp [callCached, h]

/-- A call that ran its body found nothing that was kept, and what the body came to is kept. -/
theorem exists_of_callCached {body : Session V R → Except ε (α × Option V × Session V R)}
    {account : α} {after : Session V R}
    (h : s.callCached slot refs body = .ok (some account, result, after)) :
    ∃ mid, body s = .ok (account, result, mid) ∧
      after.memo.find? (s.memoKey slot refs) = some (s.entryOf mid refs result) := by
  rw [callCached] at h
  split at h
  next => simp at h
  next =>
    cases hbody : body s with
    | error e => simp [hbody, bind, Except.bind] at h
    | ok out =>
        obtain ⟨account', result', mid⟩ := out
        simp only [hbody, bind, Except.bind, Except.ok.injEq, Prod.mk.injEq, Option.some.injEq] at h
        obtain ⟨rfl, rfl, rfl⟩ := h
        exact ⟨mid, rfl, by simp⟩

end

end Session

/-- What a body does depends on nothing but the cursor and the cells that it is given: a call that
looks alike comes to the same result, with the same cursor and the same values. -/
def DependsOnCells {α ε : Type}
    (body : List Nat → Session V R → Except ε (α × Option V × Session V R)) : Prop :=
  ∀ {s t : Session V R} {refs refs' : List Nat}, s.LooksLike refs t refs' →
    ∀ {account result ended}, body refs s = .ok (account, result, ended) →
      ∃ account' ended', body refs' t = .ok (account', result, ended') ∧
        ended'.pos = ended.pos ∧ refs'.map ended'.cells.read = refs.map ended.cells.read

theorem dependsOnCells_setParams (sets : List (Nat × R)) (result : Option V) :
    DependsOnCells fun refs (s : Session V R) =>
      (.ok ((), result, s.setParams refs sets) : Except Empty _) := by
  intro s t refs refs' h account result' ended hbody
  obtain ⟨hresult, rfl⟩ : result = result' ∧ s.setParams refs sets = ended := by
    simpa using hbody
  have hset := h.setParams sets
  exact ⟨(), _, by rw [hresult], hset.pos, hset.values⟩

section

variable [BEq R] [ToString R] {refs refs' : List Nat}

/-- A call over some cells whose body ran is followed by one of the same slot over other cells, from
the same position of the same input, with the same values, and while what the first call left is
kept.  Whatever body it is that depends on nothing but the cursor and its cells, the second call
does not run it and leaves the parameters with the values that it would leave them with. -/
def ReplaysAsBody (V R : Type) [BEq R] [ToString R] (refs refs' : List Nat) : Prop :=
  ∀ {α ε : Type} (body : List Nat → Session V R → Except ε (α × Option V × Session V R)),
    DependsOnCells body → ∀ (slot : Nat) (s t : Session V R) {account result after},
      s.callCached slot refs (body refs) = .ok (some account, result, after) →
      t.input = s.input → t.pos = s.pos → refs'.map t.cells.read = refs.map s.cells.read →
      t.memo.find? (s.memoKey slot refs) = after.memo.find? (s.memoKey slot refs) →
      ∃ account' result' ended last, body refs' t = .ok (account', result', ended) ∧
        t.callCached slot refs' (body refs') = .ok (none, result, last) ∧
        refs'.map last.cells.read = refs'.map ended.cells.read

theorem replaysAsBody_of_sharedAlike [LawfulBEq R] (hshared : SharedAlike refs refs') :
    ReplaysAsBody V R refs refs' := by
  intro α ε body hbody slot s t account result after hcall hinput hpos hvalues hkept
  obtain ⟨mid, hran, hstored⟩ := Session.exists_of_callCached hcall
  have hlook : s.LooksLike refs t refs' := ⟨hinput, hpos, hvalues, hshared⟩
  obtain ⟨account', ended, hrun, -, hended⟩ := hbody hlook hran
  have hfind : t.memo.find? (t.memoKey slot refs') = some (s.entryOf mid refs result) := by
    rw [Session.memoKey_eq slot hpos hvalues, hkept, hstored]
  refine ⟨account', result, ended, _, hrun, Session.callCached_of_find? _ hfind, ?_⟩
  rw [hlook.values_replay, hended]

/-- If a call is answered by what is kept of a body that sets one parameter and another one back,
the first one has the value that the body would leave it with. -/
theorem ReplaysAsBody.setBack_eq [LawfulBEq R] (h : ReplaysAsBody V R refs refs')
    (hlength : refs.length = refs'.length) {a b : R} (hab : a ≠ b) {i j c c' : Nat}
    (hc : refs[i]? = some c) (hc' : refs'[i]? = some c') :
    (if refs[j]? = some c then b else a) =
      if refs'[i]? = some c' ∧ refs'[j]? ≠ some c' then a else b := by
  let body : List Nat → Session V R → Except Empty (Unit × Option V × Session V R) :=
    fun refs s => .ok ((), none, s.setParams refs [(i, a), (j, b)])
  let s : Session V R := ⟨[], 0, .empty, .empty, ⟨0, fun _ => b⟩⟩
  have hs : ∀ c, s.cells.read c = b := fun _ => rfl
  obtain ⟨after, hcall⟩ : ∃ after, s.callCached 0 refs (body refs) = .ok (some (), none, after) :=
    ⟨_, rfl⟩
  obtain ⟨mid, hran, hstored⟩ := Session.exists_of_callCached hcall
  obtain rfl : s.setParams refs [(i, a), (j, b)] = mid := by simpa [body] using hran
  -- before the second call all cells hold `b` again
  let t : Session V R := { s with memo := after.memo }
  have ht : ∀ c, t.cells.read c = b := fun _ => rfl
  have hvalues : refs'.map t.cells.read = refs.map s.cells.read := by
    simp only [t, s, List.map_const', hlength]
  have hfind : t.memo.find? (t.memoKey 0 refs') = _ :=
    (congrArg t.memo.find? (Session.memoKey_eq 0 rfl hvalues)).trans hstored
  obtain ⟨account', result', ended, last, hbody, hhit, hsame⟩ :=
    h body (dependsOnCells_setParams _ none) 0 s t hcall rfl rfl hvalues rfl
  rw [Session.callCached_of_find? _ hfind] at hhit
  obtain ⟨-, rfl⟩ : none = result' ∧ t.setParams refs' [(i, a), (j, b)] = ended := by
    simpa [body] using hbody
  obtain ⟨-, rfl⟩ : _ ∧ t.replay refs' _ = last := by simpa using hhit
  have hread := (map_eq_map_iff rfl).1 hsame i c' c' hc' hc'
  rwa [Session.read_replay_setBack hs ht hab hc hc', Session.read_setBack ht] at hread

/-- Bodies that set one parameter and another one back tell which parameters share a cell. -/
theorem sharedAlike_of_replaysAsBody [LawfulBEq R] [Nontrivial R]
    (hlength : refs.length = refs'.length) (h : ReplaysAsBody V R refs refs') :
    SharedAlike refs refs' := by
  intro i j
  by_cases hi : i < refs.length
  · obtain ⟨a, b, hab⟩ := exists_pair_ne R
    have hc := List.getElem?_eq_getElem hi
    have hc' := List.getElem?_eq_getElem (hlength ▸ hi : i < refs'.length)
    have hset := h.setBack_eq hlength hab (j := j) hc hc'
    have hiff : refs[j]? = some refs[i] ↔ refs'[j]? = some refs'[i] := by
      by_cases hj : refs[j]? = some refs[i] <;> by_cases hj' : refs'[j]? = some refs'[i]
      · exact iff_of_true hj hj'
      · rw [if_pos hj, if_pos ⟨hc', hj'⟩] at hset
        exact absurd hset.symm hab
      · rw [if_neg hj, if_neg fun hboth => hboth.2 hj'] at hset
        exact absurd hset hab
      · exact iff_of_false hj hj'
    rw [hc, hc', eq_comm, hiff, eq_comm]
  · have hle : refs.length ≤ i := Nat.le_of_not_lt hi
    have hle' : refs'.length ≤ i := hlength ▸ hle
    have hj : refs[j]? = none ↔ refs'[j]? = none := by
      rw [List.getElem?_eq_none_iff, List.getElem?_eq_none_iff, hlength]
    rw [List.getElem?_eq_none hle, List.getElem?_eq_none hle', eq_comm, hj, eq_comm]

/-- A call that is answered by what is kept of another one leaves its parameters as any body would
that depends on nothing but the cursor and its cells, if both share their cells alike, and only then
unless all values are equal.  Values have to compare equal if they are the same, and only then. -/
theorem replays_shared_cells (hequal : ∀ a b : R, (a == b) = true ↔ a = b) :
    (SharedAlike refs refs' → ReplaysAsBody V R refs refs') ∧
      (Nontrivial R → refs.length = refs'.length → ReplaysAsBody V R refs refs' →
        SharedAlike refs refs') := by
  have hlawful : LawfulBEq R := { eq_of_beq := (hequal _ _).1, rfl := (hequal _ _).2 rfl }
  exact ⟨replaysAsBody_of_sharedAlike, fun _ hlength h => sharedAlike_of_replaysAsBody hlength h⟩

end

namespace SharingWitness

/-- A body that sets its first parameter. -/
def body (refs : List Nat) (s : Session String Nat) :
    Except Empty (Unit × Option String × Session String Nat) :=
  .ok ((), some "r", s.setParams refs [(0, 5)])

/-- What is kept of the body when both parameters were given one cell sets both parameters of a call
over two cells, where the body sets the first one. -/
theorem not_replaysAsBody_shared : ¬ ReplaysAsBody String Nat [0, 0] [1, 2] := by
  intro h
  let s : Session String Nat := .start ""
  let after := s.keep (s.setParams [0, 0] [(0, 5)]) 0 [0, 0] (some "r")
  have hran : s.callCached 0 [0, 0] (body [0, 0]) = .ok (some (), some "r", after) := rfl
  obtain ⟨account, result, ended, last, hbody, hhit, hsame⟩ :=
    h body (dependsOnCells_setParams _ _) 0 s after hran rfl rfl rfl rfl
  have hfind : after.memo.find? (after.memoKey 0 [1, 2]) =
      some ⟨0, some "r", [some 5, some 5]⟩ := by
    have hkey : after.memoKey 0 [1, 2] = s.memoKey 0 [0, 0] := Session.memoKey_eq 0 rfl rfl
    rw [hkey]
    exact (Memo.find?_store _ _ _ _).trans (if_pos rfl)
  cases hbody
  cases (Session.callCached_of_find? _ hfind).symm.trans hhit
  have hread : [5, 5] = [5, 0] := hsame
  exact absurd hread (by decide)

/-- Calls over three parameters of which the first and the last are given one cell. -/
theorem replays_shared_outer :
    SharedAlike [0, 1, 0] [2, 3, 2] ∧ ReplaysAsBody String Nat [0, 1, 0] [2, 3, 2] := by
  have hshared : SharedAlike [0, 1, 0] ([0, 1, 0].map (· + 2)) :=
    sharedAlike_map (fun _ _ => Nat.add_right_cancel) [0, 1, 0]
  exact ⟨hshared, (replays_shared_cells fun _ _ => beq_iff_eq).1 hshared⟩

end SharingWitness

end Packrat
