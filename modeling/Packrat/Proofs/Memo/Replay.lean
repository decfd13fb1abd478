import Packrat.Parse.Value
import Packrat.Proofs.Memo.Cells
import Packrat.Proofs.Parse.Returns

/-!
# Replayed calls

What is kept of a call is replaced only while the call is under way, by calls with its key that are
made in its body.  Main statement: once a call has returned that was not made in the body of another
one with its key, every later call with the key repeats what was computed (`replayed_forever`).
-/

namespace Packrat

variable {V R : Type}

namespace Cells

/-- Restoring writes no cell for whose places nothing is kept. -/
theorem read_restore_of_none (cells : Cells R) {refs : List Nat} {deltas : List (Option R)}
    {cell : Nat} (h : ∀ i : Nat, refs[i]? = some cell → deltas[i]?.join = none) :
    (cells.restore refs deltas).read cell = cells.read cell := by
  fun_induction restore cells refs deltas with
  | case1 cells c refs value deltas ih =>
      have hne : cell ≠ c := by
        rintro rfl
        simpa using h 0 rfl
      rw [ih fun i hi => h (i + 1) hi, read_write_of_ne _ hne]
  | case2 cells c refs deltas ih => exact ih fun i hi => h (i + 1) hi
  | case3 => rfl

/-- A restored cell holds what is kept for the last of its places. -/
theorem read_restore_of_last (cells : Cells R) {refs : List Nat} {deltas : List (Option R)}
    {i cell : Nat} {value : R} (hcell : refs[i]? = some cell)
    (hvalue : deltas[i]?.join = some value)
    (hlast : ∀ j, i < j → refs[j]? = some cell → deltas[j]?.join = none) :
    (cells.restore refs deltas).read cell = value := by
  induction refs generalizing cells deltas i with
  | nil => simp at hcell
  | cons c refs ih =>
      cases deltas with
      | nil => simp at hvalue
      | cons delta deltas =>
          cases i with
          | zero =>
              obtain rfl : c = cell := by simpa using hcell
              obtain rfl : delta = some value := by simpa using hvalue
              rw [restore, read_restore_of_none _ fun j hj => hlast (j + 1) j.succ_pos hj,
                read_write_self]
          | succ i =>
              have hrest (cells : Cells R) : (cells.restore refs deltas).read cell = value :=
                ih cells hcell hvalue fun j hij hj => hlast (j + 1) (Nat.succ_lt_succ hij) hj
              cases delta with
              | none => exact hrest cells
              | some other => exact hrest (cells.write c other)

end Cells

namespace Returned

variable [BEq R]

/-- The final value of a parameter that a call changed. -/
def change? (call : Returned V R) (i : Nat) : Option R :=
  call.made.refs[i]?.bind fun cell =>
    let value := call.after.cells.read cell
    if value != call.made.before.cells.read cell then some value else none

/-- What is kept of a call whose body ran. -/
def entry (call : Returned V R) : MemoEntry V R :=
  call.made.before.entryOf call.after call.made.refs call.result

theorem join_deltas_entry (call : Returned V R) (i : Nat) :
    call.entry.deltas[i]?.join = call.change? i := by
  cases hcell : call.made.refs[i]? <;> simp [entry, Session.entryOf, change?, hcell]

variable [ToString R]

/-- A call repeats another one: without its body it has the same result, leaves the cursor at the
same position, and sets just the parameters that the other call changed to the values that they had
when it returned.  If a cell is given for several parameters, the last of them counts. -/
structure Repeats (again first : Returned V R) : Prop where
  ran : again.ran = false
  result : again.result = first.result
  pos : again.after.pos = first.after.pos
  set : ∀ {i cell value}, again.made.refs[i]? = some cell → first.change? i = some value →
    (∀ j, i < j → again.made.refs[j]? = some cell → first.change? j = none) →
    again.after.cells.read cell = value
  others : ∀ {cell}, (∀ i, again.made.refs[i]? = some cell → first.change? i = none) →
    again.after.cells.read cell = again.made.before.cells.read cell
  failure : again.after.failure = again.made.before.failure
  memo : again.after.memo = again.made.before.memo
  kept : again.after.memo.find? again.made.key = first.after.memo.find? first.made.key

/-- A call was answered by a kept result. -/
structure AnsweredBy (call : Returned V R) (entry : MemoEntry V R) : Prop where
  ran : call.ran = false
  found : call.made.before.memo.find? call.made.key = some entry
  result : call.result = entry.result
  after : call.after = call.made.before.replay call.made.refs entry

/-- A call ran its body, and what is kept of it is an entry. -/
structure Leaves (call : Returned V R) (key : MemoKey) (entry : MemoEntry V R) : Prop where
  ran : call.ran = true
  key_eq : call.made.key = key
  entry_eq : call.entry = entry
  kept : call.after.memo.find? key = some entry

/-- A call that is answered by what another one left repeats it. -/
theorem AnsweredBy.repeats {again first : Returned V R} {entry : MemoEntry V R}
    (h : again.AnsweredBy entry) (hfirst : first.Leaves again.made.key entry) :
    again.Repeats first := by
  obtain ⟨-, hkey, rfl, hkept⟩ := hfirst
  have hcells : again.after.cells =
      again.made.before.cells.restore again.made.refs first.entry.deltas := by
    rw [h.after]
    rfl
  have hmemo : again.after.memo = again.made.before.memo := by
    rw [h.after]
    rfl
  refine ⟨h.ran, h.result, ?_, ?_, ?_, ?_, hmemo, ?_⟩
  · rw [h.after]
    rfl
  · intro i cell value hcell hvalue hlast
    rw [hcells]
    refine Cells.read_restore_of_last _ hcell (by rw [join_deltas_entry, hvalue]) ?_
    intro j hij hj
    rw [join_deltas_entry, hlast j hij hj]
  · intro cell hnone
    rw [hcells]
    refine Cells.read_restore_of_none _ fun i hi => ?_
    rw [join_deltas_entry, hnone i hi]
  · rw [h.after]
    rfl
  · rw [hmemo, h.found, hkey, hkept]

/-- A call was not made in the body of another one with its key. -/
def Outermost (call : Returned V R) : Prop :=
  ∀ outer ∈ call.within, outer.key ≠ call.made.key

end Returned

section

variable [BEq R] [ToString R]

/-- What calls within others leave in place: what is kept when they begin, and what is kept of each
of them when it returns, unless it is made in the body of another one with its key. -/
structure Lasting (within : List (Invocation V R)) (s : Session V R) (calls : List (Returned V R))
    (last : Session V R) : Prop where
  enclosed : ∀ call ∈ calls, ∀ outer ∈ within, outer ∈ call.within
  stays : ∀ {key entry}, s.memo.find? key = some entry → last.memo.find? key = some entry
  answered : ∀ {key entry}, s.memo.find? key = some entry →
    ∀ call ∈ calls, call.made.key = key → call.AnsweredBy entry
  settled : ∀ call ∈ calls, call.Outermost → ∃ entry,
    call.after.memo.find? call.made.key = some entry ∧
      last.memo.find? call.made.key = some entry
  later : calls.Pairwise fun call again => call.Outermost → again.made.key = call.made.key →
    ∃ entry, call.after.memo.find? call.made.key = some entry ∧ again.AnsweredBy entry

theorem returnInvariant_lasting : ReturnInvariant (Lasting (V := V) (R := R)) where
  quiet := by
    intro within s after hmemo
    refine ⟨by simp, ?_, by simp, by simp, .nil⟩
    intro key entry hfind
    rw [hmemo, hfind]
  append := by
    intro within s after last first later hfirst hlater
    refine ⟨List.forall_mem_append.2 ⟨hfirst.enclosed, hlater.enclosed⟩,
      fun h => hlater.stays (hfirst.stays h), ?_, ?_,
      List.pairwise_append.2 ⟨hfirst.later, hlater.later, ?_⟩⟩
    · intro key entry h
      exact List.forall_mem_append.2 ⟨hfirst.answered h, hlater.answered (hfirst.stays h)⟩
    · refine List.forall_mem_append.2 ⟨?_, hlater.settled⟩
      intro call hcall houter
      obtain ⟨entry, hafter, hkept⟩ := hfirst.settled call hcall houter
      exact ⟨entry, hafter, hlater.stays hkept⟩
    · intro call hcall again hagain houter hkey
      obtain ⟨entry, hafter, hkept⟩ := hfirst.settled call hcall houter
      exact ⟨entry, hafter, hlater.answered hkept again hagain hkey⟩
  kept := by
    intro within slot refs inner s ended result hnone hinner
    have hother {key : MemoKey} (hkey : key ≠ s.memoKey slot refs) :
        (s.keep ended slot refs result).memo.find? key = ended.memo.find? key := by
      rw [Session.keep, Memo.find?_store, if_neg hkey]
    have hself : (s.keep ended slot refs result).memo.find? (s.memoKey slot refs) =
        some (s.entryOf ended refs result) := by
      rw [Session.keep, Memo.find?_store, if_pos rfl]
    -- a call in the body that is outermost has another key
    have hne : ∀ call ∈ inner, call.Outermost → s.memoKey slot refs ≠ call.made.key :=
      fun call hcall houter => houter _ (hinner.enclosed call hcall _ List.mem_cons_self)
    refine ⟨?_, ?_, ?_, ?_, List.pairwise_append.2 ⟨hinner.later, List.pairwise_singleton .., ?_⟩⟩
    · refine List.forall_mem_append.2 ⟨?_, List.forall_mem_singleton.2 fun outer h => h⟩
      exact fun call hcall outer h => hinner.enclosed call hcall outer (List.mem_cons_of_mem _ h)
    · intro key entry h
      rw [hother (by rintro rfl; simp [hnone] at h)]
      exact hinner.stays h
    · intro key entry h
      refine List.forall_mem_append.2 ⟨hinner.answered h, List.forall_mem_singleton.2 ?_⟩
      rintro rfl
      exact absurd (hnone.symm.trans h) (by simp)
    · refine List.forall_mem_append.2 ⟨?_, List.forall_mem_singleton.2 ?_⟩
      · intro call hcall houter
        obtain ⟨entry, hafter, hkept⟩ := hinner.settled call hcall houter
        exact ⟨entry, hafter, (hother (hne call hcall houter).symm).trans hkept⟩
      · exact fun _ => ⟨_, hself, hself⟩
    · intro call hcall again hagain houter hkey
      obtain rfl := List.mem_singleton.1 hagain
      exact absurd hkey (hne call hcall houter)
  replayed := by
    intro within slot refs entry s hfind
    have hanswered : Returned.AnsweredBy
        ⟨⟨slot, refs, s⟩, within, false, entry.result, s.replay refs entry⟩ entry :=
      ⟨rfl, hfind, rfl, rfl⟩
    refine ⟨List.forall_mem_singleton.2 fun outer h => h, fun h => h, ?_,
      List.forall_mem_singleton.2 fun _ => ⟨entry, hfind, hfind⟩, List.pairwise_singleton ..⟩
    intro key other h
    refine List.forall_mem_singleton.2 ?_
    rintro rfl
    obtain rfl : entry = other := Option.some.inj (hfind.symm.trans h)
    exact hanswered

/-- What is kept, and what calls are answered by, was left by earlier calls. -/
structure Backed (s : Session V R) (calls : List (Returned V R)) (last : Session V R) : Prop where
  ran : ∀ call ∈ calls, call.ran = true → call.Leaves call.made.key call.entry
  source : ∀ {key entry}, last.memo.find? key = some entry →
    s.memo.find? key = some entry ∨ ∃ origin ∈ calls, origin.Leaves key entry
  origin : ∀ {earlier call later}, calls = earlier ++ call :: later → call.ran = false →
    ∃ entry, call.AnsweredBy entry ∧ (s.memo.find? call.made.key = some entry ∨
      ∃ origin ∈ earlier, origin.Leaves call.made.key entry)

theorem returnInvariant_backed :
    ReturnInvariant fun _ (s : Session V R) calls last => Backed s calls last where
  quiet := by
    intro within s after hmemo
    refine ⟨by simp, ?_, ?_⟩
    · intro key entry hfind
      exact .inl (hmemo ▸ hfind)
    · intro earlier call later h
      simp at h
  append := by
    intro within s after last first later hfirst hlater
    have hsource {key entry} (hfind : after.memo.find? key = some entry)
        (more : List (Returned V R)) : s.memo.find? key = some entry ∨
          ∃ origin ∈ first ++ more, origin.Leaves key entry := by
      refine (hfirst.source hfind).imp_right ?_
      rintro ⟨origin, horigin, hleaves⟩
      exact ⟨origin, List.mem_append_left more horigin, hleaves⟩
    refine ⟨List.forall_mem_append.2 ⟨hfirst.ran, hlater.ran⟩, ?_, ?_⟩
    · intro key entry hfind
      rcases hlater.source hfind with hfind | ⟨origin, horigin, hleaves⟩
      · exact hsource hfind later
      · exact .inr ⟨origin, List.mem_append_right first horigin, hleaves⟩
    · intro earlier call rest h hran
      rcases eq_of_append_eq h with ⟨between, hbetween⟩ | ⟨between, rfl, hbetween⟩
      · exact hfirst.origin hbetween hran
      · obtain ⟨entry, hanswered, hfind | ⟨origin, horigin, hleaves⟩⟩ := hlater.origin hbetween hran
        · exact ⟨entry, hanswered, hsource hfind between⟩
        · exact ⟨entry, hanswered, .inr ⟨origin, List.mem_append_right first horigin, hleaves⟩⟩
  kept := by
    intro within slot refs inner s ended result hnone hinner
    have hself : (s.keep ended slot refs result).memo.find? (s.memoKey slot refs) =
        some (s.entryOf ended refs result) := by
      rw [Session.keep, Memo.find?_store, if_pos rfl]
    have hleaves : Returned.Leaves
        ⟨⟨slot, refs, s⟩, within, true, result, s.keep ended slot refs result⟩
        (s.memoKey slot refs) (s.entryOf ended refs result) :=
      ⟨rfl, rfl, rfl, hself⟩
    refine ⟨List.forall_mem_append.2 ⟨hinner.ran, List.forall_mem_singleton.2 fun _ => hleaves⟩,
      ?_, ?_⟩
    · intro key entry hfind
      by_cases hkey : key = s.memoKey slot refs
      · subst hkey
        obtain rfl : s.entryOf ended refs result = entry := Option.some.inj (hself.symm.trans hfind)
        exact .inr ⟨_, List.mem_append_right inner List.mem_cons_self, hleaves⟩
      · rw [Session.keep, Memo.find?_store, if_neg hkey] at hfind
        refine (hinner.source hfind).imp_right ?_
        rintro ⟨origin, horigin, hleft⟩
        exact ⟨origin, List.mem_append_left _ horigin, hleft⟩
    · intro earlier call rest h hran
      rcases eq_of_append_eq h with ⟨between, hbetween⟩ | ⟨between, -, hbetween⟩
      · exact hinner.origin hbetween hran
      · obtain ⟨-, rfl, -⟩ := eq_of_singleton_eq hbetween
        cases hran
  replayed := by
    intro within slot refs entry s hfind
    refine ⟨List.forall_mem_singleton.2 (fun h => by cases h), fun h => .inl h, ?_⟩
    intro earlier call rest h hran
    obtain ⟨-, rfl, -⟩ := eq_of_singleton_eq h
    exact ⟨entry, ⟨rfl, hfind, rfl, rfl⟩, .inl hfind⟩

end

namespace Operation

variable [BEq R] [ToString R] [Inhabited R]

/-- Once a call has returned that was not made in the body of another one with its key, all later
calls with its key repeat it if its body ran.  If it was answered itself, it repeats an earlier call
whose body ran, and they repeat that one. -/
theorem replayed_forever (text : String) {ops : List (Operation V R)} {trace : List (Moment V R)}
    {last : Session V R} (hrun : runAll (.start text) ops = .ok (trace, last))
    {earlier later : List (Returned V R)} {first : Returned V R}
    (hcalls : returnsAll [] (.start text) ops = earlier ++ first :: later)
    (houter : ∀ outer ∈ first.within, outer.key ≠ first.made.key) :
    (first.ran = true →
      ∀ again ∈ later, again.made.key = first.made.key → again.Repeats first) ∧
    (first.ran = false →
      ∃ origin ∈ earlier, origin.ran = true ∧ origin.made.key = first.made.key ∧
        first.Repeats origin ∧
        ∀ again ∈ later, again.made.key = first.made.key → again.Repeats origin) := by
  have hlasting := returnInvariant_lasting.runAll [] ops hrun
  have hbacked := returnInvariant_backed.runAll [] ops hrun
  rw [hcalls] at hlasting hbacked
  have hlater := (List.pairwise_cons.1 (List.pairwise_append.1 hlasting.later).2.1).1
  -- whatever the origin left when `first` returned answers all later calls
  have hagain {origin : Returned V R} {entry : MemoEntry V R}
      (horigin : origin.Leaves first.made.key entry)
      (hfirst : first.after.memo.find? first.made.key = some entry) :
      ∀ again ∈ later, again.made.key = first.made.key → again.Repeats origin := by
    intro again hmem hkey
    obtain ⟨answer, hafter, hanswered⟩ := hlater again hmem houter hkey
    obtain rfl : entry = answer := Option.some.inj (hfirst.symm.trans hafter)
    exact hanswered.repeats (hkey ▸ horigin)
  constructor
  · intro hran
    have hleaves := hbacked.ran first (by simp) hran
    exact hagain hleaves hleaves.kept
  · intro hran
    obtain ⟨entry, hanswered, hstart | ⟨origin, horigin, hleaves⟩⟩ := hbacked.origin rfl hran
    · cases hstart
    · have hfirst : first.after.memo.find? first.made.key = some entry := by
        rw [hanswered.after]
        exact hanswered.found
      exact ⟨origin, horigin, hleaves.ran, hleaves.key_eq, hanswered.repeats hleaves,
        hagain hleaves hfirst⟩

end Operation

namespace ReplayWitness

/-- The body of a call of slot 0 calls slot 0 again before anything has changed.  What is kept of
the inner call is replaced when the outer one returns. -/
def body : List (Operation String Value) :=
  [.call 0 [0] [.setCell 0 (.int 1), .exec (.any ⟨0⟩)] (some "inner"), .setCell 0 (.int 2)]

def course : List (Operation String Value) :=
  [.call 0 [0] body (some "outer"), .setPos 0, .setCell 0 default, .setCell 1 (.int 7),
    .call 0 [0] [.fail 3, .setCell 1 (.int 8)] none]

theorem repeats_outer :
    ∃ trace last inner outer again, Operation.runAll (.start "x") course = .ok (trace, last) ∧
      Operation.returnsAll [] (.start "x") course = [inner, outer, again] ∧
      outer.within = [] ∧ inner.made.key = outer.made.key ∧ again.made.key = outer.made.key ∧
      outer.ran = true ∧ outer.result = some "outer" ∧ again.Repeats outer := by
  obtain ⟨trace, last, inner, outer, again, hrun, hcalls, hwithin, hinner, hagain, hran, hresult⟩ :
      ∃ trace last inner outer again, Operation.runAll (.start "x") course = .ok (trace, last) ∧
        Operation.returnsAll [] (.start "x") course = [inner, outer, again] ∧
        outer.within = [] ∧ inner.made.key = outer.made.key ∧ again.made.key = outer.made.key ∧
        outer.ran = true ∧ outer.result = some "outer" :=
    ⟨_, _, _, _, _, rfl, rfl, rfl, rfl, rfl, rfl, rfl⟩
  have houter : ∀ other ∈ outer.within, other.key ≠ outer.made.key := by simp [hwithin]
  have hsplit : Operation.returnsAll [] (.start "x") course = [inner] ++ outer :: [again] := hcalls
  have hrepeats : again.Repeats outer :=
    (Operation.replayed_forever "x" hrun hsplit houter).1 hran again List.mem_cons_self hagain
  exact ⟨trace, last, inner, outer, again, hrun, hcalls, hwithin, hinner, hagain, hran, hresult,
    hrepeats⟩

/-- The first call puts a text in the place of a number that prints alike.  The second one finds the
text and the third one the number. -/
def answered : List (Operation String Value) :=
  [.setCell 0 (.int 1), .call 0 [0] [.setCell 0 (.text "1")] (some "r"), .call 0 [0] [] none,
    .setCell 0 (.int 1), .call 0 [0] [] none]

/-- A call need not repeat one that was answered itself: the second call changes nothing, and the
third one changes the cell. -/
theorem not_repeats_answered :
    ∃ trace last origin first again, Operation.runAll (.start "") answered = .ok (trace, last) ∧
      Operation.returnsAll [] (.start "") answered = [origin, first, again] ∧
      first.within = [] ∧ first.ran = false ∧ again.made.key = first.made.key ∧
      ¬ again.Repeats first := by
  obtain ⟨trace, last, origin, first, again, hrun, hcalls, hwithin, hran, hkey, hrefs, hfirst,
      hbefore, hafter⟩ :
      ∃ trace last origin first again, Operation.runAll (.start "") answered = .ok (trace, last) ∧
        Operation.returnsAll [] (.start "") answered = [origin, first, again] ∧
        first.within = [] ∧ first.ran = false ∧ again.made.key = first.made.key ∧
        again.made.refs = [0] ∧ first.change? 0 = none ∧
        again.made.before.cells.read 0 = .int 1 ∧ again.after.cells.read 0 = .text "1" :=
    ⟨_, _, _, _, _, rfl, rfl, rfl, rfl, rfl, rfl, rfl, rfl, rfl⟩
  refine ⟨trace, last, origin, first, again, hrun, hcalls, hwithin, hran, hkey, ?_⟩
  intro hrepeats
  have hsame : again.after.cells.read 0 = again.made.before.cells.read 0 := by
    apply hrepeats.others
    intro i hi
    obtain rfl : i = 0 := by
      rw [hrefs] at hi
      cases i with
      | zero => rfl
      | succ i => simp at hi
    exact hfirst
  rw [hbefore, hafter] at hsame
  cases hsame

end ReplayWitness

end Packrat
