import Packrat.Proofs.Analysis.Exact
import Packrat.Proofs.Analysis.Visits

/-!
# The story of the answers

The events of the always-match analysis tell each answer when it is kept.  A rule in a circle can be
entered again while its body is being visited, and then gets an answer more than once.  Main
statement: every rule has an answer told, the last one is the one that counts, and no rule has more
of them than the recursion has levels; a rule is cut off at most once, and then told to fail at once
(`answers_told`).
-/

namespace Packrat

/-- The answer that an event tells for a rule. -/
def AnalysisEvent.answer? (r : Nat) : AnalysisEvent → Option Bool
  | .alwaysMatch rule answer => if rule = r then some answer else none
  | _ => none

namespace AlwaysMatch

/-- The answers that have been told for a rule, in order. -/
def Pass.answers (p : Pass) (r : Nat) : List Bool :=
  p.events.filterMap (·.answer? r)

/-- The events of a pass agree with what it keeps, and account for every rule that was cut off. -/
structure Pass.Recounts (p : Pass) : Prop where
  latest : ∀ r, p.memo r = (p.answers r).getLast?
  followed : ∀ r before, before ++ [.cutoff r] <+: p.events →
    before ++ [.cutoff r, .alwaysMatch r false] <+: p.events
  cutoffs : ∀ r, p.events.count (.cutoff r) ≤ min 1 (p.answers r).length

/-- A pass goes on without another answer for a rule that has one, and with at most so many for any
other. -/
structure Pass.Continues (most : Nat) (p later : Pass) : Prop where
  recounts : later.Recounts
  settled : ∀ r, p.answers r ≠ [] → later.answers r = p.answers r
  fresh : ∀ r, p.answers r = [] → (later.answers r).length ≤ most

section

variable {g : Grammar} {p q s : Pass} {r other most : Nat}

@[simp] theorem answers_setExpr (p : Pass) (id : Nat) (answer : Bool) (r : Nat) :
    (p.setExpr id answer).answers r = p.answers r := rfl

@[simp] theorem answers_cutOff (p : Pass) (other r : Nat) :
    (p.cutOff other).answers r = p.answers r := by
  simp [Pass.answers, Pass.cutOff, AnalysisEvent.answer?]

theorem answers_setRule (p : Pass) (other : Nat) (answer : Bool) (r : Nat) :
    (p.setRule other answer).answers r =
      p.answers r ++ if other = r then [answer] else [] := by
  by_cases h : other = r <;> simp [Pass.answers, Pass.setRule, AnalysisEvent.answer?, h]

theorem count_cutoff_setRule (p : Pass) (other : Nat) (answer : Bool) (r : Nat) :
    (p.setRule other answer).events.count (.cutoff r) = p.events.count (.cutoff r) := by
  simp [Pass.setRule]

theorem count_cutoff_cutOff (p : Pass) (other r : Nat) :
    (p.cutOff other).events.count (.cutoff r) =
      p.events.count (.cutoff r) + if other = r then 1 else 0 := by
  simp [Pass.cutOff, List.count_singleton]

theorem recounts_empty : Pass.empty.Recounts where
  latest := fun _ => rfl
  followed := by
    intro r before h
    simp [Pass.empty] at h
  cutoffs := fun _ => by simp [Pass.empty]

/-- What is kept last for a rule is told last. -/
theorem latest_setRule (h : ∀ r, p.memo r = (p.answers r).getLast?) (other : Nat) (answer : Bool)
    (r : Nat) :
    (p.setRule other answer).memo r = ((p.setRule other answer).answers r).getLast? := by
  rw [answers_setRule]
  by_cases heq : other = r
  · simp [Pass.setRule, heq]
  · simp [Pass.setRule, heq, Ne.symm heq, h]

namespace Pass.Recounts

theorem memo_eq_none_iff (h : p.Recounts) : p.memo r = none ↔ p.answers r = [] := by
  rw [h.latest, List.getLast?_eq_none_iff]

theorem setRule (h : p.Recounts) (other : Nat) (answer : Bool) :
    (p.setRule other answer).Recounts where
  latest := latest_setRule h.latest other answer
  followed := by
    intro r before hbefore
    simp only [Pass.setRule, List.prefix_concat_iff] at hbefore ⊢
    rcases hbefore with heq | hprefix
    · simp at heq
    · exact Or.inr (h.followed r before hprefix)
  cutoffs := by
    intro r
    have hold := h.cutoffs r
    rw [count_cutoff_setRule, answers_setRule, List.length_append]
    omega

/-- A rule that has no answer can be cut off, if it is told to fail at once. -/
theorem setRule_cutOff (h : p.Recounts) (hnone : p.answers other = []) :
    ((p.cutOff other).setRule other false).Recounts where
  latest := latest_setRule (fun r => by rw [answers_cutOff]; exact h.latest r) other false
  followed := by
    intro r before hbefore
    have hevents : ((p.cutOff other).setRule other false).events =
        p.events ++ [.cutoff other] ++ [.alwaysMatch other false] := rfl
    rw [hevents, List.prefix_concat_iff, List.prefix_concat_iff] at hbefore
    rw [hevents]
    rcases hbefore with heq | heq | hprefix
    · obtain ⟨-, hlast⟩ := List.append_inj' heq rfl
      cases hlast
    · obtain ⟨rfl, hcut⟩ := List.append_inj' heq rfl
      obtain rfl : r = other := by simpa using hcut
      simp
    · have hold := h.followed r before hprefix
      exact hold.trans (by simp)
  cutoffs := by
    intro r
    have hold := h.cutoffs r
    rw [count_cutoff_setRule, count_cutoff_cutOff, answers_setRule, answers_cutOff,
      List.length_append]
    by_cases heq : other = r
    · have hlength : (p.answers r).length = 0 := by simp [← heq, hnone]
      simp only [if_pos heq, List.length_singleton]
      omega
    · simp only [if_neg heq, List.length_nil]
      omega

end Pass.Recounts

namespace Pass.Continues

theorem refl (h : p.Recounts) : p.Continues most p :=
  ⟨h, fun _ _ => rfl, fun _ hnone => by simp [hnone]⟩

theorem trans (hfirst : p.Continues most q) (hrest : q.Continues most s) : p.Continues most s where
  recounts := hrest.recounts
  settled := by
    intro r hsome
    have hsame := hfirst.settled r hsome
    rw [← hsame] at hsome
    exact (hrest.settled r hsome).trans hsame
  fresh := by
    intro r hnone
    by_cases hstill : q.answers r = []
    · exact hrest.fresh r hstill
    · rw [hrest.settled r hstill]
      exact hfirst.fresh r hnone

theorem mono {more : Nat} (h : p.Continues most q) (hle : most ≤ more) : p.Continues more q :=
  ⟨h.recounts, h.settled, fun r hnone => Nat.le_trans (h.fresh r hnone) hle⟩

/-- An answer that is kept for a rule without one at the start of its visit comes after those that
the visit led to. -/
theorem setRule (h : p.Continues most q) (hnone : p.answers other = []) (answer : Bool) :
    p.Continues (most + 1) (q.setRule other answer) where
  recounts := h.recounts.setRule other answer
  settled := by
    intro r hsome
    have hne : other ≠ r := fun heq => hsome (heq ▸ hnone)
    simp [answers_setRule, hne, h.settled r hsome]
  fresh := by
    intro r hr
    have hlength := h.fresh r hr
    rw [answers_setRule, List.length_append]
    split <;> simp <;> omega

theorem setRule_cutOff (h : p.Recounts) (hnone : p.answers other = []) :
    p.Continues 1 ((p.cutOff other).setRule other false) where
  recounts := h.setRule_cutOff hnone
  settled := by
    intro r hsome
    have hne : other ≠ r := fun heq => hsome (heq ▸ hnone)
    simp [answers_setRule, hne]
  fresh := by
    intro r hr
    rw [answers_setRule, answers_cutOff, hr]
    split <;> simp

end Pass.Continues

/-- Noting answers for expressions tells nothing. -/
theorem chains_continues (g : Grammar) (most : Nat) :
    Chains g (fun _ => True) fun p later => p.Recounts → p.Continues most later where
  refl := fun _ h => .refl h
  trans := fun hfirst hrest h => (hfirst h).trans (hrest (hfirst h).recounts)
  note := fun _ _ _ _ h =>
    ⟨⟨h.latest, h.followed, h.cutoffs⟩, fun _ _ => rfl, fun _ hnone => by simp [hnone]⟩
  inner := fun _ _ _ => trivial

/-- A visit of a rule gives no rule more answers than there are levels left, and one for being cut
off. -/
theorem enter_continues (levels : Nat) {rule : Rule} (hrule : g.rule? r = some rule) (p : Pass)
    (h : p.Recounts) : p.Continues (levels + 1) (enter g.body levels r p).2 := by
  refine (visit_relates (fun levels => chains_continues g (levels + 1))
    (fun _ _ _ hless h => (hless h).mono (Nat.le_succ _)) ?_ ?_ levels).2 r rule hrule p h
  · intro r rule _ p h
    cases hmemo : p.memo r with
    | some answer => simpa [enter, memoize, hmemo] using .refl h
    | none =>
        have hnone := h.memo_eq_none_iff.1 hmemo
        simpa [enter, memoize, hmemo, giveUp] using .setRule_cutOff h hnone
  · intro levels r rule _ hvisit p h
    cases hmemo : p.memo r with
    | some answer => simpa [enter, memoize, hmemo] using .refl h
    | none =>
        have hnone := h.memo_eq_none_iff.1 hmemo
        have hbody := hvisit trivial p h
        simpa [enter, memoize, hmemo] using hbody.setRule hnone _

/-- Visits of rules one after another give none of them more answers than there are levels. -/
theorem visitRules_continues {rules : List Nat}
    (hrules : ∀ r ∈ rules, ∃ rule, g.rule? r = some rule) (h : p.Recounts) :
    p.Continues recursionLimit (visitRules g.body rules p) := by
  refine (chains_continues g recursionLimit).visitRules ?_ p h
  intro r hr
  obtain ⟨rule, hrule⟩ := hrules r hr
  exact enter_continues (recursionLimit - 1) hrule

/-- They give each of them one. -/
theorem answers_visitRules_ne_nil {rules : List Nat}
    (hrules : ∀ r ∈ rules, ∃ rule, g.rule? r = some rule) (h : p.Recounts) (hr : r ∈ rules) :
    (visitRules g.body rules p).answers r ≠ [] := by
  induction rules generalizing p with
  | nil => simp at hr
  | cons other rules ih =>
      obtain ⟨rule, hrule⟩ := hrules other List.mem_cons_self
      have hlater := fun r hr => hrules r (List.mem_cons_of_mem other hr)
      have hfirst := enter_continues (recursionLimit - 1) hrule p h
      rcases List.mem_cons.1 hr with rfl | hr
      · have hsome : (enter g.body (recursionLimit - 1) r p).2.answers r ≠ [] := by
          rw [ne_eq, ← hfirst.recounts.memo_eq_none_iff, ← ne_eq, Option.ne_none_iff_isSome]
          exact isSome_memo_memoize ..
        have hsame := (visitRules_continues hlater hfirst.recounts).settled r hsome
        rw [visitRules, hsame]
        exact hsome
      · exact ih hlater hfirst.recounts hr

end

end AlwaysMatch

/-- Every rule has an answer told, and the last is the one that counts.  A rule that is cut off is
told to fail at once, and it is cut off at most once.  No rule has more answers told than the
recursion has levels. -/
theorem Grammar.answers_told (g : Grammar) :
    (∀ r rule, g.rule? r = some rule →
      (g.alwaysMatchPass.answers r).getLast? = some (g.alwaysMatch.rule r)) ∧
    (∀ r before, before ++ [.cutoff r] <+: g.alwaysMatchPass.events →
      before ++ [.cutoff r, .alwaysMatch r false] <+: g.alwaysMatchPass.events) ∧
    (∀ r, g.alwaysMatchPass.events.count (.cutoff r) ≤ 1) ∧
    ∀ r, (g.alwaysMatchPass.answers r).length ≤ AlwaysMatch.recursionLimit := by
  have hrules : ∀ r ∈ g.ruleIds, ∃ rule, g.rule? r = some rule :=
    fun _ => g.exists_rule_of_mem_ruleIds
  have hall := AlwaysMatch.visitRules_continues hrules AlwaysMatch.recounts_empty
  have hpass : g.alwaysMatchPass = AlwaysMatch.visitRules g.body g.ruleIds .empty := rfl
  rw [← hpass] at hall
  refine ⟨?_, hall.recounts.followed, ?_, ?_⟩
  · intro r rule hrule
    have hmem : r ∈ g.ruleIds := List.mem_range.2 (List.getElem?_eq_some_iff.1 hrule).1
    have hsome := AlwaysMatch.answers_visitRules_ne_nil hrules AlwaysMatch.recounts_empty hmem
    rw [← hpass, ne_eq, ← hall.recounts.memo_eq_none_iff, ← ne_eq,
      Option.ne_none_iff_exists'] at hsome
    obtain ⟨answer, hanswer⟩ := hsome
    have hfinal : g.alwaysMatch.rule r = (g.alwaysMatchPass.memo r == some true) := rfl
    rw [← hall.recounts.latest, hfinal, hanswer]
    cases answer <;> rfl
  · intro r
    exact Nat.le_trans (hall.recounts.cutoffs r) (Nat.min_le_left ..)
  · intro r
    exact hall.fresh r rfl

end Packrat
