import Packrat.Proofs.Analysis.SelfReference

/-!
# Grammars whose rules refer to themselves at most

Rules are visited in the order of declaration, so when one is visited those before it have answers.
A grammar is straight if visits of the others run out of levels only on the circle of a rule that
refers to itself, and where that does no harm.  Main statements: the analysis of a straight grammar
marks what is certain (`alwaysMatch_iff_certain_of_straight`).  A grammar is straight if no path
into it spends all levels (`straight_of_withinLimit`), and also if its rules refer to themselves and
to earlier ones only (`straight_of_looksBack`).
-/

namespace Packrat

open Relation

namespace Grammar

variable {g : Grammar} {root r spent id : Nat}

/-- A visit of the rule `root` comes to an expression in the body of `r`, with some levels spent.
The rules before `root` have answers, and the way does not go round the circle of a rule that refers
to itself. -/
inductive Descends (g : Grammar) (root : Nat) : Nat → Nat → Nat → Prop where
  | enter {rule : Rule} (hrule : g.rule? root = some rule) : Descends g root root 1 rule.body
  | wrap {r spent id i : Nat} {w : Wrapper} {span : Span} (path : Descends g root r spent id)
      (hnode : g.node? id = some ⟨.wrap w i, span⟩) : Descends g root r (spent + w.cost) i
  | item {r spent id i : Nat} {k : Grouping} {is : List Nat} {span : Span}
      (path : Descends g root r spent id) (hnode : g.node? id = some ⟨.group k is, span⟩)
      (hi : i ∈ is) : Descends g root r spent i
  | call {r spent id target : Nat} {call : Call} {span : Span} {rule : Rule}
      (path : Descends g root r spent id)
      (hnode : g.node? id = some ⟨.leaf (.ruleRef call target), span⟩) (hroot : root ≤ target)
      (hother : target ≠ r) (hrule : g.rule? target = some rule) :
      Descends g root target (spent + 1) rule.body

/-- A reference to the rule itself is in its body. -/
def RefersToItself (g : Grammar) (r : Nat) : Prop :=
  ∃ rule, g.rule? r = some rule ∧ g.Mentions r rule.body

/-- Visits have levels left wherever they come first, and one more where a rule refers to itself.
Such a rule refers to no other rules than those that have answers by then, and visits of its body
may skip what its wrappers pass on. -/
structure Straight (g : Grammar) : Prop where
  spent_lt : ∀ root r spent id, g.Descends root r spent id → spent < AlwaysMatch.recursionLimit
  again_lt : ∀ root r spent id call span, g.Descends root r spent id →
    g.node? id = some ⟨.leaf (.ruleRef call r), span⟩ → spent + 1 < AlwaysMatch.recursionLimit
  settled : ∀ root r spent id call target span, g.Descends root r spent id → g.RefersToItself r →
    g.node? id = some ⟨.leaf (.ruleRef call target), span⟩ → target ≠ r → target < root
  skips : ∀ r rule, g.rule? r = some rule → g.Mentions r rule.body → g.CanSkip r rule.body

theorem Descends.within (h : g.Descends root r spent id) :
    ∃ rule, g.rule? r = some rule ∧ ReflTransGen g.Contains rule.body id := by
  induction h with
  | enter hrule => exact ⟨_, hrule, .refl⟩
  | wrap _ hnode ih =>
      obtain ⟨rule, hrule, hpath⟩ := ih
      exact ⟨rule, hrule, hpath.tail ⟨_, hnode, List.mem_cons_self⟩⟩
  | item _ hnode hi ih =>
      obtain ⟨rule, hrule, hpath⟩ := ih
      exact ⟨rule, hrule, hpath.tail ⟨_, hnode, hi⟩⟩
  | call _ _ _ _ hrule _ => exact ⟨_, hrule, .refl⟩

theorem Descends.exists_inner (h : g.Descends root r spent id) {j : Nat}
    (hj : ReflTransGen g.Contains id j) : ∃ spent', g.Descends root r spent' j := by
  induction hj with
  | refl => exact ⟨spent, h⟩
  | tail _ hstep ih =>
      obtain ⟨spent', hpath⟩ := ih
      obtain ⟨⟨expr, span⟩, hnode, hc⟩ := hstep
      cases expr with
      | leaf l => simp [Expr.children] at hc
      | wrap w i =>
          obtain rfl : _ = i := by simpa [Expr.children] using hc
          exact ⟨_, hpath.wrap hnode⟩
      | group k is => exact ⟨_, hpath.item hnode hc⟩

/-- A reference in a rule that does not refer to itself leads to one that has an answer, or further
down. -/
theorem Descends.call_cases (h : g.Descends root r spent id) (hplain : ¬ g.RefersToItself r)
    {call : Call} {target : Nat} {span : Span} {rule : Rule}
    (hnode : g.node? id = some ⟨.leaf (.ruleRef call target), span⟩)
    (hrule : g.rule? target = some rule) :
    target < root ∨ g.Descends root target (spent + 1) rule.body := by
  obtain ⟨rule', hrule', hwithin⟩ := h.within
  have hother : target ≠ r := fun heq =>
    hplain ⟨rule', hrule', id, call, span, hwithin, heq ▸ hnode⟩
  rcases Nat.lt_or_ge target root with hlt | hge
  · exact Or.inl hlt
  · exact Or.inr (h.call hnode hge hother hrule)

end Grammar

namespace AlwaysMatch

variable {g : Grammar} {root r : Nat}

theorem paths_descends (g : Grammar) (root r : Nat) : Paths g (g.Descends root r) :=
  ⟨fun path hnode => path.wrap hnode, fun path hnode hi => path.item hnode hi⟩

/-- A rule that has an answer is settled by it. -/
theorem exactVisit_of_lt (levels : Nat) {rule : Rule} (hrule : g.rule? r = some rule)
    (hsettled : r < root) : ExactVisit g root rule.body (enter g.body levels r) := by
  intro p hp
  obtain ⟨answer, hmemo⟩ := Option.isSome_iff_exists.1 (hp.kept r hsettled)
  rw [enter_of_kept levels hmemo]
  exact hp.settles hrule hmemo

theorem enter_exact (hg : g.Straight) {levels spent : Nat}
    (hlevels : spent + levels + 1 = recursionLimit) {rule : Rule} (hrule : g.rule? r = some rule)
    (hpath : g.Descends root r spent rule.body)
    (hvisit : ¬ g.RefersToItself r →
      ExactVisit g root rule.body (visit g.body levels (g.body r))) :
    ExactVisit g root rule.body (enter g.body (levels + 1) r) := by
  by_cases hself : g.RefersToItself r
  · have hmentions : g.Mentions r rule.body := by
      obtain ⟨rule', hrule', hmentions⟩ := hself
      obtain rfl : rule = rule' := Option.some.inj (hrule.symm.trans hrule')
      exact hmentions
    refine enter_self_exact (paths_descends g root r) (hg.spent_lt root r) (hg.again_lt root r)
      hrule (hg.skips r rule hrule hmentions) hlevels hpath ?_
    intro id call target span hid hnode hother
    obtain ⟨spent', hinner⟩ := hpath.exists_inner hid
    exact hg.settled root r spent' id call target span hinner hself hnode hother
  · let find := fun r => visit g.body levels (g.body r)
    have hfind : ExactVisit g root rule.body (find r) := hvisit hself
    exact memoize_exact hrule hfind

/-- A visit in the body of a rule that does not refer to itself is exact. -/
theorem visit_exact (hg : g.Straight) {levels spent : Nat}
    (hlevels : spent + levels + 1 = recursionLimit) (hplain : ¬ g.RefersToItself r) {id : Nat}
    {t : Tree} (ht : g.Unfolds id t) (hpath : g.Descends root r spent id) :
    ExactVisit g root id (visit g.body levels t) := by
  induction levels generalizing spent r id t with
  | zero =>
      refine visitWith_exact (paths_descends g root r) (fun i u _ hi => ?_) ?_ ht hpath
      · have hlt := hg.spent_lt _ _ _ _ hi
        omega
      · intro i call target span rule hi hnode hrule
        rcases hi.call_cases hplain hnode hrule with hsettled | hdown
        · exact exactVisit_of_lt 0 hrule hsettled
        · have hlt := hg.spent_lt _ _ _ _ hdown
          omega
  | succ levels ih =>
      have hlevels' : spent + 1 + levels + 1 = recursionLimit := by omega
      refine visitWith_exact (paths_descends g root r) (fun i u hu hi => ih hlevels' hplain hu hi)
        ?_ ht hpath
      intro i call target span rule hi hnode hrule
      rcases hi.call_cases hplain hnode hrule with hsettled | hdown
      · exact exactVisit_of_lt (levels + 1) hrule hsettled
      · exact enter_exact hg hlevels' hrule hdown fun hplain' =>
          ih hlevels' hplain' (g.unfolds_body hrule) hdown

/-- A visit of the next rule settles its body. -/
theorem enter_root_exact (hg : g.Straight) {rule : Rule} (hrule : g.rule? root = some rule) :
    ExactVisit g root rule.body (enter g.body (recursionLimit - 1) root) := by
  -- entering the rule spends the first level
  have hlevels : 1 + (recursionLimit - 2) + 1 = recursionLimit := rfl
  exact enter_exact hg hlevels hrule (.enter hrule) fun hplain =>
    visit_exact hg hlevels hplain (g.unfolds_body hrule) (.enter hrule)

/-- Visiting the rules in order settles the bodies of all of them. -/
theorem visitRules_exact (hg : g.Straight) {count : Nat} (hcount : root + count ≤ g.rules.length)
    {p : Pass} (hp : p.Exact g root) :
    (visitRules g.body (List.range' root count) p).Exact g (root + count) := by
  induction count generalizing root p with
  | zero => exact hp
  | succ count ih =>
      obtain ⟨rule, hrule⟩ : ∃ rule, g.rule? root = some rule :=
        ⟨_, List.getElem?_eq_getElem (by omega)⟩
      have hroot := enter_root_exact hg hrule p hp
      have hnext : (enter g.body (recursionLimit - 1) root p).2.Exact g (root + 1) := by
        refine ⟨hroot.exact.sound, fun r hr => ?_, hroot.exact.right⟩
        rcases Nat.lt_succ_iff_lt_or_eq.1 hr with hlt | rfl
        · exact hroot.exact.kept r hlt
        · exact isSome_memo_memoize ..
      rw [List.range'_succ, visitRules, show root + (count + 1) = root + 1 + count by omega]
      exact ih (by omega) hnext

end AlwaysMatch

namespace Grammar

variable {g : Grammar}

theorem alwaysMatchPass_exact (hg : g.Straight) : g.alwaysMatchPass.Exact g g.rules.length := by
  have hempty : AlwaysMatch.Pass.empty.Exact g 0 := by
    refine ⟨⟨by simp [AlwaysMatch.Pass.empty], by simp [AlwaysMatch.Pass.empty]⟩, by simp, ?_⟩
    intro r rule answer _ hkept
    cases hkept
  have hvisit := AlwaysMatch.visitRules_exact hg (Nat.le_of_eq (Nat.zero_add _)) hempty
  rw [Nat.zero_add, ← List.range_eq_range'] at hvisit
  exact hvisit

/-- The analysis of a straight grammar marks what is certain, both among the rules and among the
expressions of their bodies. -/
theorem alwaysMatch_iff_certain_of_straight (hg : g.Straight) {r : Nat} {rule : Rule}
    (hrule : g.rule? r = some rule) :
    (g.alwaysMatch.rule r = true ↔ g.Certain rule.body) ∧
      ∀ id, ReflTransGen g.Contains rule.body id →
        (g.alwaysMatch.expr id = true ↔ g.Certain id) := by
  have hexact := alwaysMatchPass_exact hg
  obtain ⟨answer, hanswer⟩ :=
    Option.isSome_iff_exists.1 (hexact.kept r (List.getElem?_eq_some_iff.1 hrule).1)
  obtain ⟨hright, htells⟩ := hexact.right r rule answer hrule hanswer
  refine ⟨?_, htells⟩
  have hrule' : g.alwaysMatch.rule r = (g.alwaysMatchPass.memo r == some true) := rfl
  rw [hrule', hanswer]
  simpa using hright

/-! ### Grammars without circles -/

theorem Descends.spends {root r spent id : Nat} (h : g.Descends root r spent id) :
    g.Spends true spent id := by
  induction h with
  | enter hrule => exact .enter hrule
  | wrap _ hnode ih => exact ih.wrap hnode
  | item _ hnode hi ih => exact ih.item hnode hi
  | call _ hnode _ _ hrule ih => exact .call rfl ih hnode hrule

theorem Spends.exists_inner {spent id : Nat} (h : g.Spends true spent id) {j : Nat}
    (hj : ReflTransGen g.Contains id j) : ∃ more, g.Spends true (spent + more) j := by
  induction hj with
  | refl => exact ⟨0, h⟩
  | tail _ hstep ih =>
      obtain ⟨more, hpath⟩ := ih
      obtain ⟨⟨expr, span⟩, hnode, hc⟩ := hstep
      cases expr with
      | leaf l => simp [Expr.children] at hc
      | wrap w i =>
          obtain rfl : _ = i := by simpa [Expr.children] using hc
          refine ⟨more + w.cost, ?_⟩
          rw [← Nat.add_assoc]
          exact hpath.wrap hnode
      | group k is => exact ⟨more, hpath.item hnode hc⟩

/-- A path goes round the circle of a rule that refers to itself as often as one likes. -/
theorem not_refersToItself (hlimit : AlwaysMatch.WithinLimit g true) (r : Nat) :
    ¬ g.RefersToItself r := by
  rintro ⟨rule, hrule, j, call, span, hwithin, hnode⟩
  have hround : ∀ n, ∃ spent, n ≤ spent ∧ g.Spends true spent rule.body := by
    intro n
    induction n with
    | zero => exact ⟨1, by omega, .enter hrule⟩
    | succ n ih =>
        obtain ⟨spent, hle, hpath⟩ := ih
        obtain ⟨more, hinner⟩ := hpath.exists_inner hwithin
        exact ⟨_, by omega, .call rfl hinner hnode hrule⟩
  obtain ⟨spent, hle, hpath⟩ := hround AlwaysMatch.recursionLimit
  exact absurd (hlimit spent _ hpath) (Nat.not_lt_of_le hle)

theorem straight_of_withinLimit (hlimit : AlwaysMatch.WithinLimit g true) : g.Straight where
  spent_lt := fun _ _ spent id h => hlimit spent id h.spends
  again_lt := by
    intro root r spent id call span h hnode
    obtain ⟨rule, hrule, -⟩ := h.within
    exact hlimit _ _ (.call rfl h.spends hnode hrule)
  settled := fun _ r _ _ _ _ _ _ hself _ _ => absurd hself (not_refersToItself hlimit r)
  skips := fun r rule hrule hself => absurd ⟨rule, hrule, hself⟩ (not_refersToItself hlimit r)

/-- Where no path into a grammar spends all levels, the analysis marks what is certain, both among
the rules and among the expressions of their bodies. -/
theorem alwaysMatch_iff_certain (hlimit : AlwaysMatch.WithinLimit g true) {r : Nat} {rule : Rule}
    (hrule : g.rule? r = some rule) :
    (g.alwaysMatch.rule r = true ↔ g.Certain rule.body) ∧
      ∀ id, ReflTransGen g.Contains rule.body id →
        (g.alwaysMatch.expr id = true ↔ g.Certain id) :=
  alwaysMatch_iff_certain_of_straight (straight_of_withinLimit hlimit) hrule

/-! ### Grammars that look back -/

/-- References lead to the rule that they are in or to earlier ones. -/
def LooksBack (g : Grammar) : Prop :=
  ∀ r rule id call target span, g.rule? r = some rule → ReflTransGen g.Contains rule.body id →
    g.node? id = some ⟨.leaf (.ruleRef call target), span⟩ → target ≤ r

theorem Descends.spends_alone (hback : g.LooksBack) {root r spent id : Nat}
    (h : g.Descends root r spent id) : r = root ∧ g.Spends false spent id := by
  induction h with
  | enter hrule => exact ⟨rfl, .enter hrule⟩
  | wrap _ hnode ih => exact ⟨ih.1, ih.2.wrap hnode⟩
  | item _ hnode hi ih => exact ⟨ih.1, ih.2.item hnode hi⟩
  | @call r spent id target call span rule path hnode hroot hother hrule ih =>
      obtain ⟨rule', hrule', hwithin⟩ := path.within
      have hle : target ≤ r := hback r rule' id call target span hrule' hwithin hnode
      obtain rfl := ih.1
      exact absurd (Nat.le_antisymm hle hroot) hother

/-- A grammar is straight if its rules refer to themselves and to earlier ones only, no body comes
near to spending all levels by itself, and where a rule refers to itself, its wrappers
do no harm. -/
theorem straight_of_looksBack (hback : g.LooksBack)
    (hlimit : ∀ spent id, g.Spends false spent id → spent + 1 < AlwaysMatch.recursionLimit)
    (hskips : ∀ r rule, g.rule? r = some rule → g.Mentions r rule.body → g.CanSkip r rule.body) :
    g.Straight where
  spent_lt := fun _ _ spent id h => Nat.lt_of_succ_lt (hlimit spent id (h.spends_alone hback).2)
  again_lt := fun _ _ spent id _ _ h _ => hlimit spent id (h.spends_alone hback).2
  settled := by
    intro root r spent id call target span h _ hnode hother
    obtain ⟨rule, hrule, hwithin⟩ := h.within
    have hle := hback r rule id call target span hrule hwithin hnode
    rw [← (h.spends_alone hback).1]
    exact Nat.lt_of_le_of_ne hle hother
  skips := hskips

end Grammar

end Packrat
