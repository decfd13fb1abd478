import Mathlib.Data.List.Perm.Subperm
import Mathlib.Logic.Relation
import Packrat.Analysis.FailureReports
import Packrat.Proofs.Grammar.Unfold

/-!
# Failures and reachability

A rule passes failures on to the rules that it refers to in the open.  The marks that spread from
the entries of a grammar are on exactly the rules to which failures are passed on, through any
number of rules and whatever circles they form.  Main statement: `reports_iff_reached`.
-/

namespace Packrat

open Relation

theorem Tree.mem_observableAll {ts : List Tree} {ref : Reference} :
    ref ∈ Tree.observableAll ts ↔ ∃ t ∈ ts, ref ∈ t.observable := by
  induction ts with
  | nil => simp [Tree.observableAll]
  | cons t ts ih => simp [Tree.observableAll, ih]

namespace Grammar

/-- `c` is an inner expression of `id`, which masks no failure. -/
def Opens (g : Grammar) (id c : Nat) : Prop :=
  ∃ n, g.node? id = some n ∧
    n.expr.kind ∉ [.named, .simpleAnd, .simpleNot, .optional, .zeroOrMore] ∧ c ∈ n.expr.children

/-- Under an expression, without a masking expression in between, a reference leads to `target`. -/
def RefersTo (g : Grammar) (top target : Nat) : Prop :=
  ∃ id call span, ReflTransGen g.Opens top id ∧
    g.node? id = some ⟨.leaf (.ruleRef call target), span⟩

/-- A rule that may fail has a reference to `target` in the open. -/
def PassesOn (g : Grammar) (always : AlwaysMatch) (r target : Nat) : Prop :=
  always.rule r = false ∧ ∃ rule, g.rule? r = some rule ∧ g.RefersTo rule.body target

variable {g : Grammar}

theorem opens_iff {id c : Nat} {n : Node Nat} (hnode : g.node? id = some n) :
    g.Opens id c ↔
      n.expr.kind ∉ [.named, .simpleAnd, .simpleNot, .optional, .zeroOrMore] ∧
        c ∈ n.expr.children := by
  constructor
  · rintro ⟨m, hm, hkind, hc⟩
    obtain rfl : n = m := Option.some.inj (hnode.symm.trans hm)
    exact ⟨hkind, hc⟩
  · rintro ⟨hkind, hc⟩
    exact ⟨n, hnode, hkind, hc⟩

/-- Only an inner expression can have the references of an expression that is not one itself. -/
theorem refersTo_iff {id target : Nat} {n : Node Nat} (hnode : g.node? id = some n) :
    g.RefersTo id target ↔
      n.expr.target? = some target ∨ ∃ c, g.Opens id c ∧ g.RefersTo c target := by
  constructor
  · rintro ⟨ref, call, span, hpath, href⟩
    rcases hpath.cases_head with rfl | ⟨c, hopens, hrest⟩
    · obtain rfl := Option.some.inj (hnode.symm.trans href)
      exact Or.inl rfl
    · exact Or.inr ⟨c, hopens, ref, call, span, hrest, href⟩
  · rintro (htarget | ⟨c, hopens, ref, call, span, hpath, href⟩)
    · obtain ⟨expr, span⟩ := n
      cases expr with
      | leaf l =>
          cases l with
          | ruleRef call other =>
              obtain rfl : other = target := by
                simpa [Expr.target?, Leaf.target?] using htarget
              exact ⟨id, call, span, .refl, hnode⟩
          | literal | charClass | any | semanticAnd | semanticNot | parameterAnd | parameterNot
          | labeledParam => simp [Expr.target?, Leaf.target?] at htarget
      | wrap | group => simp [Expr.target?] at htarget
    · exact ⟨ref, call, span, .head hopens hpath, href⟩

theorem masksFailure_iff (w : Wrapper) :
    w.masksFailure = true ↔
      w.kind ∈ [.named, .simpleAnd, .simpleNot, .optional, .zeroOrMore] := by
  cases w <;> simp [Wrapper.masksFailure, Wrapper.kind]

/-- The references that are collected from a tree are those in the open. -/
theorem mem_observable_iff {id target : Nat} {t : Tree} (ht : g.Unfolds id t) :
    (∃ ref ∈ t.observable, ref.target = target) ↔ g.RefersTo id target := by
  induction ht with
  | @leaf id l span hnode =>
      rw [refersTo_iff hnode]
      have hclosed : ¬ ∃ c, g.Opens id c ∧ g.RefersTo c target := by
        simp [opens_iff hnode, Expr.children]
      cases l <;> simp [Tree.observable, Expr.target?, Leaf.target?, hclosed]
  | @wrap id i w span inner hnode hinner ih =>
      rw [refersTo_iff hnode, Tree.observable]
      by_cases hmask : w.masksFailure = true
      · have hkind := (masksFailure_iff w).1 hmask
        simp [hmask, opens_iff hnode, Expr.kind, hkind, Expr.target?]
      · have hkind := mt (masksFailure_iff w).2 hmask
        simp only [hmask, Bool.false_eq_true, if_false, ih, opens_iff hnode, Expr.kind,
          Expr.target?, Expr.children, List.mem_singleton, reduceCtorEq, false_or]
        constructor
        · exact fun h => ⟨i, ⟨hkind, rfl⟩, h⟩
        · rintro ⟨_, ⟨_, rfl⟩, h⟩
          exact h
  | @group id k is span tree hnode hitems ih =>
      rw [refersTo_iff hnode]
      have hkind : k.kind ∉ [.named, .simpleAnd, .simpleNot, .optional, .zeroOrMore] := by
        cases k <;> decide
      simp only [Tree.observable, Tree.mem_observableAll, opens_iff hnode, Expr.kind,
        Expr.target?, Expr.children, reduceCtorEq, false_or]
      constructor
      · rintro ⟨ref, ⟨t, ht, href⟩, rfl⟩
        obtain ⟨i, hi, rfl⟩ := List.mem_map.1 ht
        exact ⟨i, ⟨hkind, hi⟩, (ih i hi).1 ⟨ref, href, rfl⟩⟩
      · rintro ⟨i, ⟨_, hi⟩, hrefers⟩
        obtain ⟨ref, href, htarget⟩ := (ih i hi).2 hrefers
        exact ⟨ref, ⟨tree i, List.mem_map_of_mem hi, href⟩, htarget⟩

theorem mem_references_iff {r target : Nat} {rule : Rule} (hrule : g.rule? r = some rule) :
    (∃ ref ∈ g.references r, ref.target = target) ↔ g.RefersTo rule.body target := by
  rw [← mem_observable_iff (g.unfolds_body hrule)]
  simp [references]

end Grammar

namespace Spread

/-- What holds of the marks however far they have spread. -/
structure Inv (g : Grammar) (always : AlwaysMatch) (s : Spread) : Prop where
  nodup : s.marked.Nodup
  below : ∀ r ∈ s.marked, r < g.rules.length
  reached : ∀ r ∈ s.marked, ∃ e ∈ g.entries, ReflTransGen (g.PassesOn always) e r
  entered : ∀ e ∈ g.entries, e ∈ s.marked
  followed : ∀ r ∈ s.closed, ∀ target, g.PassesOn always r target → target ∈ s.marked

section

variable {α : Type} (rule : α → Nat) (reason : α → AnalysisEvent)

@[simp] theorem closed_mark (s : Spread) (r : Nat) (why : AnalysisEvent) :
    (s.mark r why).closed = s.closed := by
  unfold mark
  split <;> rfl

theorem mem_marked_mark {s : Spread} {r : Nat} {why : AnalysisEvent} {other : Nat} :
    other ∈ (s.mark r why).marked ↔ other ∈ s.marked ∨ other = r := by
  unfold mark
  by_cases hr : r ∈ s.marked
  · rw [if_pos hr]
    refine ⟨Or.inl, ?_⟩
    rintro (h | rfl)
    · exact h
    · exact hr
  · rw [if_neg hr]
    simp [marked, or_assoc]

theorem nodup_mark {s : Spread} (h : s.marked.Nodup) (r : Nat) (why : AnalysisEvent) :
    (s.mark r why).marked.Nodup := by
  unfold mark
  by_cases hr : r ∈ s.marked
  · rwa [if_pos hr]
  · rw [if_neg hr]
    have happend : s.closed ++ (s.waiting ++ [r]) = s.marked ++ [r] := by simp [marked]
    simp only [marked, happend]
    refine List.nodup_append.2 ⟨h, by simp, ?_⟩
    intro a ha b hb hab
    obtain rfl := List.mem_singleton.1 hb
    exact hr (hab ▸ ha)

/-- Marks are set one after another, for the entries as for the references of a rule. -/
theorem marks_spec (items : List α) (s : Spread) (h : s.marked.Nodup) :
    let after := items.foldl (fun s a => s.mark (rule a) (reason a)) s
    after.closed = s.closed ∧ after.marked.Nodup ∧
      ∀ r, r ∈ after.marked ↔ r ∈ s.marked ∨ ∃ a ∈ items, rule a = r := by
  induction items generalizing s with
  | nil => simpa using h
  | cons a items ih =>
      obtain ⟨hclosed, hnodup, hmem⟩ := ih (s.mark (rule a) (reason a)) (nodup_mark h _ _)
      refine ⟨hclosed.trans (closed_mark ..), hnodup, fun r => ?_⟩
      rw [List.foldl_cons, hmem, mem_marked_mark, List.exists_mem_cons_iff, or_assoc, eq_comm]

end

section

variable {g : Grammar} {always : AlwaysMatch}

theorem inv_seed (g : Grammar) (always : AlwaysMatch) : Inv g always (seed g.entries) := by
  obtain ⟨hclosed, hnodup, hmem⟩ :=
    marks_spec (fun r => r) .seed g.entries empty (by simp [marked, empty])
  have hmarked : ∀ r, r ∈ (seed g.entries).marked ↔ r ∈ g.entries := by
    intro r
    rw [seed, hmem]
    simp [marked, empty]
  exact {
    nodup := hnodup
    below := fun r hr => g.entries_below r ((hmarked r).1 hr)
    reached := fun r hr => ⟨r, (hmarked r).1 hr, .refl⟩
    entered := fun e he => (hmarked e).2 he
    followed := by
      intro r hr
      rw [seed, hclosed] at hr
      simp [empty] at hr }

/-- One step closes the first rule that waits and marks what it passes failures on to. -/
theorem step_cons (always : AlwaysMatch) {s : Spread} {r : Nat} {rest : List Nat}
    (hwaiting : s.waiting = r :: rest) (hnodup : s.marked.Nodup) {body : Rule}
    (hbody : g.rule? r = some body) :
    (s.step g always).closed = s.closed ++ [r] ∧ (s.step g always).marked.Nodup ∧
      ∀ other, other ∈ (s.step g always).marked ↔
        other ∈ s.marked ∨ g.PassesOn always r other := by
  have hsame : s.closed ++ [r] ++ rest = s.marked := by simp [marked, hwaiting]
  simp only [step, hwaiting]
  by_cases halways : always.rule r = true
  · have hnone : ∀ other, ¬ g.PassesOn always r other := by
      rintro other ⟨hmay, _⟩
      simp [halways] at hmay
    simp only [halways, if_true, marked, hsame, hnone, or_false]
    exact ⟨trivial, hnodup, fun _ => trivial⟩
  · rw [if_neg halways, follow]
    -- the rule is closed before its references are marked, so it cannot be marked again
    obtain ⟨hclosed, hafter, hmem⟩ := marks_spec (fun ref : Reference => ref.target)
      (fun ref => .reports ref.target r (g.exprSpan ref.via)) (g.references r)
      { s with closed := s.closed ++ [r], waiting := rest } (by simpa only [marked, hsame])
    refine ⟨hclosed, hafter, fun other => ?_⟩
    rw [hmem, Grammar.mem_references_iff hbody]
    simp only [marked, hsame]
    simp [Grammar.PassesOn, hbody, halways]

theorem Inv.step {s : Spread} (h : Inv g always s) : Inv g always (s.step g always) := by
  cases hwaiting : s.waiting with
  | nil => simpa [Spread.step, hwaiting] using h
  | cons r rest =>
      have hr : r ∈ s.marked := by simp [marked, hwaiting]
      have hlt := h.below r hr
      obtain ⟨hclosed, hnodup, hmem⟩ := step_cons always hwaiting h.nodup
        (List.getElem?_eq_getElem hlt)
      exact {
        nodup := hnodup
        below := by
          intro other hother
          rcases (hmem other).1 hother with hold | ⟨_, rule, _, hrefers⟩
          · exact h.below other hold
          · obtain ⟨_, _, _, _, hnode⟩ := hrefers
            obtain ⟨target, htarget⟩ := g.exists_rule_of_target hnode
            exact (List.getElem?_eq_some_iff.1 htarget).1
        reached := by
          intro other hother
          rcases (hmem other).1 hother with hold | hpasses
          · exact h.reached other hold
          -- a path to the rule that is taken goes on to what it marks
          · obtain ⟨e, he, hpath⟩ := h.reached r hr
            exact ⟨e, he, hpath.tail hpasses⟩
        entered := fun e he => (hmem e).2 (Or.inl (h.entered e he))
        followed := by
          intro closed hc target hpasses
          rw [hclosed, List.mem_append, List.mem_singleton] at hc
          rcases hc with hc | rfl
          · exact (hmem target).2 (Or.inl (h.followed closed hc target hpasses))
          · exact (hmem target).2 (Or.inr hpasses) }

theorem Inv.run {s : Spread} (h : Inv g always s) (rounds : Nat) :
    Inv g always (run g always rounds s) := by
  induction rounds generalizing s with
  | zero => exact h
  | succ rounds ih => exact ih h.step

theorem run_of_waiting_nil {s : Spread} (h : s.waiting = []) (rounds : Nat) :
    run g always rounds s = s := by
  induction rounds with
  | zero => rfl
  | succ rounds ih =>
      have hidle : s.step g always = s := by simp [Spread.step, h]
      rw [run, hidle, ih]

/-- Every round closes a rule as long as one waits. -/
theorem closed_run {s : Spread} (h : Inv g always s) (rounds : Nat) :
    (run g always rounds s).waiting = [] ∨
      s.closed.length + rounds ≤ (run g always rounds s).closed.length := by
  induction rounds generalizing s with
  | zero => exact Or.inr (Nat.le_refl _)
  | succ rounds ih =>
      cases hwaiting : s.waiting with
      | nil =>
          left
          rw [run_of_waiting_nil hwaiting, hwaiting]
      | cons r rest =>
          have hlt := h.below r (by simp [marked, hwaiting])
          obtain ⟨hclosed, -, -⟩ := step_cons always hwaiting h.nodup
            (List.getElem?_eq_getElem hlt)
          rcases ih h.step with hdone | hmore
          · exact Or.inl hdone
          · right
            rw [hclosed, List.length_append, List.length_singleton] at hmore
            simp only [Spread.run]
            omega

/-- As many rounds as there are rules leave no rule that waits. -/
theorem waiting_run {s : Spread} (h : Inv g always s) :
    (run g always g.rules.length s).waiting = [] := by
  rcases closed_run h g.rules.length with hdone | hmore
  · exact hdone
  · have hinv := h.run g.rules.length
    -- marked rules are distinct, so there are no more of them than rules
    have hbound : (run g always g.rules.length s).marked.length ≤ g.rules.length := by
      have hsub : (run g always g.rules.length s).marked ⊆ List.range g.rules.length :=
        fun r hr => List.mem_range.2 (hinv.below r hr)
      simpa using (hinv.nodup.subperm hsub).length_le
    rw [marked, List.length_append] at hbound
    exact List.eq_nil_of_length_eq_zero (by omega)

end

end Spread

/-- A rule reports failures exactly if they are passed on to it from an entry. -/
theorem Grammar.reports_iff_reached (g : Grammar) (always : AlwaysMatch) (target : Nat) :
    (g.failureReports always).rule target = true ↔
      ∃ e ∈ g.start ++ g.stream, ReflTransGen (g.PassesOn always) e target := by
  have hinv := (Spread.inv_seed g always).run g.rules.length
  have hdone := Spread.waiting_run (Spread.inv_seed g always)
  unfold failureReports failureSpread
  rw [decide_eq_true_iff]
  constructor
  · exact hinv.reached target
  · rintro ⟨e, he, hpath⟩
    induction hpath with
    | refl => exact hinv.entered e he
    | tail _ hpasses ih =>
        rw [Spread.marked, hdone, List.append_nil] at ih
        exact hinv.followed _ ih _ hpasses

end Packrat
