import Packrat.Proofs.Analysis.Visits

/-!
# Rules and their bodies

A pass keeps the answers for rules apart from those for expressions.  A rule that is cut off gets an
answer without a look at its body, and the circle that it was met in may give it another one later.
Main statement: in the end a rule has the answer for its body, if the body is no part of anything
else (`rule_eq_expr_body`).
-/

namespace Packrat

/-- An expression is the body of one rule, of no other, and inside no expression. -/
structure Grammar.OwnBody (g : Grammar) (r id : Nat) : Prop where
  body : ∃ rule, g.rule? r = some rule ∧ rule.body = id
  unique : ∀ other rule, g.rule? other = some rule → rule.body = id → other = r
  not_inner : ∀ n ∈ g.exprs, id ∉ n.expr.children

namespace AlwaysMatch

variable {g : Grammar} {r id : Nat}

/-- The answer that is kept for a rule is noted for an expression.  As long as there is none, the
expression counts as one that may fail. -/
def Pass.Agrees (p : Pass) (r id : Nat) : Prop :=
  p.exprs id = (p.memo r).getD false

/-- What agrees before agrees later. -/
def StillAgrees (r id : Nat) (p later : Pass) : Prop :=
  p.Agrees r id → later.Agrees r id

/-- Answers for other expressions change nothing, and no other expression has the body inside it. -/
theorem chains_stillAgrees (hbody : g.OwnBody r id) : Chains g (· ≠ id) (StillAgrees r id) where
  refl := fun _ h => h
  trans := fun hfirst hrest h => hrest (hfirst h)
  note := by
    intro p other answer hother h
    simpa [Pass.Agrees, Pass.setExpr, hother.symm] using h
  inner := by
    intro other n c _ hnode hc hself
    exact hbody.not_inner n (List.mem_of_getElem? hnode) (hself ▸ hc)

/-- A visit of another rule changes nothing if the search for its answer does not. -/
theorem stillAgrees_memoize {find : Nat → Pass → Bool × Pass} {other : Nat} (hother : other ≠ r)
    (hfind : ∀ p, StillAgrees r id p (find other p).2) (p : Pass) :
    StillAgrees r id p (memoize find other p).2 := by
  intro h
  unfold memoize
  cases p.memo other with
  | some answer => exact h
  | none => simpa [Pass.Agrees, Pass.setRule, hother.symm] using hfind p h

/-- A visit of the rule itself leaves it with the answer for its body, whatever circles lead back to
it: either it is cut off where there is no answer yet, or the answer for the body is noted just
before it is kept. -/
theorem stillAgrees_enter_self (hbody : g.OwnBody r id) (levels : Nat) (p : Pass) :
    StillAgrees r id p (enter g.body levels r p).2 := by
  intro h
  unfold Pass.Agrees at h ⊢
  cases hmemo : p.memo r with
  | some answer => cases levels <;> simpa [enter, memoize, hmemo] using h
  | none =>
      cases levels with
      | zero => simpa [enter, memoize, hmemo, giveUp, Pass.setRule, Pass.cutOff] using h
      | succ levels =>
          obtain ⟨rule, hrule, rfl⟩ := hbody.body
          have hnoted := visit_notes g.body levels (g.body r) p
          rw [(g.unfolds_body hrule).id_eq] at hnoted
          simpa [enter, memoize, hmemo, Pass.setRule] using hnoted

theorem stillAgrees_enter (hbody : g.OwnBody r id) (levels : Nat) {other : Nat} {rule : Rule}
    (hrule : g.rule? other = some rule) (p : Pass) :
    StillAgrees r id p (enter g.body levels other p).2 := by
  refine (visit_relates (fun _ => chains_stillAgrees hbody) (fun _ _ _ h => h) ?_ ?_ levels).2
    other rule hrule p
  · intro other rule hrule
    by_cases hother : other = r
    · exact hother ▸ stillAgrees_enter_self hbody 0
    · exact stillAgrees_memoize hother fun _ h => h
  · intro levels other rule hrule hvisit
    by_cases hother : other = r
    · exact hother ▸ stillAgrees_enter_self hbody (levels + 1)
    · have hne : rule.body ≠ id := fun hsame => hother (hbody.unique other rule hrule hsame)
      exact stillAgrees_memoize hother (hvisit hne)

theorem Pass.Agrees.rule_eq_expr {p : Pass} (h : p.Agrees r id) :
    (ofPass p).rule r = (ofPass p).expr id := by
  have hexpr : (ofPass p).expr id = (p.memo r).getD false := h
  have hrule : (ofPass p).rule r = (p.memo r == some true) := rfl
  rw [hrule, hexpr]
  rcases p.memo r with _ | _ | _ <;> rfl

end AlwaysMatch

namespace Grammar

variable {g : Grammar} {r id : Nat}

theorem alwaysMatchPass_agrees (hbody : g.OwnBody r id) : g.alwaysMatchPass.Agrees r id := by
  refine (AlwaysMatch.chains_stillAgrees hbody).visitRules ?_ .empty rfl
  intro other hother
  obtain ⟨rule, hrule⟩ := g.exists_rule_of_mem_ruleIds hother
  exact AlwaysMatch.stillAgrees_enter hbody _ hrule

/-- A rule and its body get the same answer, whatever rules refer to each other and wherever visits
are cut off. -/
theorem rule_eq_expr_body (hbody : g.OwnBody r id) :
    g.alwaysMatch.rule r = g.alwaysMatch.expr id :=
  (alwaysMatchPass_agrees hbody).rule_eq_expr

end Grammar

namespace RuleBodyWitness

/-- Five rules that refer to the next one each, and an option as the sixth. -/
def exprs : List (Node Nat) :=
  (List.range 5).map (fun r => ⟨.leaf (.ruleRef ⟨"next", []⟩ (r + 1)), .unknown⟩) ++
    [⟨.leaf (.literal "x" false), .unknown⟩, ⟨.wrap .optional 5, .unknown⟩]

def grammar : Grammar where
  rules := ["A", "B", "C", "D", "E"].zipIdx.map (fun (name, body) => ⟨name, [], body, .unknown⟩) ++
    [⟨"F", [], 6, .unknown⟩]
  exprs := exprs
  start := [0]
  stream := []
  children_precede := by
    intro i n hn
    rcases i with _ | _ | _ | _ | _ | _ | _ | i <;> cases hn <;> simp [Expr.children]
  bodies_below := by unfold BodiesBelow; decide
  targets_below := by decide
  names_nodup := by decide
  entries_below := by decide

theorem ownBody_option : grammar.OwnBody 5 6 where
  body := ⟨_, rfl, rfl⟩
  unique := by
    intro other rule hrule hbody
    rcases other with _ | _ | _ | _ | _ | _ | other <;> cases hrule <;> simp_all
  not_inner := by decide

/-- No level is left for the option.  It counts as one that may fail, and so does its rule. -/
theorem rule_eq_expr_body_option :
    .cutoff 5 ∈ grammar.alwaysMatchPass.events ∧ grammar.OwnBody 5 6 ∧
      grammar.alwaysMatch.rule 5 = grammar.alwaysMatch.expr 6 ∧
      grammar.alwaysMatch.expr 6 = false :=
  ⟨by decide, ownBody_option, Grammar.rule_eq_expr_body ownBody_option, by decide⟩

end RuleBodyWitness

end Packrat
