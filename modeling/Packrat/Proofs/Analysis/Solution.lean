import Packrat.Proofs.Analysis.Consistent
import Packrat.Proofs.Analysis.Visits
import Packrat.Proofs.Grammar.Redeclare

/-!
# The solution of the table of kinds

The table of kinds says what the answer for an expression is, given the answers for its parts and
for the rules.  Where no path into a grammar spends all levels, no path follows a circle, so the
table has one solution only.  Main statement: the analysis finds it, and finds the same in whatever
order the rules are declared (`alwaysMatch_unique_solution`).
-/

namespace Packrat

open Relation

/-- What the table of kinds says of an expression. -/
def AlwaysMatch.byKind (answers : AlwaysMatch) : Expr Nat → Bool
  | .leaf (.literal value _) => value == ""
  | .leaf (.charClass cls) => cls.parts.isEmpty && cls.inverted
  | .leaf .any => true
  | .leaf (.semanticAnd _) | .leaf (.semanticNot _) => false
  | .leaf (.parameterAnd _) | .leaf (.parameterNot _) | .leaf (.labeledParam _ _) => false
  | .leaf (.ruleRef _ target) => answers.rule target
  | .wrap .optional _ | .wrap .zeroOrMore _ | .wrap (.action _) _ => true
  | .wrap .oneOrMore _ => false
  | .wrap (.named _) i | .wrap (.labeled _) i | .wrap .picked i | .wrap .text i => answers.expr i
  | .wrap .simpleAnd i | .wrap .simpleNot i => answers.expr i
  | .group .sequence is => is.all answers.expr
  | .group .choice is => is.any answers.expr

namespace Grammar

/-- The answers for the rules and for all that is in their bodies are those of the table. -/
structure Solves (g : Grammar) (answers : AlwaysMatch) : Prop where
  expr : ∀ {id e span}, g.InBody id → g.node? id = some ⟨e, span⟩ →
    answers.expr id = answers.byKind e
  rule : ∀ {r rule}, g.rule? r = some rule → answers.rule r = answers.expr rule.body

variable {g g' : Grammar} {answers : AlwaysMatch}

/-- If the answers for the parts tell what is certain, so does that of the table. -/
theorem byKind_iff_certainBy {e : Expr Nat}
    (hrule : ∀ target, e.target? = some target →
      (answers.rule target = true ↔ g.CertainRule target))
    (hparts : ∀ i ∈ e.children, (answers.expr i = true ↔ g.Certain i)) :
    answers.byKind e = true ↔ g.CertainBy e := by
  cases e with
  | leaf l =>
      cases l with
      | ruleRef call target => exact hrule target rfl
      | literal value ignoreCase =>
          simp [AlwaysMatch.byKind, CertainBy, Leaf.alwaysMatches]
      | _ => simp [AlwaysMatch.byKind, CertainBy, Leaf.alwaysMatches]
  | wrap w i =>
      have hi := hparts i List.mem_cons_self
      cases w <;> simp [AlwaysMatch.byKind, CertainBy, Wrapper.outcome, hi]
  | group k is =>
      cases k with
      | sequence =>
          rw [AlwaysMatch.byKind, List.all_eq_true]
          exact forall₂_congr hparts
      | choice =>
          rw [AlwaysMatch.byKind, List.any_eq_true]
          exact exists_congr fun i => and_congr_right (hparts i)

theorem certainRule_iff {r : Nat} {rule : Rule} (hrule : g.rule? r = some rule) :
    g.CertainRule r ↔ g.Certain rule.body := by
  simp [CertainRule, hrule]

section Paths

variable {follow : Bool} {spent id : Nat}

theorem Spends.inBody (h : g.Spends follow spent id) : g.InBody id := by
  induction h with
  | enter hrule => exact inBody_of_rule hrule
  | wrap path hnode ih => exact ih.inner hnode List.mem_cons_self
  | item path hnode hi ih => exact ih.inner hnode hi
  | call hfollow path hnode hrule ih => exact inBody_of_rule hrule

theorem InBody.exists_spends (h : g.InBody id) : ∃ spent, g.Spends true spent id := by
  obtain ⟨r, rule, hrule, hpath⟩ := h
  induction hpath with
  | refl => exact ⟨1, .enter hrule⟩
  | tail _ hstep ih =>
      obtain ⟨spent, hspent⟩ := ih
      obtain ⟨⟨e, span⟩, hnode, hc⟩ := hstep
      cases e with
      | leaf l => simp [Expr.children] at hc
      | wrap w i =>
          obtain rfl := List.mem_singleton.1 hc
          exact ⟨_, hspent.wrap hnode⟩
      | group k is => exact ⟨_, hspent.item hnode hc⟩

/-- Paths lead through all grammars that have the same rules and expressions. -/
theorem Spends.redeclare (hsame : g.Redeclared g') (h : g.Spends follow spent id) :
    g'.Spends follow spent id := by
  induction h with
  | enter hrule =>
      obtain ⟨r', hrule'⟩ := hsame.rule hrule
      exact .enter hrule'
  | wrap path hnode ih =>
      obtain ⟨e', hnode', halike⟩ := hsame.node hnode
      cases halike
      exact ih.wrap hnode'
  | item path hnode hi ih =>
      obtain ⟨e', hnode', halike⟩ := hsame.node hnode
      cases halike
      exact ih.item hnode' hi
  | call hfollow path hnode hrule ih =>
      obtain ⟨e', hnode', halike⟩ := hsame.node hnode
      cases halike with
      | same hnone => simp [Expr.target?, Leaf.target?] at hnone
      | call htarget => exact .call hfollow ih hnode' (htarget.symm.trans hrule)

theorem InBody.redeclare (hsame : g.Redeclared g') (h : g.InBody id) : g'.InBody id := by
  obtain ⟨spent, hspent⟩ := h.exists_spends
  exact (hspent.redeclare hsame).inBody

end Paths

/-- Answers that solve the table tell what is certain wherever a path leads. -/
theorem Solves.expr_iff_certain (h : g.Solves answers) (hlimit : AlwaysMatch.WithinLimit g true)
    {levels spent id : Nat} {t : Tree} (hlevels : AlwaysMatch.recursionLimit ≤ spent + levels)
    (ht : g.Unfolds id t) (hspent : g.Spends true spent id) :
    answers.expr id = true ↔ g.Certain id := by
  induction levels generalizing spent id t with
  | zero =>
      have := hlimit _ _ hspent
      omega
  | succ levels ih =>
      -- within a body by the tree, and from rule to rule by the levels
      induction ht generalizing spent with
      | @leaf id l span hnode =>
          rw [h.expr hspent.inBody hnode, certain_iff hnode]
          refine byKind_iff_certainBy ?_ (by simp [Expr.children])
          intro target htarget
          cases l with
          | ruleRef call target' =>
              obtain rfl : target' = target := Option.some.inj htarget
              obtain ⟨rule, hrule⟩ := g.exists_rule_of_target hnode
              rw [h.rule hrule, certainRule_iff hrule]
              exact ih (by omega) (g.unfolds_body hrule) (.call rfl hspent hnode hrule)
          | _ => cases htarget
      | @wrap id i w span inner hnode hinner ihinner =>
          rw [h.expr hspent.inBody hnode, certain_iff hnode]
          refine byKind_iff_certainBy (fun _ htarget => by cases htarget) ?_
          intro c hc
          obtain rfl := List.mem_singleton.1 hc
          exact ihinner (by omega) (hspent.wrap hnode)
      | @group id k is span tree hnode hitems ihitems =>
          rw [h.expr hspent.inBody hnode, certain_iff hnode]
          refine byKind_iff_certainBy (fun _ htarget => by cases htarget) ?_
          intro c hc
          exact ihitems c hc hlevels (hspent.item hnode hc)

/-- Where no path spends all levels, the analysis solves the table. -/
theorem solves_alwaysMatch (hlimit : AlwaysMatch.WithinLimit g true) :
    g.Solves g.alwaysMatch where
  expr := by
    intro id e span hid hnode
    rw [Bool.eq_iff_iff, Grammar.expr_iff_certain hlimit hid, certain_iff hnode]
    refine (byKind_iff_certainBy ?_ ?_).symm
    · intro target htarget
      obtain ⟨rule, hrule⟩ : ∃ rule, g.rule? target = some rule := by
        have hlt := g.targets_below _ (List.mem_of_getElem? hnode) target htarget
        exact ⟨g.rules[target], List.getElem?_eq_getElem hlt⟩
      rw [(alwaysMatch_iff_certain hlimit hrule).1, certainRule_iff hrule]
    · intro i hi
      exact Grammar.expr_iff_certain hlimit (hid.inner hnode hi)
  rule := by
    intro r rule hrule
    rw [Bool.eq_iff_iff, (alwaysMatch_iff_certain hlimit hrule).1,
      Grammar.expr_iff_certain hlimit (inBody_of_rule hrule)]

/-- There is no other solution. -/
theorem Solves.expr_eq (h : g.Solves answers) (hlimit : AlwaysMatch.WithinLimit g true) {id : Nat}
    (hid : g.InBody id) : answers.expr id = g.alwaysMatch.expr id := by
  obtain ⟨spent, hspent⟩ := hid.exists_spends
  rw [Bool.eq_iff_iff, Grammar.expr_iff_certain hlimit hid]
  exact h.expr_iff_certain hlimit (Nat.le_add_left _ _) (g.unfolds_tree hid.lt) hspent

theorem Solves.rule_eq (h : g.Solves answers) (hlimit : AlwaysMatch.WithinLimit g true) {r : Nat}
    {rule : Rule} (hrule : g.rule? r = some rule) : answers.rule r = g.alwaysMatch.rule r := by
  rw [h.rule hrule, h.expr_eq hlimit (inBody_of_rule hrule), (solves_alwaysMatch hlimit).rule hrule]

end Grammar

namespace AlwaysMatch

variable {g : Grammar}

/-- Only expressions in the bodies of rules are noted to match. -/
def Pass.WithinBodies (g : Grammar) (p : Pass) : Prop :=
  ∀ id, p.exprs id = true → g.InBody id

/-- A visit keeps to the bodies of rules. -/
def StaysWithin (g : Grammar) (visit : Pass → Bool × Pass) : Prop :=
  ∀ p, p.WithinBodies g → (visit p).2.WithinBodies g

theorem Pass.WithinBodies.setExpr {p : Pass} (h : p.WithinBodies g) {id : Nat} (hid : g.InBody id)
    (answer : Bool) : (p.setExpr id answer).WithinBodies g := by
  intro other hother
  by_cases heq : other = id
  · exact heq ▸ hid
  · exact h other (by simpa [Pass.setExpr, heq] using hother)

/-- Steps that keep to the bodies of rules can be followed. -/
theorem chains_withinBodies (g : Grammar) :
    Chains g g.InBody fun p q => p.WithinBodies g → q.WithinBodies g where
  refl _ hp := hp
  trans hfirst hrest hp := hrest (hfirst hp)
  note _ _ answer hid hp := hp.setExpr hid answer
  inner hid hnode hc := hid.inner hnode hc

theorem memoize_staysWithin {find : Nat → Pass → Bool × Pass} {r : Nat}
    (hfind : StaysWithin g (find r)) : StaysWithin g (memoize find r) := by
  intro p hp
  unfold memoize
  cases p.memo r with
  | some answer => exact hp
  | none => exact hfind p hp

theorem enter_staysWithin (levels : Nat) {r : Nat} {rule : Rule} (hrule : g.rule? r = some rule) :
    StaysWithin g (enter g.body levels r) := by
  refine (visit_relates (fun _ => chains_withinBodies g) (fun _ _ _ h => h) ?_ ?_ levels).2 r rule
    hrule
  · intro r rule _
    exact memoize_staysWithin fun _ hp => hp
  · intro levels r rule hrule hbody
    exact memoize_staysWithin (hbody (Grammar.inBody_of_rule hrule))

theorem visitRules_staysWithin {rules : List Nat}
    (hrules : ∀ r ∈ rules, ∃ rule, g.rule? r = some rule) {p : Pass} (hp : p.WithinBodies g) :
    (visitRules g.body rules p).WithinBodies g := by
  refine (chains_withinBodies g).visitRules (fun r hr => ?_) p hp
  obtain ⟨rule, hrule⟩ := hrules r hr
  exact enter_staysWithin _ hrule

end AlwaysMatch

namespace Grammar

variable {g g' : Grammar} {answers : AlwaysMatch}

/-- The analysis marks nothing outside the bodies of rules. -/
theorem inBody_of_alwaysMatch {id : Nat} (h : g.alwaysMatch.expr id = true) : g.InBody id := by
  have hempty : AlwaysMatch.Pass.empty.WithinBodies g := by
    intro id h
    cases h
  exact AlwaysMatch.visitRules_staysWithin (fun _ => g.exists_rule_of_mem_ruleIds) hempty id h

/-- What solves the table of a grammar solves that of a grammar with the same rules and expressions,
when every rule gets the answer for its body. -/
theorem Solves.redeclare (h : g'.Solves answers) (hsame : g.Redeclared g') :
    g.Solves ⟨answers.expr, fun r => (g.rule? r).any fun rule => answers.expr rule.body⟩ where
  expr := by
    intro id e span hid hnode
    obtain ⟨e', hnode', halike⟩ := hsame.node hnode
    refine (h.expr (hid.redeclare hsame) hnode').trans ?_
    cases halike with
    | same hnone =>
        cases e with
        | leaf l =>
            cases l with
            | ruleRef call target => simp [Expr.target?, Leaf.target?] at hnone
            | _ => rfl
        | wrap w i => cases w <;> rfl
        | group k is => cases k <;> rfl
    | @call call target target' htarget =>
        obtain ⟨rule, hrule⟩ := g.exists_rule_of_target hnode
        simp [AlwaysMatch.byKind, hrule, h.rule (htarget.symm.trans hrule)]
  rule := by
    intro r rule hrule
    simp [hrule]

/-- The answers do not depend on the order in which rules are declared. -/
theorem alwaysMatch_redeclare (hlimit : AlwaysMatch.WithinLimit g true)
    (hthere : g.Redeclared g') (hback : g'.Redeclared g) :
    (∀ r r' rule, g.rule? r = some rule → g'.rule? r' = some rule →
      g'.alwaysMatch.rule r' = g.alwaysMatch.rule r) ∧
    ∀ id, g'.alwaysMatch.expr id = g.alwaysMatch.expr id := by
  have hlimit' : AlwaysMatch.WithinLimit g' true :=
    fun spent id hspent => hlimit spent id (hspent.redeclare hback)
  have hsolves' := solves_alwaysMatch hlimit'
  have hbody : ∀ id, g.InBody id → g'.alwaysMatch.expr id = g.alwaysMatch.expr id :=
    fun id hid => (hsolves'.redeclare hthere).expr_eq hlimit hid
  refine ⟨?_, ?_⟩
  · intro r r' rule hrule hrule'
    rw [hsolves'.rule hrule', (solves_alwaysMatch hlimit).rule hrule]
    exact hbody rule.body (inBody_of_rule hrule)
  · intro id
    by_cases hid : g.InBody id
    · exact hbody id hid
    · have hno : g.alwaysMatch.expr id = false := by
        simpa using mt inBody_of_alwaysMatch hid
      have hno' : g'.alwaysMatch.expr id = false := by
        simpa using mt inBody_of_alwaysMatch fun hid' => hid (hid'.redeclare hback)
      rw [hno, hno']

/-- Where no path spends all levels, the analysis gives the one solution of the table of kinds, for
rules as for all that is in their bodies.  Another order of the declarations changes nothing but the
numbers of the rules. -/
theorem alwaysMatch_unique_solution {g : Grammar} (hlimit : AlwaysMatch.WithinLimit g true) :
    g.Solves g.alwaysMatch ∧
      (∀ answers, g.Solves answers →
        (∀ r rule, g.rule? r = some rule → answers.rule r = g.alwaysMatch.rule r) ∧
          ∀ id, g.InBody id → answers.expr id = g.alwaysMatch.expr id) ∧
      ∀ d d' : Draft, d.complete = .ok g → d'.exprs = d.exprs → d'.entryNames = d.entryNames →
        d'.rules.Perm d.rules → ∃ g', d'.complete = .ok g' ∧
          (∀ r r' rule, g.rule? r = some rule → g'.rule? r' = some rule →
            g'.alwaysMatch.rule r' = g.alwaysMatch.rule r) ∧
          ∀ id, g'.alwaysMatch.expr id = g.alwaysMatch.expr id := by
  refine ⟨solves_alwaysMatch hlimit, ?_, ?_⟩
  · intro answers hsolves
    exact ⟨fun _ _ hrule => hsolves.rule_eq hlimit hrule, fun _ hid => hsolves.expr_eq hlimit hid⟩
  · intro d d' hd hexprs hentries hrules
    obtain ⟨g', hd'⟩ := Draft.exists_complete_of_perm hd hexprs hentries hrules
    exact ⟨g', hd', alwaysMatch_redeclare hlimit (Draft.redeclared_of_perm hd hd' hexprs hrules)
      (Draft.redeclared_of_perm hd' hd hexprs.symm hrules.symm)⟩

end Grammar

namespace SolutionWitness

/-- `S` is the text of `T`, and `T` is the labeled text of perhaps the letter. -/
def exprs : List (Node Unit) :=
  [⟨.leaf (.literal "x" false), .unknown⟩, ⟨.wrap .optional 0, .unknown⟩,
    ⟨.wrap .text 1, .unknown⟩, ⟨.wrap (.labeled "l") 2, .unknown⟩,
    ⟨.leaf (.ruleRef ⟨"T", []⟩ ()), .unknown⟩, ⟨.wrap .text 4, .unknown⟩]

def draft (rules : List Rule) (h : BodiesBelow rules exprs.length) : Draft where
  exprs := exprs
  rules := rules
  startNames := []
  streamNames := []
  children_precede := by
    intro i n hn
    rcases i with _ | _ | _ | _ | _ | _ | i <;> cases hn <;> simp [Expr.children]
  bodies_below := h

def ruleS : Rule := ⟨"S", [], 5, .unknown⟩

def ruleT : Rule := ⟨"T", [], 3, .unknown⟩

def forth : Draft :=
  draft [ruleS, ruleT] (by simp [BodiesBelow, exprs, ruleS, ruleT])

def back : Draft :=
  draft [ruleT, ruleS] (by simp [BodiesBelow, exprs, ruleS, ruleT])

/-- The levels that are spent on the way to an expression.  One more than to the letter would be all
of them. -/
def bound (id : Nat) : Nat :=
  [5, 5, 4, 3, 2, 1].getD id 0

theorem bound_lt_limit (id : Nat) : bound id < AlwaysMatch.recursionLimit := by
  rcases id with _ | _ | _ | _ | _ | _ | id <;> simp [bound, AlwaysMatch.recursionLimit]

theorem complete_forth : ∃ g, forth.complete = .ok g ∧ AlwaysMatch.WithinLimit g true :=
  ⟨_, rfl, AlwaysMatch.withinLimit_of_bound bound_lt_limit (by decide) (by decide)⟩

theorem alwaysMatch_forth_back :
    ∃ g g', forth.complete = .ok g ∧ back.complete = .ok g' ∧ AlwaysMatch.WithinLimit g true ∧
      g.Solves g.alwaysMatch ∧ g'.alwaysMatch.rule 1 = g.alwaysMatch.rule 0 ∧
      g'.alwaysMatch.rule 0 = g.alwaysMatch.rule 1 ∧
      ∀ id, g'.alwaysMatch.expr id = g.alwaysMatch.expr id := by
  obtain ⟨g, hforth, hlimit⟩ := complete_forth
  obtain ⟨hsolves, -, hsame⟩ := Grammar.alwaysMatch_unique_solution hlimit
  obtain ⟨g', hback, hrules, hexprs⟩ := hsame forth back hforth rfl rfl (.swap ..)
  have hrule {r : Nat} : g.rule? r = forth.rules[r]? := by
    rw [Grammar.rule?, (Draft.eq_of_complete hforth).2.2.2.1]
  have hrule' {r : Nat} : g'.rule? r = back.rules[r]? := by
    rw [Grammar.rule?, (Draft.eq_of_complete hback).2.2.2.1]
  exact ⟨g, g', hforth, hback, hlimit, hsolves, hrules 0 1 ruleS hrule hrule',
    hrules 1 0 ruleT hrule hrule', hexprs⟩

end SolutionWitness

end Packrat
