import Packrat.Analysis.AlwaysMatch
import Packrat.Proofs.Grammar.Unfold

/-!
# What a visit does to a pass

A visit changes a pass by noting the answers for the expressions that it comes to, and by what the
visits do that it leads to, to inner expressions one level down and to rules.  A relation that holds
over the former and the latter holds over the whole visit.  Main statements: this, for as many
levels as are left (`visit_relates`), and that the last thing a visit notes is its own answer
(`visit_notes`).
-/

namespace Packrat.AlwaysMatch

/-- A relation between a pass and a later one can be followed step by step, and allows answers to be
noted for some expressions, among which their inner expressions are. -/
structure Chains (g : Grammar) (among : Nat → Prop) (R : Pass → Pass → Prop) : Prop where
  refl : ∀ p, R p p
  trans : ∀ {p q s}, R p q → R q s → R p s
  note : ∀ p {id} answer, among id → R p (p.setExpr id answer)
  inner : ∀ {id n c}, among id → g.node? id = some n → c ∈ n.expr.children → among c

variable {g : Grammar} {among : Nat → Prop} {R : Pass → Pass → Prop}
  {defer : Tree → Pass → Bool × Pass} {enter : Nat → Pass → Bool × Pass}

theorem Chains.visitEach (h : Chains g among R) {is : List Nat} {tree : Nat → Tree}
    (hitems : ∀ i ∈ is, ∀ p, R p (visitWith defer enter (tree i) p).2) (p : Pass) :
    R p (visitEach defer enter (is.map tree) p).2 := by
  induction is generalizing p with
  | nil => exact h.refl p
  | cons i is ih =>
      have hfirst := hitems i List.mem_cons_self p
      have hrest := ih (fun j hj => hitems j (List.mem_cons_of_mem i hj))
      exact h.trans hfirst (hrest _)

/-- A relation holds over a visit if it holds over the visits that this leads to. -/
theorem Chains.visitWith (h : Chains g among R)
    (hdefer : ∀ i t, g.Unfolds i t → among i → ∀ p, R p (defer t p).2)
    (henter : ∀ r rule, g.rule? r = some rule → ∀ p, R p (enter r p).2) {id : Nat} {t : Tree}
    (ht : g.Unfolds id t) (hid : among id) (p : Pass) : R p (visitWith defer enter t p).2 := by
  induction ht generalizing p with
  | @leaf id l span hnode =>
      cases l with
      | ruleRef call target =>
          obtain ⟨rule, hrule⟩ := g.exists_rule_of_target hnode
          exact h.trans (henter target rule hrule p) (h.note _ _ hid)
      | _ => exact h.note _ _ hid
  | @wrap id i w span inner hnode hinner ih =>
      have hi := h.inner hid hnode List.mem_cons_self
      simp only [AlwaysMatch.visitWith]
      cases w.outcome with
      | same => exact h.trans (hdefer i inner hinner hi p) (h.note _ _ hid)
      | always | never => exact h.trans (ih hi p) (h.note _ _ hid)
  | @group id k is span tree hnode hitems ih =>
      have heach := h.visitEach (fun i hi => ih i hi (h.inner hid hnode hi)) p
      exact h.trans heach (h.note _ _ hid)

/-- A relation for each number of levels left holds over all visits if it holds where a rule is cut
off, and over the visit of a rule once it holds over that of its body. -/
theorem visit_relates {R : Nat → Pass → Pass → Prop}
    (hchains : ∀ levels, Chains g among (R levels))
    (hmore : ∀ levels p q, R levels p q → R (levels + 1) p q)
    (hcut : ∀ r rule, g.rule? r = some rule → ∀ p, R 0 p (AlwaysMatch.enter g.body 0 r p).2)
    (hbody : ∀ levels r rule, g.rule? r = some rule →
      (among rule.body → ∀ p, R levels p (visit g.body levels (g.body r) p).2) →
        ∀ p, R (levels + 1) p (AlwaysMatch.enter g.body (levels + 1) r p).2) (levels : Nat) :
    (∀ i t, g.Unfolds i t → among i → ∀ p, R levels p (visit g.body levels t p).2) ∧
      ∀ r rule, g.rule? r = some rule →
        ∀ p, R levels p (AlwaysMatch.enter g.body levels r p).2 := by
  induction levels with
  | zero =>
      refine ⟨fun i t ht hi => ?_, hcut⟩
      exact (hchains 0).visitWith (fun _ _ _ _ => (hchains 0).refl) hcut ht hi
  | succ levels ih =>
      have henter : ∀ r rule, g.rule? r = some rule →
          ∀ p, R (levels + 1) p (AlwaysMatch.enter g.body (levels + 1) r p).2 :=
        fun r rule hrule => hbody levels r rule hrule (ih.1 rule.body _ (g.unfolds_body hrule))
      refine ⟨fun i t ht hi => ?_, henter⟩
      refine (hchains (levels + 1)).visitWith ?_ henter ht hi
      exact fun j u hu hj p => hmore levels p _ (ih.1 j u hu hj p)

/-- A relation holds over visits of rules one after another if it holds over each of them. -/
theorem Chains.visitRules (h : Chains g among R) {rules : List Nat}
    (hrules : ∀ r ∈ rules, ∀ p, R p (AlwaysMatch.enter g.body (recursionLimit - 1) r p).2)
    (p : Pass) : R p (visitRules g.body rules p) := by
  induction rules generalizing p with
  | nil => exact h.refl p
  | cons r rules ih =>
      have hfirst := hrules r List.mem_cons_self p
      have hrest := ih (fun other hother => hrules other (List.mem_cons_of_mem r hother))
      exact h.trans hfirst (hrest _)

theorem visitWith_notes (t : Tree) (p : Pass) :
    (visitWith defer enter t p).2.exprs t.id = (visitWith defer enter t p).1 := by
  cases t with
  | leaf id l => cases l <;> simp [visitWith, Pass.setExpr, Tree.id]
  | wrap id w inner =>
      cases houtcome : w.outcome <;> simp [visitWith, houtcome, Pass.setExpr, Tree.id]
  | group id k items => simp [visitWith, Pass.setExpr, Tree.id]

/-- After a visit the answer that is noted for an expression is the one that the visit gave. -/
theorem visit_notes (body : Nat → Tree) (levels : Nat) (t : Tree) (p : Pass) :
    (visit body levels t p).2.exprs t.id = (visit body levels t p).1 := by
  cases levels with
  | zero => exact visitWith_notes t p
  | succ levels => exact visitWith_notes t p

end Packrat.AlwaysMatch
