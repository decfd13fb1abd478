import Mathlib.Logic.Relation
import Packrat.Proofs.Analysis.Certain

/-!
# Exact visits

A path into a grammar spends a level for each rule that it enters and for each wrapper that passes
the answer of its inner expression on.  A visit is exact if every answer that it notes is right as
long as the answers are right that it finds.  Main statement: a visit of an expression is exact if
the visits that it leads to are, to inner expressions one level down and to rules
(`visitWith_exact`).
-/

namespace Packrat

open Relation

/-- The kinds of wrappers that pass the answer of their inner expression on. -/
def Kind.deferring : List Kind :=
  [.named, .labeled, .picked, .text, .simpleAnd, .simpleNot]

theorem Wrapper.outcome_eq_same_iff (w : Wrapper) :
    w.outcome = .same ↔ w.kind ∈ Kind.deferring := by
  cases w <;> simp [outcome, kind, Kind.deferring]

/-- The levels that are spent on the way from a wrapper to its inner expression. -/
def Wrapper.cost (w : Wrapper) : Nat :=
  if w.kind ∈ Kind.deferring then 1 else 0

theorem Wrapper.cost_of_same {w : Wrapper} (h : w.outcome = .same) : w.cost = 1 :=
  if_pos (w.outcome_eq_same_iff.1 h)

theorem Wrapper.cost_of_ne_same {w : Wrapper} (h : w.outcome ≠ .same) : w.cost = 0 :=
  if_neg fun hkind => h (w.outcome_eq_same_iff.2 hkind)

namespace Grammar

variable {g : Grammar}

/-- A path that starts with a rule spends some levels on the way to an expression.  It follows
references only if it is told to. -/
inductive Spends (g : Grammar) (follow : Bool) : Nat → Nat → Prop where
  | enter {r : Nat} {rule : Rule} (hrule : g.rule? r = some rule) : Spends g follow 1 rule.body
  | wrap {spent id i : Nat} {w : Wrapper} {span : Span} (path : Spends g follow spent id)
      (hnode : g.node? id = some ⟨.wrap w i, span⟩) : Spends g follow (spent + w.cost) i
  | item {spent id i : Nat} {k : Grouping} {is : List Nat} {span : Span}
      (path : Spends g follow spent id) (hnode : g.node? id = some ⟨.group k is, span⟩)
      (hi : i ∈ is) : Spends g follow spent i
  | call {spent id target : Nat} {call : Call} {span : Span} {rule : Rule} (hfollow : follow = true)
      (path : Spends g follow spent id)
      (hnode : g.node? id = some ⟨.leaf (.ruleRef call target), span⟩)
      (hrule : g.rule? target = some rule) : Spends g follow (spent + 1) rule.body

/-- What an expression passes on does not exceed a bound for each expression. -/
def keepsTo (g : Grammar) (follow : Bool) (bound : Nat → Nat) (spent : Nat) : Expr Nat → Bool
  | .leaf (.ruleRef _ target) =>
    !follow || (g.rule? target).all fun rule => spent + 1 ≤ bound rule.body
  | .leaf _ => true
  | .wrap w i => spent + w.cost ≤ bound i
  | .group _ is => is.all fun i => spent ≤ bound i

/-- Paths spend no more levels on the way to an expression than a bound says that starts at the
bodies and that every expression keeps to. -/
theorem Spends.le_bound {follow : Bool} {bound : Nat → Nat}
    (hbodies : ∀ rule ∈ g.rules, 1 ≤ bound rule.body)
    (hkeeps : ∀ id < g.exprs.length, ∀ n ∈ g.node? id,
      g.keepsTo follow bound (bound id) n.expr = true)
    {spent id : Nat} (h : g.Spends follow spent id) : spent ≤ bound id := by
  have hnodes {id : Nat} {n : Node Nat} (hnode : g.node? id = some n) :
      g.keepsTo follow bound (bound id) n.expr = true :=
    hkeeps id (List.getElem?_eq_some_iff.1 hnode).1 n hnode
  induction h with
  | enter hrule => exact hbodies _ (List.mem_of_getElem? hrule)
  | wrap path hnode ih =>
      have hkept := hnodes hnode
      simp only [keepsTo, decide_eq_true_eq] at hkept
      omega
  | item path hnode hi ih =>
      have hkept := hnodes hnode
      simp only [keepsTo, List.all_eq_true, decide_eq_true_eq] at hkept
      exact Nat.le_trans ih (hkept _ hi)
  | @call spent id target call span rule hfollow path hnode hrule ih =>
      have hkept : bound id + 1 ≤ bound rule.body := by
        simpa [keepsTo, hfollow, hrule] using hnodes hnode
      exact Nat.le_trans (Nat.succ_le_succ ih) hkept

/-- `c` is an inner expression of `id`. -/
def Contains (g : Grammar) (id c : Nat) : Prop :=
  ∃ n, g.node? id = some n ∧ c ∈ n.expr.children

/-- What makes an expression certain, told by what is certain of its parts. -/
def CertainBy (g : Grammar) : Expr Nat → Prop
  | .leaf (.ruleRef _ target) => g.CertainRule target
  | .leaf l => l.alwaysMatches = true
  | .wrap w i =>
    match w.outcome with
    | .same => g.Certain i
    | .always => True
    | .never => False
  | .group .sequence is => ∀ i ∈ is, g.Certain i
  | .group .choice is => ∃ i ∈ is, g.Certain i

theorem within_cons_iff {id j : Nat} {n : Node Nat} (hnode : g.node? id = some n) :
    ReflTransGen g.Contains id j ↔
      j = id ∨ ∃ c ∈ n.expr.children, ReflTransGen g.Contains c j := by
  constructor
  · intro h
    rcases h.cases_head with rfl | ⟨c, ⟨m, hm, hc⟩, hrest⟩
    · exact Or.inl rfl
    · obtain rfl : n = m := Option.some.inj (hnode.symm.trans hm)
      exact Or.inr ⟨c, hc, hrest⟩
  · rintro (rfl | ⟨c, hc, hrest⟩)
    · exact .refl
    · exact .head ⟨n, hnode, hc⟩ hrest

theorem certain_iff {id : Nat} {e : Expr Nat} {span : Span} (hnode : g.node? id = some ⟨e, span⟩) :
    g.Certain id ↔ g.CertainBy e := by
  constructor
  · intro h
    have hexpr {e' : Expr Nat} {span' : Span} (h' : g.node? id = some ⟨e', span'⟩) : e = e' :=
      (Node.mk.inj (Option.some.inj (hnode.symm.trans h'))).1
    cases h with
    | literal h' | charClass h' | any h' =>
        obtain rfl := hexpr h'
        rfl
    | optional h' | zeroOrMore h' | action h' =>
        obtain rfl := hexpr h'
        trivial
    | named h' hi | labeled h' hi | picked h' hi | text h' hi | simpleAnd h' hi | simpleNot h' hi =>
        obtain rfl := hexpr h'
        exact hi
    | sequence h' hall =>
        obtain rfl := hexpr h'
        exact hall
    | choice h' hi hany =>
        obtain rfl := hexpr h'
        exact ⟨_, hi, hany⟩
    | ruleRef h' hrule hbody =>
        obtain rfl := hexpr h'
        exact ⟨_, hrule, hbody⟩
  · intro h
    cases e with
    | leaf l =>
        cases l with
        | ruleRef call target =>
            obtain ⟨rule, hrule, hbody⟩ := h
            exact .ruleRef hnode hrule hbody
        | _ => exact AlwaysMatch.certain_of_leaf hnode h
    | wrap w i =>
        simp only [CertainBy] at h
        cases houtcome : w.outcome with
        | same => exact AlwaysMatch.certain_of_same hnode houtcome (by rwa [houtcome] at h)
        | always => exact AlwaysMatch.certain_of_always hnode houtcome
        | never => simp [houtcome] at h
    | group k is =>
        cases k with
        | sequence => exact .sequence hnode h
        | choice =>
            obtain ⟨i, hi, hany⟩ := h
            exact .choice hnode hi hany

end Grammar

namespace AlwaysMatch

variable {g : Grammar}

/-- A pass has the right answer for an expression. -/
def Pass.Tells (g : Grammar) (p : Pass) (id : Nat) : Prop :=
  p.exprs id = true ↔ g.Certain id

/-- The answers that a pass notes are certain.  It keeps an answer for each rule before `root`, and
where it keeps one, the answer is right, and so are those for the body of the rule and all within
it. -/
structure Pass.Exact (g : Grammar) (root : Nat) (p : Pass) : Prop where
  sound : p.Sound g
  kept : ∀ r < root, (p.memo r).isSome
  right : ∀ r rule answer, g.rule? r = some rule → p.memo r = some answer →
    (answer = true ↔ g.Certain rule.body) ∧
      ∀ j, ReflTransGen g.Contains rule.body j → p.Tells g j

/-- A pass goes on without loss of what it tells and keeps. -/
structure Pass.Extends (g : Grammar) (p later : Pass) : Prop where
  tells : ∀ j, p.Tells g j → later.Tells g j
  keeps : ∀ r, (p.memo r).isSome → (later.memo r).isSome

/-- What a visit of an expression leads to. -/
structure Settles (g : Grammar) (root id : Nat) (p : Pass) (result : Bool × Pass) : Prop where
  exact : result.2.Exact g root
  goes_on : p.Extends g result.2
  answer : result.1 = true ↔ g.Certain id
  tells : ∀ j, ReflTransGen g.Contains id j → result.2.Tells g j

/-- A visit of an expression settles it. -/
def ExactVisit (g : Grammar) (root id : Nat) (visit : Pass → Bool × Pass) : Prop :=
  ∀ p, p.Exact g root → Settles g root id p (visit p)

variable {root : Nat}

theorem Pass.Extends.refl (p : Pass) : p.Extends g p :=
  ⟨fun _ h => h, fun _ h => h⟩

theorem Pass.Extends.trans {p q r : Pass} (h : p.Extends g q) (h' : q.Extends g r) :
    p.Extends g r :=
  ⟨fun j hj => h'.tells j (h.tells j hj), fun r hr => h'.keeps r (h.keeps r hr)⟩

theorem Pass.extends_setExpr {p : Pass} {id : Nat} {answer : Bool}
    (hanswer : answer = true ↔ g.Certain id) : p.Extends g (p.setExpr id answer) where
  tells := by
    intro j hj
    by_cases heq : j = id
    · subst heq
      simpa [Pass.Tells, Pass.setExpr] using hanswer
    · simpa [Pass.Tells, Pass.setExpr, heq] using hj
  keeps := fun _ h => h

theorem Pass.tells_setExpr {p : Pass} {id : Nat} {answer : Bool}
    (hanswer : answer = true ↔ g.Certain id) : (p.setExpr id answer).Tells g id := by
  simpa [Pass.Tells, Pass.setExpr] using hanswer

theorem Pass.Exact.setExpr {p : Pass} (h : p.Exact g root) {id : Nat} {answer : Bool}
    (hanswer : answer = true ↔ g.Certain id) : (p.setExpr id answer).Exact g root where
  sound := h.sound.setExpr hanswer.1
  kept := h.kept
  right := by
    intro r rule kept hrule hkept
    obtain ⟨hright, htells⟩ := h.right r rule kept hrule hkept
    exact ⟨hright, fun j hj => (extends_setExpr hanswer).tells j (htells j hj)⟩

/-- An answer that is kept for a rule settles its body. -/
theorem Pass.Exact.settles {p : Pass} (h : p.Exact g root) {r : Nat} {rule : Rule} {answer : Bool}
    (hrule : g.rule? r = some rule) (hmemo : p.memo r = some answer) :
    Settles g root rule.body p (answer, p) := by
  obtain ⟨hanswer, htells⟩ := h.right r rule answer hrule hmemo
  exact ⟨h, .refl p, hanswer, htells⟩

/-- The answer for an expression is noted when its inner expressions are settled. -/
theorem Settles.note {id : Nat} {n : Node Nat} (hnode : g.node? id = some n) {p q : Pass}
    {answer : Bool} (hexact : q.Exact g root) (hextends : p.Extends g q)
    (hanswer : answer = true ↔ g.Certain id)
    (hinner : ∀ c ∈ n.expr.children, ∀ j, ReflTransGen g.Contains c j → q.Tells g j) :
    Settles g root id p (answer, q.setExpr id answer) where
  exact := hexact.setExpr hanswer
  goes_on := hextends.trans (Pass.extends_setExpr hanswer)
  answer := hanswer
  tells := by
    intro j hj
    rcases (Grammar.within_cons_iff hnode).1 hj with rfl | ⟨c, hc, hrest⟩
    · exact Pass.tells_setExpr hanswer
    · exact (Pass.extends_setExpr hanswer).tells j (hinner c hc j hrest)

/-- What visits of expressions one after another lead to. -/
structure SettlesEach (g : Grammar) (root : Nat) (is : List Nat) (p : Pass)
    (result : List Bool × Pass) : Prop where
  exact : result.2.Exact g root
  goes_on : p.Extends g result.2
  answers : List.Forall₂ (fun answer i => answer = true ↔ g.Certain i) result.1 is
  tells : ∀ i ∈ is, ∀ j, ReflTransGen g.Contains i j → result.2.Tells g j

theorem visitEach_exact {defer : Tree → Pass → Bool × Pass} {enter : Nat → Pass → Bool × Pass}
    {is : List Nat} {tree : Nat → Tree}
    (hitems : ∀ i ∈ is, ExactVisit g root i (visitWith defer enter (tree i))) {p : Pass}
    (hp : p.Exact g root) : SettlesEach g root is p (visitEach defer enter (is.map tree) p) := by
  induction is generalizing p with
  | nil => exact ⟨hp, .refl p, .nil, by simp⟩
  | cons i is ih =>
      have hfirst := hitems i List.mem_cons_self p hp
      have hrest := ih (fun j hj => hitems j (List.mem_cons_of_mem i hj)) hfirst.exact
      refine ⟨hrest.exact, hfirst.goes_on.trans hrest.goes_on,
        .cons hfirst.answer hrest.answers, ?_⟩
      intro other hother j hj
      rcases List.mem_cons.1 hother with rfl | hother
      · exact hrest.goes_on.tells j (hfirst.tells j hj)
      · exact hrest.tells other hother j hj

theorem certain_group_iff {id : Nat} {k : Grouping} {is : List Nat} {span : Span}
    (hnode : g.node? id = some ⟨.group k is, span⟩) : g.Certain id ↔ k.Holds g.Certain is := by
  rw [Grammar.certain_iff hnode]
  cases k <;> rfl

/-- Paths go on from an expression to those inside it. -/
structure Paths (g : Grammar) (path : Nat → Nat → Prop) : Prop where
  wrap : ∀ {spent id i : Nat} {w : Wrapper} {span : Span}, path spent id →
    g.node? id = some ⟨.wrap w i, span⟩ → path (spent + w.cost) i
  item : ∀ {spent id i : Nat} {k : Grouping} {is : List Nat} {span : Span}, path spent id →
    g.node? id = some ⟨.group k is, span⟩ → i ∈ is → path spent i

theorem certain_leaf_iff {id : Nat} {l : Leaf Nat} {span : Span}
    (hnode : g.node? id = some ⟨.leaf l, span⟩)
    (hleaf : ¬ ∃ call target, l = .ruleRef call target) :
    g.Certain id ↔ l.alwaysMatches = true := by
  rw [Grammar.certain_iff hnode]
  cases l with
  | ruleRef call target => exact absurd ⟨call, target, rfl⟩ hleaf
  | _ => rfl

theorem certain_ruleRef_iff {id target : Nat} {call : Call} {span : Span} {rule : Rule}
    (hnode : g.node? id = some ⟨.leaf (.ruleRef call target), span⟩)
    (hrule : g.rule? target = some rule) : g.Certain id ↔ g.Certain rule.body := by
  rw [Grammar.certain_iff hnode]
  simp [Grammar.CertainBy, Grammar.CertainRule, hrule]

/-- A visit with some levels spent settles an expression if the visits that it leads to do: to inner
expressions with one more level spent, and to the rules that are referred to. -/
theorem visitWith_exact {defer : Tree → Pass → Bool × Pass} {enter : Nat → Pass → Bool × Pass}
    {path : Nat → Nat → Prop} (hpaths : Paths g path) {spent : Nat}
    (hdefer : ∀ i t, g.Unfolds i t → path (spent + 1) i → ExactVisit g root i (defer t))
    (henter : ∀ id call target span rule, path spent id →
      g.node? id = some ⟨.leaf (.ruleRef call target), span⟩ → g.rule? target = some rule →
        ExactVisit g root rule.body (enter target))
    {id : Nat} {t : Tree} (ht : g.Unfolds id t) (hspent : path spent id) :
    ExactVisit g root id (visitWith defer enter t) := by
  induction ht with
  | @leaf id l span hnode =>
      intro p hp
      by_cases hcall : ∃ call target, l = .ruleRef call target
      · obtain ⟨call, target, rfl⟩ := hcall
        obtain ⟨rule, hrule⟩ := g.exists_rule_of_target hnode
        have hbody := henter id call target span rule hspent hnode hrule p hp
        have hanswer : (enter target p).1 = true ↔ g.Certain id := by
          rw [hbody.answer, certain_ruleRef_iff hnode hrule]
        exact .note hnode hbody.exact hbody.goes_on hanswer (by simp [Expr.children])
      · rw [visitWith_leaf hcall]
        have hanswer := (certain_leaf_iff hnode hcall).symm
        exact .note hnode hp (.refl p) hanswer (by simp [Expr.children])
  | @wrap id i w span inner hnode hinner ih =>
      intro p hp
      have hpath := hpaths.wrap hspent hnode
      have hiff := Grammar.certain_iff hnode
      simp only [visitWith, Grammar.CertainBy] at hiff ⊢
      cases houtcome : w.outcome with
      | same =>
          rw [Wrapper.cost_of_same houtcome] at hpath
          have hsettled := hdefer i inner hinner hpath p hp
          have hanswer : (defer inner p).1 = true ↔ g.Certain id := by
            rw [hsettled.answer, hiff, houtcome]
          refine .note hnode hsettled.exact hsettled.goes_on hanswer ?_
          simpa [Expr.children] using hsettled.tells
      | always | never =>
          rw [Wrapper.cost_of_ne_same (by simp [houtcome])] at hpath
          have hsettled := ih hpath p hp
          refine .note hnode hsettled.exact hsettled.goes_on (by simp [hiff, houtcome]) ?_
          simpa [Expr.children] using hsettled.tells
  | @group id k is span tree hnode hitems ih =>
      intro p hp
      have heach := visitEach_exact (fun i hi => ih i hi (hpaths.item hspent hnode hi)) hp
      have hanswer : k.combine (visitEach defer enter (is.map tree) p).1 = true ↔ g.Certain id := by
        constructor
        · exact fun h => certain_of_holds hnode
            (holds_of_combine (heach.answers.imp fun _ _ => Iff.mp) h)
        · exact fun h => combine_of_holds (heach.answers.imp fun _ _ => Iff.mpr)
            ((certain_group_iff hnode).1 h)
      exact .note hnode heach.exact heach.goes_on hanswer heach.tells

theorem memoize_of_kept {find : Nat → Pass → Bool × Pass} {r : Nat} {p : Pass} {answer : Bool}
    (h : p.memo r = some answer) : memoize find r p = (answer, p) := by
  simp [memoize, h]

theorem memoize_of_none {find : Nat → Pass → Bool × Pass} {r : Nat} {p : Pass}
    (h : p.memo r = none) :
    memoize find r p = ((find r p).1, (find r p).2.setRule r (find r p).1) := by
  simp [memoize, h]

theorem memoize_exact {find : Nat → Pass → Bool × Pass} {r : Nat} {rule : Rule}
    (hrule : g.rule? r = some rule) (hfind : ExactVisit g root rule.body (find r)) :
    ExactVisit g root rule.body (memoize find r) := by
  intro p hp
  cases hmemo : p.memo r with
  | some answer =>
      rw [memoize_of_kept hmemo]
      exact hp.settles hrule hmemo
  | none =>
      have hbody := hfind p hp
      rw [memoize_of_none hmemo]
      have hkeeps : ∀ other, ((find r p).2.memo other).isSome →
          (((find r p).2.setRule r (find r p).1).memo other).isSome := by
        intro other hother
        by_cases heq : other = r
        · simp [Pass.setRule, heq]
        · simpa [Pass.setRule, heq] using hother
      refine ⟨⟨?_, fun other hother => hkeeps other (hbody.exact.kept other hother), ?_⟩,
        ⟨hbody.goes_on.tells, fun other hother => hkeeps other (hbody.goes_on.keeps other hother)⟩,
        hbody.answer, hbody.tells⟩
      · exact hbody.exact.sound.setRule fun h => ⟨rule, hrule, hbody.answer.1 h⟩
      · intro other rule' answer hrule' hkept
        by_cases heq : other = r
        · subst heq
          obtain rfl : rule = rule' := Option.some.inj (hrule.symm.trans hrule')
          obtain rfl : (find other p).1 = answer := by simpa [Pass.setRule] using hkept
          exact ⟨hbody.answer, hbody.tells⟩
        · have hbefore : (find r p).2.memo other = some answer := by
            simpa [Pass.setRule, heq] using hkept
          exact hbody.exact.right other rule' answer hrule' hbefore

theorem isSome_memo_memoize (find : Nat → Pass → Bool × Pass) (r : Nat) (p : Pass) :
    ((memoize find r p).2.memo r).isSome := by
  cases hmemo : p.memo r with
  | some answer => simp [memoize_of_kept hmemo, hmemo]
  | none => simp [memoize_of_none hmemo, Pass.setRule]

/-- No path into the grammar spends as many levels as there are. -/
def WithinLimit (g : Grammar) (follow : Bool) : Prop :=
  ∀ spent id, g.Spends follow spent id → spent < recursionLimit

theorem withinLimit_of_bound {follow : Bool} {bound : Nat → Nat}
    (hbound : ∀ id, bound id < recursionLimit) (hbodies : ∀ rule ∈ g.rules, 1 ≤ bound rule.body)
    (hkeeps : ∀ id < g.exprs.length, ∀ n ∈ g.node? id,
      g.keepsTo follow bound (bound id) n.expr = true) : WithinLimit g follow :=
  fun _ id h => Nat.lt_of_le_of_lt (h.le_bound hbodies hkeeps) (hbound id)

end AlwaysMatch

end Packrat
