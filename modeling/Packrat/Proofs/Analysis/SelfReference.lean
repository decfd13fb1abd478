import Packrat.Proofs.Analysis.Exact

/-!
# Rules that refer to themselves

A visit of a rule that refers to itself comes to its body again, one level down each time, until no
level is left.  Such a nested visit skips what lies behind too many wrappers, and its answer stands
for the rule until the visit around it ends.  Main statements: if what it skips is certain only
where it mentions the rule, and a certain body is evidently so, a nested visit gives the right
answer (`visit_body_answer`) and leaves alone what the visit around it has marked before
(`visit_inside`), so that the visit around it is exact (`enter_self_exact`).
-/

namespace Packrat

open Relation

namespace Grammar

variable {g : Grammar} {r id : Nat} {n : Node Nat}

/-- A reference to a rule is an expression or within it. -/
def Mentions (g : Grammar) (r id : Nat) : Prop :=
  ∃ j call span, ReflTransGen g.Contains id j ∧
    g.node? j = some ⟨.leaf (.ruleRef call r), span⟩

theorem mentions_iff (hnode : g.node? id = some n) :
    g.Mentions r id ↔ (∃ call, n.expr = .leaf (.ruleRef call r)) ∨
      ∃ c ∈ n.expr.children, g.Mentions r c := by
  constructor
  · rintro ⟨j, call, span, hpath, hj⟩
    rcases (within_cons_iff hnode).1 hpath with rfl | ⟨c, hc, hrest⟩
    · obtain rfl := Option.some.inj (hnode.symm.trans hj)
      exact Or.inl ⟨call, rfl⟩
    · exact Or.inr ⟨c, hc, j, call, span, hrest, hj⟩
  · rintro (⟨call, hexpr⟩ | ⟨c, hc, j, call, span, hpath, hj⟩)
    · exact ⟨id, call, n.span, .refl, by rw [hnode, ← hexpr]⟩
    · exact ⟨j, call, span, .head ⟨n, hnode, hc⟩ hpath, hj⟩

theorem not_mentions_inner (h : ¬ g.Mentions r id) (hnode : g.node? id = some n) {c : Nat}
    (hc : c ∈ n.expr.children) : ¬ g.Mentions r c :=
  fun hinner => h ((mentions_iff hnode).2 (Or.inr ⟨c, hc, hinner⟩))

theorem not_mentions_leaf {l : Leaf Nat} {span : Span} (hnode : g.node? id = some ⟨.leaf l, span⟩)
    (hself : ¬ ∃ call, l = .ruleRef call r) : ¬ g.Mentions r id := by
  rw [mentions_iff hnode]
  rintro (⟨call, hl⟩ | ⟨c, hc, -⟩)
  · exact hself ⟨call, Expr.leaf.inj hl⟩
  · simp [Expr.children] at hc

/-- An expression is certain, which can be told without the answer for a rule and without a look at
what wrappers pass on. -/
inductive Evident (g : Grammar) (r : Nat) : Nat → Prop where
  | leaf {id : Nat} {l : Leaf Nat} {span : Span} (hnode : g.node? id = some ⟨.leaf l, span⟩)
      (hl : l.alwaysMatches = true) : Evident g r id
  | wrap {id i : Nat} {w : Wrapper} {span : Span} (hnode : g.node? id = some ⟨.wrap w i, span⟩)
      (houtcome : w.outcome = .always) : Evident g r id
  | call {id target : Nat} {call : Call} {span : Span}
      (hnode : g.node? id = some ⟨.leaf (.ruleRef call target), span⟩) (hother : target ≠ r)
      (hcertain : g.CertainRule target) : Evident g r id
  | sequence {id : Nat} {is : List Nat} {span : Span}
      (hnode : g.node? id = some ⟨.group .sequence is, span⟩) (hall : ∀ i ∈ is, Evident g r i) :
      Evident g r id
  | choice {id i : Nat} {is : List Nat} {span : Span}
      (hnode : g.node? id = some ⟨.group .choice is, span⟩) (hi : i ∈ is) (hany : Evident g r i) :
      Evident g r id

/-- Visits of the body of a rule may skip what its wrappers pass on: where that is certain, it
mentions the rule, and if the body is certain, it is evidently so. -/
structure CanSkip (g : Grammar) (r body : Nat) : Prop where
  mentions : ∀ id w i span, ReflTransGen g.Contains body id →
    g.node? id = some ⟨.wrap w i, span⟩ → w.outcome = .same → g.Certain id → g.Mentions r id
  evident : g.Certain body → g.Evident r body

end Grammar

namespace AlwaysMatch

variable {g : Grammar} {r body id : Nat} {defer : Tree → Pass → Bool × Pass}
  {enter : Nat → Pass → Bool × Pass}

/-- A pass has marked an expression if it is certain. -/
def Pass.Marks (g : Grammar) (p : Pass) (id : Nat) : Prop :=
  g.Certain id → p.exprs id = true

theorem Pass.tells_iff_marks {p : Pass} (h : p.Sound g) : p.Tells g id ↔ p.Marks g id :=
  ⟨fun htells => htells.2, fun hmarks => ⟨h.exprs id, hmarks⟩⟩

/-- Every other rule that the body refers to has the right answer. -/
def Pass.Ready (g : Grammar) (r body : Nat) (p : Pass) : Prop :=
  ∀ id call target span, ReflTransGen g.Contains body id →
    g.node? id = some ⟨.leaf (.ruleRef call target), span⟩ → target ≠ r →
      ∃ answer, p.memo target = some answer ∧ (g.CertainRule target → answer = true)

/-- A pass goes on inside a body: it keeps the answers for other rules and for the expressions
outside the body, and the marks of those that do not mention the rule. -/
structure Inside (g : Grammar) (r body : Nat) (p later : Pass) : Prop where
  memo : ∀ other, other ≠ r → later.memo other = p.memo other
  outside : ∀ j, ¬ ReflTransGen g.Contains body j → later.exprs j = p.exprs j
  marks : ∀ j, ¬ g.Mentions r j → p.Marks g j → later.Marks g j

theorem Inside.refl (p : Pass) : Inside g r body p p :=
  ⟨fun _ _ => rfl, fun _ _ => rfl, fun _ _ h => h⟩

theorem Inside.trans {p q s : Pass} (h : Inside g r body p q) (h' : Inside g r body q s) :
    Inside g r body p s where
  memo := fun other hother => (h'.memo other hother).trans (h.memo other hother)
  outside := fun j hj => (h'.outside j hj).trans (h.outside j hj)
  marks := fun j hj hmarks => h'.marks j hj (h.marks j hj hmarks)

theorem Inside.ready {p q : Pass} (h : Inside g r body p q) (hp : p.Ready g r body) :
    q.Ready g r body := by
  intro id call target span hpath hnode hother
  rw [h.memo target hother]
  exact hp id call target span hpath hnode hother

theorem Pass.marks_setExpr {p : Pass} {answer : Bool} {j : Nat} (hj : p.Marks g j)
    (hanswer : j = id → g.Certain id → answer = true) : (p.setExpr id answer).Marks g j := by
  intro hcertain
  by_cases heq : j = id
  · subst heq
    simpa [Pass.setExpr] using hanswer rfl hcertain
  · simpa [Pass.setExpr, heq] using hj hcertain

theorem Inside.setExpr (p : Pass) {answer : Bool} (hid : ReflTransGen g.Contains body id)
    (hanswer : ¬ g.Mentions r id → g.Certain id → answer = true) :
    Inside g r body p (p.setExpr id answer) where
  memo := fun _ _ => rfl
  outside := by
    intro j hj
    have hne : j ≠ id := fun heq => hj (heq ▸ hid)
    simp [Pass.setExpr, hne]
  marks := fun j hj hmarks =>
    Pass.marks_setExpr hmarks fun heq => hanswer (heq ▸ hj)

theorem Inside.setRule (p : Pass) (answer : Bool) : Inside g r body p (p.setRule r answer) where
  memo := by
    intro other hother
    simp [Pass.setRule, hother]
  outside := fun _ _ => rfl
  marks := fun _ _ h => h

theorem Inside.cutOff (p : Pass) : Inside g r body p (p.cutOff r) :=
  ⟨fun _ _ => rfl, fun _ _ => rfl, fun _ _ h => h⟩

theorem enter_of_kept (levels : Nat) {p : Pass} {answer : Bool} (h : p.memo id = some answer) :
    AlwaysMatch.enter g.body levels id p = (answer, p) := by
  cases levels with
  | zero => rw [AlwaysMatch.enter, memoize_of_kept h]
  | succ levels => rw [AlwaysMatch.enter, memoize_of_kept h]

/-! ### Nested visits -/

/-- What a nested visit of an expression in the body leads to.  An expression that does not mention
the rule gets the right answer. -/
structure Passes (g : Grammar) (r body id : Nat) (p : Pass) (result : Bool × Pass) : Prop where
  inside : Inside g r body p result.2
  answer : ¬ g.Mentions r id → g.Certain id → result.1 = true

/-- The answers of a rule and of those that the body refers to, however many levels are left. -/
structure EntersInside (g : Grammar) (r body : Nat) (enter : Nat → Pass → Bool × Pass) : Prop where
  self : ∀ p, p.Ready g r body → Inside g r body p (enter r p).2
  other : ∀ target p answer, p.memo target = some answer → enter target p = (answer, p)

theorem visitEach_inside {is : List Nat} {tree : Nat → Tree} {fact : Nat → Prop}
    (hitems : ∀ i ∈ is, ∀ p, p.Ready g r body →
      Inside g r body p (visitWith defer enter (tree i) p).2 ∧
        (fact i → (visitWith defer enter (tree i) p).1 = true)) {p : Pass}
    (hp : p.Ready g r body) :
    Inside g r body p (visitEach defer enter (is.map tree) p).2 ∧
      List.Forall₂ (fun answer i => fact i → answer = true)
        (visitEach defer enter (is.map tree) p).1 is := by
  induction is generalizing p with
  | nil => exact ⟨.refl p, .nil⟩
  | cons i is ih =>
      obtain ⟨hfirst, hanswer⟩ := hitems i List.mem_cons_self p hp
      obtain ⟨hrest, hanswers⟩ :=
        ih (fun j hj => hitems j (List.mem_cons_of_mem i hj)) (hfirst.ready hp)
      exact ⟨hfirst.trans hrest, .cons hanswer hanswers⟩

/-- A leaf that is no reference to the rule has its answer at hand, and it is the right one. -/
theorem exists_visitWith_leaf_eq
    (hother : ∀ target p answer, p.memo target = some answer → enter target p = (answer, p))
    {l : Leaf Nat} {span : Span} (hnode : g.node? id = some ⟨.leaf l, span⟩)
    (hself : ¬ ∃ call, l = .ruleRef call r) (hid : ReflTransGen g.Contains body id) {p : Pass}
    (hp : p.Ready g r body) :
    ∃ answer, visitWith defer enter (.leaf id l) p = (answer, p.setExpr id answer) ∧
      (g.Certain id → answer = true) := by
  by_cases hcall : ∃ call target, l = .ruleRef call target
  · obtain ⟨call, target, rfl⟩ := hcall
    have hne : target ≠ r := by
      rintro rfl
      exact hself ⟨call, rfl⟩
    obtain ⟨rule, hrule⟩ := g.exists_rule_of_target hnode
    obtain ⟨answer, hmemo, hanswer⟩ := hp id call target span hid hnode hne
    refine ⟨answer, ?_, fun h => hanswer ⟨rule, hrule, (certain_ruleRef_iff hnode hrule).1 h⟩⟩
    rw [visitWith, hother target p answer hmemo]
  · exact ⟨l.alwaysMatches, visitWith_leaf hcall id p, (certain_leaf_iff hnode hcall).1⟩

theorem visitWith_inside (hskip : g.CanSkip r body)
    (hdefer : ∀ i t, g.Unfolds i t → ReflTransGen g.Contains body i → ∀ p, p.Ready g r body →
      Inside g r body p (defer t p).2)
    (henter : EntersInside g r body enter) {t : Tree} (ht : g.Unfolds id t)
    (hid : ReflTransGen g.Contains body id) {p : Pass} (hp : p.Ready g r body) :
    Passes g r body id p (visitWith defer enter t p) := by
  induction ht generalizing p with
  | @leaf id l span hnode =>
      by_cases hself : ∃ call, l = .ruleRef call r
      · obtain ⟨call, rfl⟩ := hself
        have hmentions : g.Mentions r id := ⟨id, call, span, .refl, hnode⟩
        have hinside := henter.self p hp
        exact ⟨hinside.trans (.setExpr _ hid fun h => absurd hmentions h),
          fun h => absurd hmentions h⟩
      · obtain ⟨answer, hvisit, hright⟩ :=
          exists_visitWith_leaf_eq henter.other hnode hself hid hp
        rw [hvisit]
        exact ⟨.setExpr p hid fun _ => hright, fun _ => hright⟩
  | @wrap id i w span inner hnode hinner ih =>
      have hi : ReflTransGen g.Contains body i := hid.tail ⟨_, hnode, List.mem_cons_self⟩
      have hiff := Grammar.certain_iff hnode
      simp only [visitWith, Grammar.CertainBy] at hiff ⊢
      cases houtcome : w.outcome with
      | same =>
          -- what is skipped is not certain unless it mentions the rule
          have hright : ¬ g.Mentions r id → g.Certain id → (defer inner p).1 = true :=
            fun hplain hcertain =>
              absurd (hskip.mentions id w i span hid hnode houtcome hcertain) hplain
          exact ⟨(hdefer i inner hinner hi p hp).trans (.setExpr _ hid hright), hright⟩
      | always =>
          have hrest := (ih hi hp).inside
          exact ⟨hrest.trans (.setExpr _ hid fun _ _ => rfl), fun _ _ => rfl⟩
      | never =>
          have hright : ¬ g.Mentions r id → g.Certain id → false = true := by
            intro _ hcertain
            simp [hiff, houtcome] at hcertain
          exact ⟨(ih hi hp).inside.trans (.setExpr _ hid hright), hright⟩
  | @group id k is span tree hnode hitems ih =>
      have hitem : ∀ i ∈ is, ∀ p, p.Ready g r body →
          Passes g r body i p (visitWith defer enter (tree i) p) :=
        fun i hi _ hp => ih i hi (hid.tail ⟨_, hnode, hi⟩) hp
      have heach := visitEach_inside (fun i hi p hp => ⟨(hitem i hi p hp).inside,
        fun h : ¬ g.Mentions r i ∧ g.Certain i => (hitem i hi p hp).answer h.1 h.2⟩) hp
      have hright : ¬ g.Mentions r id → g.Certain id →
          k.combine (visitEach defer enter (is.map tree) p).1 = true := by
        intro hplain hcertain
        refine combine_of_holds heach.2 (((certain_group_iff hnode).1 hcertain).imp ?_)
        exact fun i hi h => ⟨Grammar.not_mentions_inner hplain hnode hi, h⟩
      exact ⟨heach.1.trans (.setExpr _ hid hright), hright⟩

theorem entersInside_giveUp : EntersInside g r body (AlwaysMatch.enter g.body 0) where
  self := by
    intro p _
    cases hmemo : p.memo r with
    | some answer =>
        rw [enter_of_kept 0 hmemo]
        exact .refl p
    | none =>
        rw [AlwaysMatch.enter, memoize_of_none hmemo]
        exact (Inside.cutOff p).trans (.setRule _ _)
  other := fun _ _ _ => enter_of_kept 0

/-- A nested visit of the body, with any number of levels left, stays inside it. -/
theorem visit_inside {rule : Rule} (hrule : g.rule? r = some rule) (hskip : g.CanSkip r rule.body)
    (levels : Nat) {t : Tree} (ht : g.Unfolds id t) (hid : ReflTransGen g.Contains rule.body id)
    {p : Pass} (hp : p.Ready g r rule.body) :
    Passes g r rule.body id p (visit g.body levels t p) := by
  induction levels generalizing id t p with
  | zero => exact visitWith_inside hskip (fun _ _ _ _ p _ => .refl p) entersInside_giveUp ht hid hp
  | succ levels ih =>
      refine visitWith_inside hskip (fun i u hu hi p hp => (ih hu hi hp).inside) ?_ ht hid hp
      refine ⟨fun p hp => ?_, fun _ _ _ => enter_of_kept (levels + 1)⟩
      cases hmemo : p.memo r with
      | some answer =>
          rw [memoize_of_kept hmemo]
          exact .refl p
      | none =>
          rw [memoize_of_none hmemo]
          exact (ih (g.unfolds_body hrule) .refl hp).inside.trans (.setRule _ _)

theorem exists_visit_eq (body : Nat → Tree) (levels : Nat) :
    ∃ defer, visit body levels = visitWith defer (AlwaysMatch.enter body levels) := by
  cases levels with
  | zero => exact ⟨_, rfl⟩
  | succ levels => exact ⟨_, rfl⟩

/-- Every nested visit finds that an expression always matches. -/
def AlwaysAnswers (g : Grammar) (r body id : Nat) : Prop :=
  ∀ levels p, p.Ready g r body → (visit g.body levels (g.tree id) p).1 = true

theorem alwaysAnswers_leaf {l : Leaf Nat} {span : Span} (hid : ReflTransGen g.Contains body id)
    (hnode : g.node? id = some ⟨.leaf l, span⟩) (hself : ¬ ∃ call, l = .ruleRef call r)
    (hcertain : g.Certain id) : AlwaysAnswers g r body id := by
  intro levels p hp
  obtain ⟨defer, hvisit⟩ := exists_visit_eq g.body levels
  obtain ⟨answer, hleaf, hright⟩ :=
    exists_visitWith_leaf_eq (fun _ _ _ => enter_of_kept levels) hnode hself hid hp
  rw [hvisit, g.tree_eq hnode, Tree.ofExpr, hleaf]
  exact hright hcertain

theorem alwaysAnswers_wrap {i : Nat} {w : Wrapper} {span : Span}
    (hnode : g.node? id = some ⟨.wrap w i, span⟩) (houtcome : w.outcome = .always) :
    AlwaysAnswers g r body id := by
  intro levels p _
  obtain ⟨defer, hvisit⟩ := exists_visit_eq g.body levels
  rw [hvisit, g.tree_eq hnode, Tree.ofExpr, visitWith]
  simp [houtcome]

section Body

variable {rule : Rule} (hrule : g.rule? r = some rule) (hskip : g.CanSkip r rule.body)

include hrule hskip

theorem alwaysAnswers_group {k : Grouping} {is : List Nat} {span : Span}
    (hid : ReflTransGen g.Contains rule.body id)
    (hnode : g.node? id = some ⟨.group k is, span⟩)
    (hholds : k.Holds (AlwaysAnswers g r rule.body) is) : AlwaysAnswers g r rule.body id := by
  intro levels p hp
  obtain ⟨defer, hvisit⟩ := exists_visit_eq g.body levels
  have hitem : ∀ i ∈ is, ∀ p, p.Ready g r rule.body →
      Inside g r rule.body p
          (visitWith defer (AlwaysMatch.enter g.body levels) (g.tree i) p).2 ∧
        (AlwaysAnswers g r rule.body i →
          (visitWith defer (AlwaysMatch.enter g.body levels) (g.tree i) p).1 = true) := by
    intro i hi p hp
    rw [← hvisit]
    have hi' := hid.tail ⟨_, hnode, hi⟩
    exact ⟨(visit_inside hrule hskip levels (g.unfolds_inner hnode hi) hi' hp).inside,
      fun h => h levels p hp⟩
  rw [hvisit, g.tree_eq hnode, Tree.ofExpr, visitWith]
  exact combine_of_holds (visitEach_inside hitem hp).2 hholds

theorem alwaysAnswers_of_evident (hevident : g.Evident r id)
    (hid : ReflTransGen g.Contains rule.body id) : AlwaysAnswers g r rule.body id := by
  induction hevident with
  | @leaf id l span hnode hl =>
      refine alwaysAnswers_leaf hid hnode ?_ (certain_of_leaf hnode hl)
      rintro ⟨call, rfl⟩
      cases hl
  | wrap hnode houtcome => exact alwaysAnswers_wrap hnode houtcome
  | call hnode hother hcertain =>
      refine alwaysAnswers_leaf hid hnode ?_ ((Grammar.certain_iff hnode).2 hcertain)
      rintro ⟨call, hcall⟩
      exact hother (Leaf.ruleRef.inj hcall).2
  | sequence hnode _ ih =>
      exact alwaysAnswers_group hrule hskip hid hnode fun i hi => ih i hi (hid.tail ⟨_, hnode, hi⟩)
  | @choice id i is span hnode hi _ ih =>
      exact alwaysAnswers_group hrule hskip hid hnode ⟨i, hi, ih (hid.tail ⟨_, hnode, hi⟩)⟩

/-- A nested visit gives the right answer for the body, with any number of levels left. -/
theorem visit_body_answer (hbody : g.Certain rule.body) (levels : Nat) {p : Pass}
    (hp : p.Ready g r rule.body) : (visit g.body levels (g.body r) p).1 = true := by
  rw [g.body_eq hrule]
  exact alwaysAnswers_of_evident hrule hskip (hskip.evident hbody) .refl levels p hp

end Body

/-! ### The visit around them -/

/-- If there is an answer for the rule, it is the right one. -/
def Pass.Fair (g : Grammar) (r body : Nat) (p : Pass) : Prop :=
  ∀ answer, p.memo r = some answer → g.Certain body → answer = true

/-- A pass goes on around nested visits.  There is an answer for the rule at the end if there was
one at the start or the rule was met, and if there was one at the start, nothing loses its mark. -/
structure Round (g : Grammar) (r body : Nat) (meets : Prop) (p later : Pass) : Prop where
  inside : Inside g r body p later
  fair : later.Fair g r body
  met : meets ∨ (p.memo r).isSome → (later.memo r).isSome
  marks : (p.memo r).isSome → ∀ j, p.Marks g j → later.Marks g j

variable {meets more : Prop} {p q s : Pass}

theorem Round.refl (hp : p.Fair g r body) : Round g r body False p p :=
  ⟨.refl p, hp, fun h => h.resolve_left not_false, fun _ _ h => h⟩

theorem Round.trans (h : Round g r body meets p q) (h' : Round g r body more q s) :
    Round g r body (meets ∨ more) p s where
  inside := h.inside.trans h'.inside
  fair := h'.fair
  met := by
    rintro ((hmeets | hmore) | hsome)
    · exact h'.met (Or.inr (h.met (Or.inl hmeets)))
    · exact h'.met (Or.inl hmore)
    · exact h'.met (Or.inr (h.met (Or.inr hsome)))
  marks := fun hsome j hj => h'.marks (h.met (Or.inr hsome)) j (h.marks hsome j hj)

theorem Round.imp (h : Round g r body meets p q) (himp : more → meets) :
    Round g r body more p q :=
  { h with met := fun hmet => h.met (hmet.imp_left himp) }

theorem Round.setExpr (hp : p.Fair g r body) {answer : Bool}
    (hid : ReflTransGen g.Contains body id) (hanswer : g.Certain id → answer = true) :
    Round g r body False p (p.setExpr id answer) where
  inside := .setExpr p hid fun _ => hanswer
  fair := hp
  met := fun h => h.resolve_left not_false
  marks := fun _ _ hj => Pass.marks_setExpr hj fun _ => hanswer

/-- What the visit around nested ones leads to, for an expression in the body. -/
structure Encloses (g : Grammar) (r body id : Nat) (p : Pass) (result : Bool × Pass) : Prop where
  round : Round g r body (g.Mentions r id) p result.2
  answer : g.Certain id → result.1 = true
  marks : ∀ j, ReflTransGen g.Contains id j → result.2.Marks g j

theorem Encloses.note {n : Node Nat} (hnode : g.node? id = some n)
    (hid : ReflTransGen g.Contains body id) {answer : Bool} (hround : Round g r body meets p q)
    (hmeets : g.Mentions r id → meets) (hanswer : g.Certain id → answer = true)
    (hinner : ∀ c ∈ n.expr.children, ∀ j, ReflTransGen g.Contains c j → q.Marks g j) :
    Encloses g r body id p (answer, q.setExpr id answer) where
  round := (hround.trans (.setExpr hround.fair hid hanswer)).imp fun h => Or.inl (hmeets h)
  answer := hanswer
  marks := by
    intro j hj
    rcases (Grammar.within_cons_iff hnode).1 hj with rfl | ⟨c, hc, hrest⟩
    · intro hcertain
      simpa [Pass.setExpr] using hanswer hcertain
    · exact Pass.marks_setExpr (hinner c hc j hrest) fun _ => hanswer

/-- Visits of expressions one after another.  What has been visited before the rule is met keeps its
marks since it does not mention the rule. -/
theorem visitEach_encloses {is : List Nat} {tree : Nat → Tree}
    (hitems : ∀ i ∈ is, ∀ p, p.Ready g r body → p.Fair g r body →
      Encloses g r body i p (visitWith defer enter (tree i) p))
    (hready : p.Ready g r body) (hfair : p.Fair g r body) :
    Round g r body (∃ i ∈ is, g.Mentions r i) p (visitEach defer enter (is.map tree) p).2 ∧
      List.Forall₂ (fun answer i => g.Certain i → answer = true)
        (visitEach defer enter (is.map tree) p).1 is ∧
      ∀ i ∈ is, ∀ j, ReflTransGen g.Contains i j →
        (visitEach defer enter (is.map tree) p).2.Marks g j := by
  induction is generalizing p with
  | nil => exact ⟨(Round.refl hfair).imp (by simp), .nil, by simp⟩
  | cons i is ih =>
      have hfirst := hitems i List.mem_cons_self p hready hfair
      obtain ⟨hround, hanswers, hmarks⟩ := ih (fun j hj => hitems j (List.mem_cons_of_mem i hj))
        (hfirst.round.inside.ready hready) hfirst.round.fair
      refine ⟨(hfirst.round.trans hround).imp (by simp), .cons hfirst.answer hanswers, ?_⟩
      intro other hother j hj
      rcases List.mem_cons.1 hother with rfl | hother
      · by_cases hmentions : g.Mentions r j
        · obtain ⟨k, call, span, hpath, hnode⟩ := hmentions
          have hmet := hfirst.round.met (Or.inl ⟨k, call, span, hj.trans hpath, hnode⟩)
          exact hround.marks hmet j (hfirst.marks j hj)
        · exact hround.inside.marks j hmentions (hfirst.marks j hj)
      · exact hmarks other hother j hj

theorem visitWith_encloses {path : Nat → Nat → Prop} (hpaths : Paths g path) {spent : Nat}
    (hdefer : ∀ i t, g.Unfolds i t → path (spent + 1) i → ReflTransGen g.Contains body i →
      ∀ p, p.Ready g r body → p.Fair g r body → Encloses g r body i p (defer t p))
    (hself : ∀ id call span, path spent id → g.node? id = some ⟨.leaf (.ruleRef call r), span⟩ →
      ∀ p, p.Ready g r body → p.Fair g r body → Round g r body True p (enter r p).2 ∧
        (g.Certain id → (enter r p).1 = true))
    (hother : ∀ target p answer, p.memo target = some answer → enter target p = (answer, p))
    {t : Tree} (ht : g.Unfolds id t) (hspent : path spent id)
    (hid : ReflTransGen g.Contains body id) (hready : p.Ready g r body)
    (hfair : p.Fair g r body) : Encloses g r body id p (visitWith defer enter t p) := by
  induction ht generalizing p with
  | @leaf id l span hnode =>
      by_cases hcall : ∃ call, l = .ruleRef call r
      · obtain ⟨call, rfl⟩ := hcall
        obtain ⟨hround, hanswer⟩ := hself id call span hspent hnode p hready hfair
        exact .note hnode hid hround (fun _ => trivial) hanswer (by simp [Expr.children])
      · obtain ⟨answer, hvisit, hright⟩ := exists_visitWith_leaf_eq hother hnode hcall hid hready
        have hplain := Grammar.not_mentions_leaf hnode hcall
        rw [hvisit]
        exact .note hnode hid (.refl hfair) hplain hright (by simp [Expr.children])
  | @wrap id i w span inner hnode hinner ih =>
      have hi : ReflTransGen g.Contains body i := hid.tail ⟨_, hnode, List.mem_cons_self⟩
      have hpath := hpaths.wrap hspent hnode
      have hiff := Grammar.certain_iff hnode
      have hmentions : g.Mentions r id → g.Mentions r i := by
        rw [Grammar.mentions_iff hnode]
        simp [Expr.children]
      simp only [visitWith, Grammar.CertainBy] at hiff ⊢
      cases houtcome : w.outcome with
      | same =>
          rw [Wrapper.cost_of_same houtcome] at hpath
          have hrest := hdefer i inner hinner hpath hi p hready hfair
          have hright : g.Certain id → (defer inner p).1 = true := by
            rw [hiff, houtcome]
            exact hrest.answer
          exact .note hnode hid hrest.round hmentions hright
            (by simpa [Expr.children] using hrest.marks)
      | always | never =>
          rw [Wrapper.cost_of_ne_same (by simp [houtcome])] at hpath
          have hrest := ih hpath hi hready hfair
          exact .note hnode hid hrest.round hmentions (by simp [hiff, houtcome])
            (by simpa [Expr.children] using hrest.marks)
  | @group id k is span tree hnode hitems ih =>
      obtain ⟨hround, hanswers, hmarks⟩ := visitEach_encloses
        (fun i hi p hp hp' =>
          ih i hi (hpaths.item hspent hnode hi) (hid.tail ⟨_, hnode, hi⟩) hp hp')
        hready hfair
      have hmentions : g.Mentions r id → ∃ i ∈ is, g.Mentions r i := by
        rw [Grammar.mentions_iff hnode]
        simp [Expr.children]
      refine .note hnode hid hround hmentions (fun hcertain => ?_) hmarks
      exact combine_of_holds hanswers ((certain_group_iff hnode).1 hcertain)

/-- When the answer for the rule is kept, all in its body is told, and nothing
outside has changed. -/
theorem settles_of_encloses {root : Nat} {rule : Rule} {answer : Bool}
    (hrule : g.rule? r = some rule) (hp : p.Exact g root)
    (hvisit : Encloses g r rule.body rule.body p (answer, q))
    (hsound : (q.setRule r answer).Sound g ∧ (answer = true → g.CertainRule r)) :
    Settles g root rule.body p (answer, q.setRule r answer) := by
  have hmemo : ∀ other, other ≠ r → (q.setRule r answer).memo other = p.memo other := by
    intro other hother
    rw [← hvisit.round.inside.memo other hother]
    simp [Pass.setRule, hother]
  have hanswer : answer = true ↔ g.Certain rule.body := by
    refine ⟨fun h => ?_, hvisit.answer⟩
    obtain ⟨rule', hrule', hcertain⟩ := hsound.2 h
    obtain rfl : rule = rule' := Option.some.inj (hrule.symm.trans hrule')
    exact hcertain
  have htells : ∀ j, ReflTransGen g.Contains rule.body j → (q.setRule r answer).Tells g j :=
    fun j hj => (Pass.tells_iff_marks hsound.1).2 (hvisit.marks j hj)
  have hgoes : ∀ j, p.Tells g j → (q.setRule r answer).Tells g j := by
    intro j hj
    by_cases hwithin : ReflTransGen g.Contains rule.body j
    · exact htells j hwithin
    · unfold Pass.Tells at hj ⊢
      rwa [show (q.setRule r answer).exprs j = p.exprs j from
        hvisit.round.inside.outside j hwithin]
  have hkeeps : ∀ other, (p.memo other).isSome → ((q.setRule r answer).memo other).isSome := by
    intro other hother
    by_cases heq : other = r
    · simp [Pass.setRule, heq]
    · rwa [hmemo other heq]
  refine ⟨⟨hsound.1, fun other hlt => hkeeps other (hp.kept other hlt), ?_⟩, ⟨hgoes, hkeeps⟩,
    hanswer, htells⟩
  intro other rule' kept hrule' hkept
  by_cases heq : other = r
  · subst heq
    obtain rfl : rule = rule' := Option.some.inj (hrule.symm.trans hrule')
    obtain rfl : answer = kept := by simpa [Pass.setRule] using hkept
    exact ⟨hanswer, htells⟩
  · rw [hmemo other heq] at hkept
    obtain ⟨hright, htold⟩ := hp.right other rule' kept hrule' hkept
    exact ⟨hright, fun j hj => hgoes j (htold j hj)⟩

section Enter

variable {path : Nat → Nat → Prop} (hpaths : Paths g path)
  (hspent : ∀ spent id, path spent id → spent < recursionLimit)
  (hagain : ∀ spent id call span, path spent id →
    g.node? id = some ⟨.leaf (.ruleRef call r), span⟩ → spent + 1 < recursionLimit)
  {rule : Rule} (hrule : g.rule? r = some rule) (hskip : g.CanSkip r rule.body)

include hrule hskip in
/-- Where the rule is met for the first time, nested visits find its answer, and later that is at
hand. -/
theorem enter_round (levels : Nat) (hready : p.Ready g r rule.body)
    (hfair : p.Fair g r rule.body) :
    Round g r rule.body True p (AlwaysMatch.enter g.body (levels + 1) r p).2 ∧
      (g.Certain rule.body → (AlwaysMatch.enter g.body (levels + 1) r p).1 = true) := by
  cases hmemo : p.memo r with
  | some answer =>
      rw [enter_of_kept (levels + 1) hmemo]
      exact ⟨⟨.refl p, hfair, fun _ => by simp [hmemo], fun _ _ h => h⟩, hfair answer hmemo⟩
  | none =>
      have hnested := visit_inside hrule hskip levels (g.unfolds_body hrule) .refl hready
      have hanswer : g.Certain rule.body → (visit g.body levels (g.body r) p).1 = true :=
        fun h => visit_body_answer hrule hskip h levels hready
      rw [AlwaysMatch.enter, memoize_of_none hmemo]
      refine ⟨⟨hnested.inside.trans (.setRule _ _), ?_, ?_, ?_⟩, hanswer⟩
      · intro answer hkept
        obtain rfl : (visit g.body levels (g.body r) p).1 = answer := by
          simpa [Pass.setRule] using hkept
        exact hanswer
      · simp [Pass.setRule]
      · simp [hmemo]

include hpaths hspent hagain hrule hskip

/-- The visit around the nested ones finds the right answers and marks what is certain. -/
theorem visit_encloses {levels spent : Nat} (hlevels : spent + levels + 1 = recursionLimit)
    {t : Tree} (ht : g.Unfolds id t) (hpath : path spent id)
    (hid : ReflTransGen g.Contains rule.body id) (hready : p.Ready g r rule.body)
    (hfair : p.Fair g r rule.body) : Encloses g r rule.body id p (visit g.body levels t p) := by
  induction levels generalizing spent id t p with
  | zero =>
      have hother : ∀ target p answer, p.memo target = some answer →
          AlwaysMatch.enter g.body 0 target p = (answer, p) := fun _ _ _ => enter_of_kept 0
      refine visitWith_encloses hpaths (fun i _ _ hi => ?_) (fun i call span hi hnode => ?_)
        hother ht hpath hid hready hfair
      · have hlt := hspent _ _ hi
        omega
      · have hlt := hagain _ _ _ _ hi hnode
        omega
  | succ levels ih =>
      refine visitWith_encloses hpaths
        (fun i u hu hi hi' p hp hp' => ih (by omega) hu hi hi' hp hp') ?_
        (fun _ _ _ => enter_of_kept (levels + 1)) ht hpath hid hready hfair
      intro i call span _ hnode p hp hp'
      obtain ⟨hround, hanswer⟩ := enter_round hrule hskip levels hp hp'
      exact ⟨hround, fun h => hanswer ((certain_ruleRef_iff hnode hrule).1 h)⟩

/-- A visit of a rule that refers to itself is exact if the other rules that it refers to have
answers. -/
theorem enter_self_exact {root levels spent : Nat}
    (hlevels : spent + levels + 1 = recursionLimit) (hpath : path spent rule.body)
    (hsettled : ∀ id call target span, ReflTransGen g.Contains rule.body id →
      g.node? id = some ⟨.leaf (.ruleRef call target), span⟩ → target ≠ r → target < root) :
    ExactVisit g root rule.body (AlwaysMatch.enter g.body (levels + 1) r) := by
  intro p hp
  have hsound := enter_sound (levels + 1) hrule p hp.sound
  cases hmemo : p.memo r with
  | some answer =>
      rw [enter_of_kept (levels + 1) hmemo]
      exact hp.settles hrule hmemo
  | none =>
      have hready : p.Ready g r rule.body := by
        intro id call target span hid hnode hother
        have hlt := hsettled id call target span hid hnode hother
        obtain ⟨answer, hkept⟩ := Option.isSome_iff_exists.1 (hp.kept target hlt)
        refine ⟨answer, hkept, ?_⟩
        rintro ⟨rule', hrule', hcertain⟩
        exact (hp.right target rule' answer hrule' hkept).1.2 hcertain
      have hfair : p.Fair g r rule.body := by simp [Pass.Fair, hmemo]
      have hvisit := visit_encloses hpaths hspent hagain hrule hskip hlevels (g.unfolds_body hrule)
        hpath .refl hready hfair
      rw [AlwaysMatch.enter, memoize_of_none hmemo] at hsound ⊢
      exact settles_of_encloses hrule hp hvisit hsound

end Enter

end AlwaysMatch

end Packrat
