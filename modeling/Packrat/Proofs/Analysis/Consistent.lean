import Packrat.Proofs.Analysis.RuleBody
import Packrat.Proofs.Analysis.Straight

/-!
# Consistent answers

The answer for an expression should follow from the answers for its parts.  It need not: what is
visited again with fewer levels left keeps the last answer, and what was answered by it does not.
Main statement: the answers are consistent exactly if nothing certain is left out, and those of a
straight grammar are (`consistent_iff_complete`).
-/

namespace Packrat

open Relation

namespace Grammar

/-- The answer for an expression is the one that its kind gives it by the answers for its parts. -/
structure ConsistentAt (g : Grammar) (answers : AlwaysMatch) (id : Nat) : Prop where
  sequence : ∀ is span, g.node? id = some ⟨.group .sequence is, span⟩ →
    (answers.expr id = true ↔ ∀ i ∈ is, answers.expr i = true)
  choice : ∀ is span, g.node? id = some ⟨.group .choice is, span⟩ →
    (answers.expr id = true ↔ ∃ i ∈ is, answers.expr i = true)
  same : ∀ w i span, w.kind ∈ [.named, .labeled, .picked, .text, .simpleAnd, .simpleNot] →
    g.node? id = some ⟨.wrap w i, span⟩ → answers.expr id = answers.expr i
  always : ∀ w i span, w.kind ∈ [.optional, .zeroOrMore, .action] →
    g.node? id = some ⟨.wrap w i, span⟩ → answers.expr id = true
  call : ∀ call target span, g.node? id = some ⟨.leaf (.ruleRef call target), span⟩ →
    answers.expr id = answers.rule target

/-- A leaf that is no reference has the answer of its kind. -/
def LeafConsistentAt (g : Grammar) (answers : AlwaysMatch) (id : Nat) : Prop :=
  ∀ l span, g.node? id = some ⟨.leaf l, span⟩ → (¬ ∃ call target, l = .ruleRef call target) →
    answers.expr id = l.alwaysMatches

/-- `id` is the body of a rule or within it. -/
def InBody (g : Grammar) (id : Nat) : Prop :=
  ∃ r rule, g.rule? r = some rule ∧ ReflTransGen g.Contains rule.body id

/-- The answers are consistent everywhere in the bodies of the rules. -/
structure Consistent (g : Grammar) (answers : AlwaysMatch) : Prop where
  parts : ∀ id, g.InBody id → g.ConsistentAt answers id
  leaves : ∀ id, g.InBody id → g.LeafConsistentAt answers id

/-- All that is certain in the bodies of the rules is marked. -/
def Complete (g : Grammar) (answers : AlwaysMatch) : Prop :=
  ∀ id, g.InBody id → g.Certain id → answers.expr id = true

/-- Every expression is at most once an inner expression or the body of a rule. -/
def Unshared (g : Grammar) : Prop :=
  (g.exprs.flatMap (·.expr.children) ++ g.rules.map (·.body)).Nodup

variable {g : Grammar}

theorem InBody.inner {id c : Nat} {n : Node Nat} (h : g.InBody id) (hnode : g.node? id = some n)
    (hc : c ∈ n.expr.children) : g.InBody c := by
  obtain ⟨r, rule, hrule, hpath⟩ := h
  exact ⟨r, rule, hrule, hpath.tail ⟨n, hnode, hc⟩⟩

theorem inBody_of_rule {r : Nat} {rule : Rule} (hrule : g.rule? r = some rule) :
    g.InBody rule.body :=
  ⟨r, rule, hrule, .refl⟩

theorem InBody.lt {id : Nat} (h : g.InBody id) : id < g.exprs.length := by
  obtain ⟨r, rule, hrule, hpath⟩ := h
  induction hpath with
  | refl => exact g.bodies_below rule (List.mem_of_getElem? hrule)
  | tail _ hstep ih =>
      obtain ⟨n, hnode, hc⟩ := hstep
      exact Nat.lt_trans (g.children_precede _ n hnode _ hc) ih

theorem expr_iff_certain (hlimit : AlwaysMatch.WithinLimit g true) {id : Nat} (h : g.InBody id) :
    g.alwaysMatch.expr id = true ↔ g.Certain id := by
  obtain ⟨r, rule, hrule, hpath⟩ := h
  exact (alwaysMatch_iff_certain hlimit hrule).2 id hpath

/-! ### What is complete is consistent -/

theorem Complete.expr_iff (h : g.Complete g.alwaysMatch) {id : Nat} (hid : g.InBody id) :
    g.alwaysMatch.expr id = true ↔ g.Certain id :=
  ⟨g.alwaysMatchPass_sound.exprs id, h id hid⟩

theorem Unshared.ownBody (h : g.Unshared) {r : Nat} {rule : Rule} (hrule : g.rule? r = some rule) :
    g.OwnBody r rule.body := by
  obtain ⟨_, hbodies, hdisjoint⟩ := List.nodup_append.1 h
  have hmem {other : Nat} {rule' : Rule} (h' : g.rule? other = some rule') :
      (g.rules.map (·.body))[other]? = some rule'.body := by
    rw [List.getElem?_map, show g.rules[other]? = some rule' from h', Option.map_some]
  refine ⟨⟨rule, hrule, rfl⟩, fun other rule' hrule' hsame => ?_, fun n hn hinner => ?_⟩
  · have hlt : other < (g.rules.map (·.body)).length :=
      (List.getElem?_eq_some_iff.1 (hmem hrule')).1
    exact (List.getElem?_inj hlt hbodies).1 (by rw [hmem hrule', hmem hrule, hsame])
  · exact hdisjoint _ (List.mem_flatMap.2 ⟨n, hn, hinner⟩) _
      (List.mem_of_getElem? (hmem hrule)) rfl

theorem Unshared.rule_eq_expr (h : g.Unshared) {r : Nat} {rule : Rule}
    (hrule : g.rule? r = some rule) : g.alwaysMatch.rule r = g.alwaysMatch.expr rule.body :=
  (alwaysMatchPass_agrees (h.ownBody hrule)).rule_eq_expr

theorem Complete.consistentAt (hcomplete : g.Complete g.alwaysMatch) (hunshared : g.Unshared)
    {id : Nat} (hid : g.InBody id) : g.ConsistentAt g.alwaysMatch id where
  sequence := by
    intro is span hnode
    rw [hcomplete.expr_iff hid, certain_iff hnode]
    refine forall₂_congr fun i hi => ?_
    exact (hcomplete.expr_iff (hid.inner hnode hi)).symm
  choice := by
    intro is span hnode
    rw [hcomplete.expr_iff hid, certain_iff hnode]
    refine exists_congr fun i => and_congr_right fun hi => ?_
    exact (hcomplete.expr_iff (hid.inner hnode hi)).symm
  same := by
    intro w i span hkind hnode
    have houtcome := w.outcome_eq_same_iff.2 hkind
    rw [Bool.eq_iff_iff, hcomplete.expr_iff hid,
      hcomplete.expr_iff (hid.inner hnode List.mem_cons_self), certain_iff hnode]
    simp [CertainBy, houtcome]
  always := by
    intro w i span hkind hnode
    have houtcome : w.outcome = .always := by
      cases w <;> simp_all [Wrapper.kind, Wrapper.outcome]
    rw [hcomplete.expr_iff hid, certain_iff hnode]
    simp [CertainBy, houtcome]
  call := by
    intro call target span hnode
    obtain ⟨rule, hrule⟩ := g.exists_rule_of_target hnode
    rw [Bool.eq_iff_iff, hcomplete.expr_iff hid, hunshared.rule_eq_expr hrule,
      hcomplete.expr_iff (inBody_of_rule hrule), AlwaysMatch.certain_ruleRef_iff hnode hrule]

theorem Complete.leafConsistentAt (hcomplete : g.Complete g.alwaysMatch) {id : Nat}
    (hid : g.InBody id) : g.LeafConsistentAt g.alwaysMatch id := by
  intro l span hnode hleaf
  rw [Bool.eq_iff_iff, hcomplete.expr_iff hid, AlwaysMatch.certain_leaf_iff hnode hleaf]

/-! ### What is consistent is complete -/

/-- Consistent answers mark a leaf that always matches. -/
theorem Consistent.marks_leaf {answers : AlwaysMatch} (h : g.Consistent answers) {id : Nat}
    (hid : g.InBody id) {l : Leaf Nat} {span : Span} (hnode : g.node? id = some ⟨.leaf l, span⟩)
    (hl : l.alwaysMatches = true) : answers.expr id = true := by
  rw [h.leaves id hid l span hnode, hl]
  rintro ⟨call, target, rfl⟩
  cases hl

/-- Consistent answers mark what passes on the answer of a marked expression. -/
theorem Consistent.marks_wrap {answers : AlwaysMatch} (h : g.Consistent answers) {id i : Nat}
    (hid : g.InBody id) {w : Wrapper} {span : Span} (hnode : g.node? id = some ⟨.wrap w i, span⟩)
    (hkind : w.kind ∈ [.named, .labeled, .picked, .text, .simpleAnd, .simpleNot])
    (hinner : g.InBody i → answers.expr i = true) : answers.expr id = true := by
  rw [(h.parts id hid).same w i span hkind hnode]
  exact hinner (hid.inner hnode List.mem_cons_self)

/-- Consistent answers are complete if every rule has the answer for its body. -/
theorem Consistent.complete {answers : AlwaysMatch} (h : g.Consistent answers)
    (hrules : ∀ r rule, g.rule? r = some rule → answers.rule r = answers.expr rule.body) :
    g.Complete answers := by
  intro id hid hcertain
  induction hcertain with
  | literal hnode => exact h.marks_leaf hid hnode rfl
  | charClass hnode => exact h.marks_leaf hid hnode rfl
  | any hnode => exact h.marks_leaf hid hnode rfl
  | optional hnode => exact (h.parts _ hid).always _ _ _ (by simp [Wrapper.kind]) hnode
  | zeroOrMore hnode => exact (h.parts _ hid).always _ _ _ (by simp [Wrapper.kind]) hnode
  | action hnode => exact (h.parts _ hid).always _ _ _ (by simp [Wrapper.kind]) hnode
  | sequence hnode _ ih =>
      exact ((h.parts _ hid).sequence _ _ hnode).2 fun i hi => ih i hi (hid.inner hnode hi)
  | choice hnode hi _ ih =>
      exact ((h.parts _ hid).choice _ _ hnode).2 ⟨_, hi, ih (hid.inner hnode hi)⟩
  | named hnode _ ih => exact h.marks_wrap hid hnode (by simp [Wrapper.kind]) ih
  | labeled hnode _ ih => exact h.marks_wrap hid hnode (by simp [Wrapper.kind]) ih
  | picked hnode _ ih => exact h.marks_wrap hid hnode (by simp [Wrapper.kind]) ih
  | text hnode _ ih => exact h.marks_wrap hid hnode (by simp [Wrapper.kind]) ih
  | simpleAnd hnode _ ih => exact h.marks_wrap hid hnode (by simp [Wrapper.kind]) ih
  | simpleNot hnode _ ih => exact h.marks_wrap hid hnode (by simp [Wrapper.kind]) ih
  | ruleRef hnode hrule _ ih =>
      rw [(h.parts _ hid).call _ _ _ hnode, hrules _ _ hrule]
      exact ih (inBody_of_rule hrule)

theorem Straight.complete (h : g.Straight) : g.Complete g.alwaysMatch := by
  rintro id ⟨r, rule, hrule, hpath⟩ hcertain
  exact ((alwaysMatch_iff_certain_of_straight h hrule).2 id hpath).2 hcertain

/-- The answers of the analysis are consistent exactly if they leave out nothing that is certain,
and those of a straight grammar leave out nothing. -/
theorem consistent_iff_complete (hunshared : g.Unshared) :
    (g.Consistent g.alwaysMatch ↔ g.Complete g.alwaysMatch) ∧
      (g.Straight → g.Consistent g.alwaysMatch) := by
  have hconsistent (hcomplete : g.Complete g.alwaysMatch) : g.Consistent g.alwaysMatch :=
    ⟨fun _ hid => hcomplete.consistentAt hunshared hid, fun _ hid => hcomplete.leafConsistentAt hid⟩
  refine ⟨⟨fun h => h.complete fun _ _ => hunshared.rule_eq_expr, hconsistent⟩, fun h => ?_⟩
  exact hconsistent h.complete

end Grammar

namespace ConsistentWitness

/-- `A` is the text of nothing and then perhaps `A`, and `B` is the letter. -/
def circle : Grammar where
  rules := [⟨"A", [], 4, .unknown⟩, ⟨"B", [], 5, .unknown⟩]
  exprs := [⟨.leaf (.literal "" false), .unknown⟩, ⟨.wrap .text 0, .unknown⟩,
    ⟨.leaf (.ruleRef ⟨"A", []⟩ 0), .unknown⟩, ⟨.wrap .optional 2, .unknown⟩,
    ⟨.group .sequence [1, 3], .unknown⟩, ⟨.leaf (.literal "b" false), .unknown⟩]
  start := [0]
  stream := []
  children_precede := by
    intro i n hn
    rcases i with _ | _ | _ | _ | _ | _ | i <;> cases hn <;> simp [Expr.children]
  bodies_below := by simp [BodiesBelow]
  targets_below := by simp [Expr.target?, Leaf.target?]
  names_nodup := by decide
  entries_below := by simp

/-- A body spends a level, and two on the way to some expressions. -/
def bound (deep : List Nat) (id : Nat) : Nat :=
  if id ∈ deep then 2 else 1

theorem spent_le_two {g : Grammar} (deep : List Nat)
    (hkeeps : ∀ id < g.exprs.length, ∀ n ∈ g.node? id,
      g.keepsTo false (bound deep) (bound deep id) n.expr = true)
    {spent id : Nat} (h : g.Spends false spent id) : spent ≤ 2 := by
  have hbound : ∀ id, 1 ≤ bound deep id ∧ bound deep id ≤ 2 := by
    intro id
    unfold bound
    split <;> omega
  exact Nat.le_trans (h.le_bound (fun rule _ => (hbound rule.body).1) hkeeps) (hbound id).2

/-- In the circle the sequence is marked but the text in it is not: after the sequence has taken the
answer of the text, the circle comes back to the text with no level left. -/
theorem not_consistent_around :
    circle.Unshared ∧ AlwaysMatch.WithinLimit circle false ∧ circle.InBody 4 ∧
      ¬ circle.ConsistentAt circle.alwaysMatch 4 := by
  refine ⟨?_, ?_, ⟨0, _, rfl, .refl⟩, ?_⟩
  · unfold Grammar.Unshared
    decide
  · intro spent id h
    exact Nat.lt_of_le_of_lt (spent_le_two [0] (by decide) h) (by decide)
  · intro h
    have hall := (h.sequence [1, 3] .unknown rfl).1 (by decide)
    exact absurd (hall 1 List.mem_cons_self) (by decide)

/-- `A` is the letter and then `A` under a label, or nothing, and `B` is `A` under a label. -/
def letters : Grammar where
  rules := [⟨"A", [], 5, .unknown⟩, ⟨"B", [], 7, .unknown⟩]
  exprs := [⟨.leaf (.literal "x" false), .unknown⟩, ⟨.leaf (.ruleRef ⟨"A", []⟩ 0), .unknown⟩,
    ⟨.wrap (.labeled "rest") 1, .unknown⟩, ⟨.group .sequence [0, 2], .unknown⟩,
    ⟨.leaf (.literal "" false), .unknown⟩, ⟨.group .choice [3, 4], .unknown⟩,
    ⟨.leaf (.ruleRef ⟨"A", []⟩ 0), .unknown⟩, ⟨.wrap (.labeled "all") 6, .unknown⟩]
  start := [1]
  stream := []
  children_precede := by
    intro i n hn
    rcases i with _ | _ | _ | _ | _ | _ | _ | _ | i <;> cases hn <;> simp [Expr.children]
  bodies_below := by simp [BodiesBelow]
  targets_below := by simp [Expr.target?, Leaf.target?]
  names_nodup := by decide
  entries_below := by simp

theorem letters_target {id target : Nat} {call : Call} {span : Span}
    (h : letters.node? id = some ⟨.leaf (.ruleRef call target), span⟩) : target = 0 := by
  rcases id with _ | _ | _ | _ | _ | _ | _ | _ | id <;> cases h <;> rfl

theorem letters_canSkip : letters.CanSkip 0 5 where
  mentions := by
    intro id w i span _ hnode hsame _
    rcases id with _ | _ | _ | _ | _ | _ | _ | _ | id <;> cases hnode
    · exact ⟨1, ⟨"A", []⟩, .unknown, .single ⟨_, rfl, List.mem_cons_self⟩, rfl⟩
    · exact ⟨6, ⟨"A", []⟩, .unknown, .single ⟨_, rfl, List.mem_cons_self⟩, rfl⟩
  evident := fun _ => .choice rfl (by decide : 4 ∈ [3, 4]) (.leaf rfl rfl)

theorem letters_straight : letters.Straight := by
  refine Grammar.straight_of_looksBack ?_ ?_ ?_
  · intro r rule id call target span _ _ hnode
    rw [letters_target hnode]
    exact Nat.zero_le r
  · intro spent id h
    have hle := spent_le_two [1, 6] (by decide) h
    exact Nat.lt_of_le_of_lt (Nat.succ_le_succ hle) (by decide)
  · rintro r rule hrule ⟨id, call, span, hwithin, hnode⟩
    obtain rfl := letters_target hnode
    cases hrule
    exact letters_canSkip

/-- The body of `A` is visited three times, each time with fewer levels left, and the answers are
consistent. -/
theorem consistent_repeated :
    letters.Unshared ∧ letters.Straight ∧
      letters.alwaysMatchPass.events =
        [.alwaysMatch 0 true, .alwaysMatch 0 true, .alwaysMatch 0 true, .alwaysMatch 1 true] ∧
      letters.Consistent letters.alwaysMatch ∧ letters.alwaysMatch.expr 7 = true := by
  have hunshared : letters.Unshared := by
    unfold Grammar.Unshared
    decide
  exact ⟨hunshared, letters_straight, by decide,
    (Grammar.consistent_iff_complete hunshared).2 letters_straight, by decide⟩

end ConsistentWitness

end Packrat
