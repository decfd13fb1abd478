import Mathlib.Data.List.Forall2
import Packrat.Analysis.AlwaysMatch
import Packrat.Proofs.Grammar.Unfold

/-!
# Certain expressions

The expressions that must succeed by the table of their kinds form a least set.  The analysis marks
no others, however rules refer to each other and wherever it gives up: each answer that it notes,
for good or for the time being, is false or certain.  Main statement: `certain_of_alwaysMatch`.
-/

namespace Packrat

/-- An expression is certain to succeed, by its kind. -/
inductive Grammar.Certain (g : Grammar) : Nat → Prop where
  | literal {id : Nat} {ignoreCase : Bool} {span : Span}
      (h : g.node? id = some ⟨.leaf (.literal "" ignoreCase), span⟩) : Certain g id
  | charClass {id : Nat} {ignoreCase : Bool} {span : Span}
      (h : g.node? id = some ⟨.leaf (.charClass ⟨[], true, ignoreCase⟩), span⟩) : Certain g id
  | any {id : Nat} {span : Span} (h : g.node? id = some ⟨.leaf .any, span⟩) : Certain g id
  | optional {id i : Nat} {span : Span} (h : g.node? id = some ⟨.wrap .optional i, span⟩) :
      Certain g id
  | zeroOrMore {id i : Nat} {span : Span} (h : g.node? id = some ⟨.wrap .zeroOrMore i, span⟩) :
      Certain g id
  | action {id i : Nat} {code : String} {span : Span}
      (h : g.node? id = some ⟨.wrap (.action code) i, span⟩) : Certain g id
  | sequence {id : Nat} {is : List Nat} {span : Span}
      (h : g.node? id = some ⟨.group .sequence is, span⟩) (hall : ∀ i ∈ is, Certain g i) :
      Certain g id
  | choice {id i : Nat} {is : List Nat} {span : Span}
      (h : g.node? id = some ⟨.group .choice is, span⟩) (hi : i ∈ is) (hany : Certain g i) :
      Certain g id
  | named {id i : Nat} {name : String} {span : Span}
      (h : g.node? id = some ⟨.wrap (.named name) i, span⟩) (hi : Certain g i) : Certain g id
  | labeled {id i : Nat} {label : String} {span : Span}
      (h : g.node? id = some ⟨.wrap (.labeled label) i, span⟩) (hi : Certain g i) : Certain g id
  | picked {id i : Nat} {span : Span} (h : g.node? id = some ⟨.wrap .picked i, span⟩)
      (hi : Certain g i) : Certain g id
  | text {id i : Nat} {span : Span} (h : g.node? id = some ⟨.wrap .text i, span⟩)
      (hi : Certain g i) : Certain g id
  | simpleAnd {id i : Nat} {span : Span} (h : g.node? id = some ⟨.wrap .simpleAnd i, span⟩)
      (hi : Certain g i) : Certain g id
  | simpleNot {id i : Nat} {span : Span} (h : g.node? id = some ⟨.wrap .simpleNot i, span⟩)
      (hi : Certain g i) : Certain g id
  | ruleRef {id target : Nat} {call : Call} {span : Span} {rule : Rule}
      (h : g.node? id = some ⟨.leaf (.ruleRef call target), span⟩)
      (hrule : g.rule? target = some rule) (hbody : Certain g rule.body) : Certain g id

/-- All items of a sequence, or one of a choice, are as a fact says. -/
def Grouping.Holds (fact : Nat → Prop) (is : List Nat) : Grouping → Prop
  | .sequence => ∀ i ∈ is, fact i
  | .choice => ∃ i ∈ is, fact i

theorem Grouping.Holds.imp {fact other : Nat → Prop} {is : List Nat} {k : Grouping}
    (h : k.Holds fact is) (himp : ∀ i ∈ is, fact i → other i) : k.Holds other is := by
  cases k with
  | sequence => exact fun i hi => himp i hi (h i hi)
  | choice =>
      obtain ⟨i, hi, hany⟩ := h
      exact ⟨i, hi, himp i hi hany⟩

/-- The body of a rule is certain to succeed. -/
def Grammar.CertainRule (g : Grammar) (r : Nat) : Prop :=
  ∃ rule, g.rule? r = some rule ∧ g.Certain rule.body

namespace AlwaysMatch

/-- All that a pass has noted so far is certain. -/
structure Pass.Sound (g : Grammar) (p : Pass) : Prop where
  exprs : ∀ id, p.exprs id = true → g.Certain id
  memo : ∀ r, p.memo r = some true → g.CertainRule r

/-- A visit keeps a pass sound and answers yes only where a fact holds. -/
def SoundVisit (g : Grammar) (visit : Pass → Bool × Pass) (fact : Prop) : Prop :=
  ∀ p, p.Sound g → (visit p).2.Sound g ∧ ((visit p).1 = true → fact)

section

variable {g : Grammar}

theorem Pass.Sound.setExpr {p : Pass} (h : p.Sound g) {id : Nat} {answer : Bool}
    (hanswer : answer = true → g.Certain id) : (p.setExpr id answer).Sound g where
  exprs := by
    intro i hi
    by_cases heq : i = id
    · subst heq
      exact hanswer (by simpa [Pass.setExpr] using hi)
    · exact h.exprs i (by simpa [Pass.setExpr, heq] using hi)
  memo := h.memo

theorem Pass.Sound.setRule {p : Pass} (h : p.Sound g) {r : Nat} {answer : Bool}
    (hanswer : answer = true → g.CertainRule r) : (p.setRule r answer).Sound g where
  exprs := h.exprs
  memo := by
    intro other hother
    by_cases heq : other = r
    · subst heq
      exact hanswer (by simpa [Pass.setRule] using hother)
    · exact h.memo other (by simpa [Pass.setRule, heq] using hother)

theorem certain_of_leaf {id : Nat} {l : Leaf Nat} {span : Span}
    (hnode : g.node? id = some ⟨.leaf l, span⟩) (h : l.alwaysMatches = true) : g.Certain id := by
  cases l with
  | literal value ignoreCase =>
      obtain rfl : value = "" := by simpa [Leaf.alwaysMatches] using h
      exact .literal hnode
  | charClass cls =>
      obtain ⟨parts, inverted, ignoreCase⟩ := cls
      obtain ⟨rfl, rfl⟩ : parts = [] ∧ inverted = true := by
        simpa [Leaf.alwaysMatches] using h
      exact .charClass hnode
  | any => exact .any hnode
  | semanticAnd | semanticNot | parameterAnd | parameterNot | labeledParam | ruleRef =>
      simp [Leaf.alwaysMatches] at h

/-- A wrapper that passes the answer of its inner expression on. -/
theorem certain_of_same {id i : Nat} {w : Wrapper} {span : Span}
    (hnode : g.node? id = some ⟨.wrap w i, span⟩) (h : w.outcome = .same)
    (hi : g.Certain i) : g.Certain id := by
  cases w with
  | labeled label => exact .labeled hnode hi
  | picked => exact .picked hnode hi
  | text => exact .text hnode hi
  | named name => exact .named hnode hi
  | simpleAnd => exact .simpleAnd hnode hi
  | simpleNot => exact .simpleNot hnode hi
  | action | optional | zeroOrMore | oneOrMore => cases h

theorem certain_of_always {id i : Nat} {w : Wrapper} {span : Span}
    (hnode : g.node? id = some ⟨.wrap w i, span⟩) (h : w.outcome = .always) : g.Certain id := by
  cases w with
  | action code => exact .action hnode
  | optional => exact .optional hnode
  | zeroOrMore => exact .zeroOrMore hnode
  | labeled | picked | text | named | simpleAnd | simpleNot | oneOrMore => cases h

theorem certain_of_holds {id : Nat} {k : Grouping} {is : List Nat} {span : Span}
    (hnode : g.node? id = some ⟨.group k is, span⟩) (h : k.Holds g.Certain is) : g.Certain id := by
  cases k with
  | sequence => exact .sequence hnode h
  | choice =>
      obtain ⟨i, hi, hany⟩ := h
      exact .choice hnode hi hany

theorem holds_of_combine {k : Grouping} {answers : List Bool} {is : List Nat} {fact : Nat → Prop}
    (h : List.Forall₂ (fun answer i => answer = true → fact i) answers is)
    (hcombine : k.combine answers = true) : k.Holds fact is := by
  cases k with
  | sequence =>
      intro i hi
      obtain ⟨n, hlt, rfl⟩ := List.mem_iff_getElem.1 hi
      have hlt' : n < answers.length := h.length_eq ▸ hlt
      have hall : ∀ answer ∈ answers, answer = true := by
        simpa [Grouping.combine] using hcombine
      exact h.get hlt' hlt (hall _ (List.getElem_mem hlt'))
  | choice =>
      have hany : true ∈ answers := by simpa [Grouping.combine] using hcombine
      obtain ⟨n, hlt, hn⟩ := List.mem_iff_getElem.1 hany
      have hlt' : n < is.length := h.length_eq ▸ hlt
      exact ⟨_, List.getElem_mem hlt', h.get hlt hlt' hn⟩

theorem combine_of_holds {k : Grouping} {answers : List Bool} {is : List Nat} {fact : Nat → Prop}
    (h : List.Forall₂ (fun answer i => fact i → answer = true) answers is)
    (hholds : k.Holds fact is) : k.combine answers = true := by
  induction h with
  | nil => cases k <;> simp_all [Grouping.combine, Grouping.Holds]
  | cons hanswer hrest ih =>
      cases k with
      | sequence =>
          obtain ⟨hi, his⟩ := List.forall_mem_cons.1 hholds
          have hrest := ih his
          simp_all [Grouping.combine]
      | choice =>
          obtain ⟨i, hi, hany⟩ := hholds
          rcases List.mem_cons.1 hi with rfl | hi
          · simp [Grouping.combine, hanswer hany]
          · have hrest := ih ⟨i, hi, hany⟩
            simp_all [Grouping.combine]

theorem visitEach_sound {defer : Tree → Pass → Bool × Pass} {enter : Nat → Pass → Bool × Pass}
    {is : List Nat} {tree : Nat → Tree}
    (hitems : ∀ i ∈ is, SoundVisit g (visitWith defer enter (tree i)) (g.Certain i)) {p : Pass}
    (hp : p.Sound g) :
    (visitEach defer enter (is.map tree) p).2.Sound g ∧
      List.Forall₂ (fun answer i => answer = true → g.Certain i)
        (visitEach defer enter (is.map tree) p).1 is := by
  induction is generalizing p with
  | nil => exact ⟨hp, .nil⟩
  | cons i is ih =>
      obtain ⟨hsound, hanswer⟩ := hitems i List.mem_cons_self p hp
      obtain ⟨hrest, hanswers⟩ := ih (fun j hj => hitems j (List.mem_cons_of_mem i hj)) hsound
      exact ⟨hrest, .cons hanswer hanswers⟩

/-- A leaf that is no reference answers by itself. -/
theorem visitWith_leaf {defer : Tree → Pass → Bool × Pass} {enter : Nat → Pass → Bool × Pass}
    {l : Leaf Nat} (hleaf : ¬ ∃ call target, l = .ruleRef call target) (id : Nat) (p : Pass) :
    visitWith defer enter (.leaf id l) p = (l.alwaysMatches, p.setExpr id l.alwaysMatches) := by
  cases l with
  | ruleRef call target => exact absurd ⟨call, target, rfl⟩ hleaf
  | _ => rfl

/-- A visit is sound if the visits that it leads to are, to inner expressions one level down and to
rules. -/
theorem visitWith_sound {defer : Tree → Pass → Bool × Pass} {enter : Nat → Pass → Bool × Pass}
    (hdefer : ∀ id t, g.Unfolds id t → SoundVisit g (defer t) (g.Certain id))
    (henter : ∀ r rule, g.rule? r = some rule → SoundVisit g (enter r) (g.CertainRule r))
    {id : Nat} {t : Tree} (ht : g.Unfolds id t) :
    SoundVisit g (visitWith defer enter t) (g.Certain id) := by
  induction ht with
  | @leaf id l span hnode =>
      intro p hp
      -- a reference has the answer for its rule, any other leaf answers by itself
      by_cases hcall : ∃ call target, l = .ruleRef call target
      · obtain ⟨call, target, rfl⟩ := hcall
        obtain ⟨rule, hrule⟩ := g.exists_rule_of_target hnode
        obtain ⟨hsound, hanswer⟩ := henter target rule hrule p hp
        have hcertain : (enter target p).1 = true → g.Certain id := by
          intro h
          obtain ⟨body, hbody, hcertain⟩ := hanswer h
          exact .ruleRef hnode hbody hcertain
        exact ⟨hsound.setExpr hcertain, hcertain⟩
      · rw [visitWith_leaf hcall]
        have hcertain := certain_of_leaf hnode
        exact ⟨hp.setExpr hcertain, hcertain⟩
  | @wrap id i w span inner hnode hinner ih =>
      intro p hp
      simp only [visitWith]
      cases houtcome : w.outcome with
      | same =>
          obtain ⟨hsound, hanswer⟩ := hdefer i inner hinner p hp
          have hcertain : (defer inner p).1 = true → g.Certain id := by
            intro h
            exact certain_of_same hnode houtcome (hanswer h)
          exact ⟨hsound.setExpr hcertain, hcertain⟩
      | always =>
          have hcertain := certain_of_always hnode houtcome
          exact ⟨(ih p hp).1.setExpr fun _ => hcertain, fun _ => hcertain⟩
      | never =>
          have hno : false = true → g.Certain id := by simp
          exact ⟨(ih p hp).1.setExpr hno, hno⟩
  | @group id k is span tree hnode hitems ih =>
      intro p hp
      obtain ⟨hsound, hanswers⟩ := visitEach_sound ih hp
      have hcertain : k.combine (visitEach defer enter (is.map tree) p).1 = true → g.Certain id :=
        fun h => certain_of_holds hnode (holds_of_combine hanswers h)
      exact ⟨hsound.setExpr hcertain, hcertain⟩

theorem memoize_sound {find : Nat → Pass → Bool × Pass} {r : Nat}
    (hfind : SoundVisit g (find r) (g.CertainRule r)) :
    SoundVisit g (memoize find r) (g.CertainRule r) := by
  intro p hp
  unfold memoize
  cases hmemo : p.memo r with
  | some answer =>
      refine ⟨hp, fun h => hp.memo r ?_⟩
      rw [hmemo, show answer = true from h]
  | none =>
      obtain ⟨hsound, hanswer⟩ := hfind p hp
      exact ⟨hsound.setRule hanswer, hanswer⟩

/-- Giving up is sound: it answers no. -/
theorem giveUp_sound (r : Nat) : SoundVisit g (giveUp r) (g.CertainRule r) := by
  intro p hp
  exact ⟨⟨hp.exprs, hp.memo⟩, by simp [giveUp]⟩

theorem visit_sound (levels : Nat) {id : Nat} {t : Tree} (ht : g.Unfolds id t) :
    SoundVisit g (visit g.body levels t) (g.Certain id) := by
  induction levels generalizing id t with
  | zero =>
      refine visitWith_sound (fun _ _ _ p hp => ⟨hp, by simp⟩) ?_ ht
      exact fun r _ _ => memoize_sound (giveUp_sound r)
  | succ levels ih =>
      refine visitWith_sound (fun _ _ h => ih h) ?_ ht
      intro r rule hrule
      apply memoize_sound
      intro p hp
      obtain ⟨hsound, hanswer⟩ := ih (g.unfolds_body hrule) p hp
      exact ⟨hsound, fun h => ⟨rule, hrule, hanswer h⟩⟩

theorem enter_sound (levels : Nat) {r : Nat} {rule : Rule} (hrule : g.rule? r = some rule) :
    SoundVisit g (enter g.body levels r) (g.CertainRule r) := by
  cases levels with
  | zero => exact memoize_sound (giveUp_sound r)
  | succ levels =>
      apply memoize_sound
      intro p hp
      obtain ⟨hsound, hanswer⟩ := visit_sound levels (g.unfolds_body hrule) p hp
      exact ⟨hsound, fun h => ⟨rule, hrule, hanswer h⟩⟩

theorem visitRules_sound {rules : List Nat} (hrules : ∀ r ∈ rules, ∃ rule, g.rule? r = some rule)
    {p : Pass} (hp : p.Sound g) : (visitRules g.body rules p).Sound g := by
  induction rules generalizing p with
  | nil => exact hp
  | cons r rules ih =>
      obtain ⟨rule, hrule⟩ := hrules r List.mem_cons_self
      refine ih (fun other hother => hrules other (List.mem_cons_of_mem r hother)) ?_
      exact (enter_sound _ hrule p hp).1

end

end AlwaysMatch

namespace Grammar

theorem alwaysMatchPass_sound (g : Grammar) : g.alwaysMatchPass.Sound g := by
  apply AlwaysMatch.visitRules_sound
  · intro r hr
    exact g.exists_rule_of_mem_ruleIds hr
  · exact ⟨by simp [AlwaysMatch.Pass.empty], by simp [AlwaysMatch.Pass.empty]⟩

/-- What the analysis marks is certain, expressions and rules alike. -/
theorem certain_of_alwaysMatch (g : Grammar) :
    (∀ id, g.alwaysMatch.expr id = true → g.Certain id) ∧
      ∀ r, g.alwaysMatch.rule r = true → ∃ rule, g.rule? r = some rule ∧ g.Certain rule.body := by
  refine ⟨g.alwaysMatchPass_sound.exprs, fun r hr => g.alwaysMatchPass_sound.memo r ?_⟩
  simpa [alwaysMatch, AlwaysMatch.ofPass] using hr

end Grammar

end Packrat
