import Packrat.Proofs.Compile.Plans
import Packrat.Proofs.Plan.Class
import Packrat.Proofs.Plan.Literal

/-!
# Agreement of answers and plans

The analysis and the compilation each decide for themselves which literals and classes match
whatever comes.  They agree on literals, and on classes as long as input remains: the inverted class
without items is taken to match always, but its plan is that of any single character.  Main
statement: `exec_plan_of_alwaysMatch`.
-/

namespace Packrat

open Text

variable {reg : Reg} {input : Text} {pos : Nat}

/-- The plan of the empty literal matches everywhere. -/
theorem exec_ofLiteral_empty (ignoreCase : Bool) (hreg : reg.index < 4)
    (hpos : isBoundary pos input = true) :
    (MatchPlan.ofLiteral "" ignoreCase reg).exec input pos = .ok ⟨some [], pos⟩ := by
  obtain ⟨rest, hrest⟩ := exists_readFrom hpos
  have hmatches : literalMatches "".toList ignoreCase rest = true := by
    cases ignoreCase <;> simp [literalMatches]
  rw [exec_ofLiteral_eq "" ignoreCase hreg hrest, hmatches]
  rfl

/-- The plan of the inverted class without items matches wherever input remains. -/
theorem exec_ofClass_empty (ignoreCase small : Bool) (hreg : reg.index < 4)
    (hpos : isBoundary pos input = true) :
    ∃ r, (MatchPlan.ofClass ⟨[], true, ignoreCase⟩ reg small).exec input pos = .ok r ∧
      (r.matched.isSome = true ↔ pos < byteLength input) := by
  obtain ⟨rest, hrest⟩ := exists_readFrom hpos
  refine ⟨_, exec_ofClass_eq _ small hreg hrest, ?_⟩
  rw [byteLength_of_readFrom hrest]
  cases rest with
  | nil => simp [oneChar]
  | cons c cs =>
      have hmore : 0 < c.utf8Size + byteLength cs := Nat.add_pos_left c.utf8Size_pos _
      simp [oneChar, CharClass.matchesChar, hmore]

namespace Grammar

variable {g : Grammar} {id : Nat} {l : Leaf Nat} {span : Span}

/-- A literal that the analysis marks is empty, and a class that it marks is inverted and has no
items. -/
theorem empty_of_alwaysMatch (hnode : g.node? id = some ⟨.leaf l, span⟩)
    (hkind : l.kind = .literal ∨ l.kind = .charClass) (h : g.alwaysMatch.expr id = true) :
    (∃ ignoreCase, l = .literal "" ignoreCase) ∨
      ∃ ignoreCase, l = .charClass ⟨[], true, ignoreCase⟩ := by
  have hcertain := (certain_iff hnode).1 (g.alwaysMatchPass_sound.exprs id h)
  cases l with
  | literal value ignoreCase =>
      obtain rfl : value = "" := by simpa [CertainBy, Leaf.alwaysMatches] using hcertain
      exact Or.inl ⟨ignoreCase, rfl⟩
  | charClass cls =>
      obtain ⟨parts, inverted, ignoreCase⟩ := cls
      obtain ⟨rfl, rfl⟩ : parts = [] ∧ inverted = true := by
        simpa [CertainBy, Leaf.alwaysMatches] using hcertain
      exact Or.inr ⟨ignoreCase, rfl⟩
  | _ => simp [Leaf.kind] at hkind

/-- The plan of a literal or class that the analysis marks matches everywhere, save for that of a
class at the end of input. -/
theorem exec_plan_of_alwaysMatch (options : CompileOptions) (hid : g.InBody id)
    (hnode : g.node? id = some ⟨.leaf l, span⟩)
    (hkind : l.kind = .literal ∨ l.kind = .charClass) (h : g.alwaysMatch.expr id = true) :
    ∃ plan, (g.compile options).plan? id = some plan ∧
      ∀ (input : Text) (pos : Nat), isBoundary pos input = true →
        ∃ r, plan.exec input pos = .ok r ∧
          (r.matched.isSome = true ↔ l.kind = .literal ∨ pos < byteLength input) := by
  have htree : g.tree id = .leaf id l := g.tree_eq hnode
  have hreg : Compilation.resultReg.index < 4 := by decide
  rcases empty_of_alwaysMatch hnode hkind h with ⟨ignoreCase, rfl⟩ | ⟨ignoreCase, rfl⟩
  · refine ⟨.ofLiteral "" ignoreCase Compilation.resultReg, ?_, fun input pos hpos => ?_⟩
    · rw [plan?_eq_some_iff, htree]
      exact ⟨hid, rfl⟩
    · exact ⟨_, exec_ofLiteral_empty ignoreCase hreg hpos, by simp [Leaf.kind]⟩
  · refine ⟨.ofClass ⟨[], true, ignoreCase⟩ Compilation.resultReg options.small, ?_,
      fun input pos hpos => ?_⟩
    · rw [plan?_eq_some_iff, htree]
      exact ⟨hid, rfl⟩
    · obtain ⟨r, hexec, hmatched⟩ := exec_ofClass_empty ignoreCase options.small hreg hpos
      exact ⟨r, hexec, by simp [Leaf.kind, hmatched]⟩

end Grammar

namespace AgreementWitness

/-- One rule: nothing, and then a character of the inverted class without items. -/
def grammar : Grammar where
  rules := [⟨"A", [], 2, .unknown⟩]
  exprs := [⟨.leaf (.literal "" true), .unknown⟩, ⟨.leaf (.charClass ⟨[], true, false⟩), .unknown⟩,
    ⟨.group .sequence [0, 1], .unknown⟩]
  start := [0]
  stream := []
  children_precede := by
    intro i n hn
    rcases i with _ | _ | _ | i <;> cases hn <;> simp [Expr.children]
  bodies_below := by simp [BodiesBelow]
  targets_below := by simp [Expr.target?, Leaf.target?]
  names_nodup := by decide
  entries_below := by simp

theorem inBody_items : grammar.InBody 0 ∧ grammar.InBody 1 := by
  have hnode : grammar.node? 2 = some ⟨.group .sequence [0, 1], .unknown⟩ := rfl
  have hbody : grammar.InBody 2 := ⟨0, _, rfl, .refl⟩
  exact ⟨hbody.inner hnode (by decide), hbody.inner hnode (by decide)⟩

/-- The literal matches everywhere, the class where input remains. -/
theorem exec_plan_items :
    (grammar.alwaysMatch.expr 0 = true ∧
        ∃ plan, (grammar.compile ⟨true, true⟩).plan? 0 = some plan ∧
        ∀ (input : Text) (pos : Nat), isBoundary pos input = true →
          ∃ r, plan.exec input pos = .ok r ∧ r.matched.isSome = true) ∧
      grammar.alwaysMatch.expr 1 = true ∧
        ∃ plan, (grammar.compile ⟨true, true⟩).plan? 1 = some plan ∧
        ∀ (input : Text) (pos : Nat), isBoundary pos input = true →
          ∃ r, plan.exec input pos = .ok r ∧
            (r.matched.isSome = true ↔ pos < byteLength input) := by
  have hliteral : grammar.alwaysMatch.expr 0 = true := by decide
  have hclass : grammar.alwaysMatch.expr 1 = true := by decide
  refine ⟨⟨hliteral, ?_⟩, hclass, ?_⟩
  · obtain ⟨plan, hplan, hexec⟩ := Grammar.exec_plan_of_alwaysMatch ⟨true, true⟩ inBody_items.1 rfl
      (Or.inl rfl) hliteral
    refine ⟨plan, hplan, fun input pos hpos => ?_⟩
    obtain ⟨r, hr, hmatched⟩ := hexec input pos hpos
    exact ⟨r, hr, hmatched.2 (Or.inl rfl)⟩
  · obtain ⟨plan, hplan, hexec⟩ := Grammar.exec_plan_of_alwaysMatch ⟨true, true⟩ inBody_items.2 rfl
      (Or.inr rfl) hclass
    refine ⟨plan, hplan, fun input pos hpos => ?_⟩
    obtain ⟨r, hr, hmatched⟩ := hexec input pos hpos
    exact ⟨r, hr, by simpa [Leaf.kind] using hmatched⟩

/-- At the end of input the class is marked, and its plan fails. -/
theorem not_exec_marked_class :
    grammar.InBody 1 ∧ grammar.alwaysMatch.expr 1 = true ∧ isBoundary 0 [] = true ∧
      ∃ plan, (grammar.compile ⟨false, false⟩).plan? 1 = some plan ∧
        plan.exec [] 0 = .ok ⟨none, 0⟩ :=
  ⟨inBody_items.2, by decide, rfl, .any ⟨0⟩, rfl, rfl⟩

end AgreementWitness

end Packrat
