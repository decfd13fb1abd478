import Packrat.Parse.Session
import Packrat.Proofs.Plan.Literal

/-!
# The text that literals consume

A literal that heeds case consumes itself or nothing.  One that ignores case consumes any text of
its lowercase that is not longer, and what is shorter was cut off by the end of the input: there a
capital I with a dot passes for the two characters that its lowercase takes, and before any other
text it does not.  Main statements: `exec_ofLiteral_caseSensitive`, and exactly which literals that
ignore case consume texts that stand for themselves (`ofLiteral_standsAlone_iff`).
-/

namespace Packrat

open Text

variable {input rest : Text} {pos : Nat} {reg : Reg}

namespace Session

variable {V R : Type}

/-- The plan of a literal that heeds case matches where the rest of the input starts with the
literal, and consumes just that. -/
theorem exec_ofLiteral_caseSensitive (s : Session V R) (value : String)
    (hreg : reg.index < Registers.count) (hpos : isBoundary s.pos s.input = true) :
    ∃ rest, s.rest = .ok rest ∧
      s.exec (.ofLiteral value false reg) =
        .ok (if value.toList <+: rest then
            (some value.toList, s.setPos (s.pos + byteLength value.toList))
          else (none, s)) := by
  obtain ⟨rest, hrest⟩ := exists_readFrom hpos
  refine ⟨rest, hrest, ?_⟩
  have hmatches : literalMatches value.toList false rest = true ↔ value.toList <+: rest := by
    rw [literalMatches_caseSensitive, List.prefix_iff_eq_take, eq_comm]
  simp only [exec, exec_ofLiteral_eq value false hreg hrest, ok_bind]
  by_cases hstarts : value.toList <+: rest
  · have htake : rest.take value.toList.length = value.toList :=
      (List.prefix_iff_eq_take.1 hstarts).symm
    rw [if_pos hstarts, headOf, if_pos (hmatches.2 hstarts), htake]
  · rw [if_neg hstarts, headOf, if_neg (mt hmatches.1 hstarts)]
    rfl

end Session

/-- A plan consumes a text at some place in some input. -/
def MatchPlan.Consumes (plan : MatchPlan) (text : Text) : Prop :=
  ∃ input pos next, isBoundary pos input = true ∧ plan.exec input pos = .ok ⟨some text, next⟩

/-- All texts that the plan consumes have one number of characters. -/
def MatchPlan.HasLength (plan : MatchPlan) (count : Nat) : Prop :=
  ∀ text, plan.Consumes text → text.length = count

/-- What the plan consumes it consumes again where that text stands first, whatever follows. -/
def MatchPlan.StandsAlone (plan : MatchPlan) : Prop :=
  ∀ text, plan.Consumes text →
    ∀ after : Text, plan.exec (text ++ after) 0 = .ok ⟨some text, byteLength text⟩

section IgnoringCase

variable {value : String}

theorem exec_ofLiteral_ignoreCase_iff (hreg : reg.index < Registers.count)
    (hrest : readFrom input pos = .ok rest) {matched : Text} {next : Nat} :
    (MatchPlan.ofLiteral value true reg).exec input pos = .ok ⟨some matched, next⟩ ↔
      lower matched = lower value.toList ∧ rest.take value.toList.length = matched ∧
        next = pos + byteLength matched := by
  rw [exec_ofLiteral_eq value true hreg hrest, Except.ok.injEq, headOf_eq_some_iff]
  simp only [literalMatches, if_true, beq_iff_eq]
  constructor
  · rintro ⟨hlower, rfl, hnext⟩
    exact ⟨hlower, rfl, hnext⟩
  · rintro ⟨hlower, rfl, hnext⟩
    exact ⟨hlower, rfl, hnext⟩

/-- The texts that a literal consumes while ignoring case are those of its lowercase that are not
longer than it. -/
theorem consumes_ofLiteral_iff (hreg : reg.index < Registers.count) {text : Text} :
    (MatchPlan.ofLiteral value true reg).Consumes text ↔
      text.length ≤ value.toList.length ∧ lower text = lower value.toList := by
  constructor
  · rintro ⟨input, pos, next, hpos, hexec⟩
    obtain ⟨rest, hrest⟩ := exists_readFrom hpos
    obtain ⟨hlower, rfl, -⟩ := (exec_ofLiteral_ignoreCase_iff hreg hrest).1 hexec
    exact ⟨List.length_take_le .., hlower⟩
  · rintro ⟨hlength, hlower⟩
    refine ⟨text, 0, 0 + byteLength text, isBoundary_zero text, ?_⟩
    rw [exec_ofLiteral_ignoreCase_iff hreg (readFrom_zero text)]
    exact ⟨hlower, List.take_of_length_le hlength, rfl⟩

/-- A text that a literal consumes is consumed again before any other if it is as long. -/
theorem exec_ofLiteral_append (hreg : reg.index < Registers.count) {text : Text}
    (hlength : text.length = value.toList.length) (hlower : lower text = lower value.toList)
    (after : Text) :
    (MatchPlan.ofLiteral value true reg).exec (text ++ after) 0 =
      .ok ⟨some text, byteLength text⟩ := by
  rw [exec_ofLiteral_ignoreCase_iff hreg (readFrom_zero _)]
  refine ⟨hlower, ?_, (Nat.zero_add _).symm⟩
  rw [← hlength, List.take_left]

/-- A text that is shorter than the literal is not what the literal consumes before one character
more. -/
theorem exec_ofLiteral_append_ne (hreg : reg.index < Registers.count) {text : Text}
    (hshort : text.length < value.toList.length) (c : Char) (next : Nat) :
    (MatchPlan.ofLiteral value true reg).exec (text ++ [c]) 0 ≠ .ok ⟨some text, next⟩ := by
  intro hexec
  obtain ⟨-, htake, -⟩ := (exec_ofLiteral_ignoreCase_iff hreg (readFrom_zero _)).1 hexec
  have hcandidate : (text ++ [c]).take value.toList.length = text ++ [c] := by
    apply List.take_of_length_le
    rw [List.length_append, List.length_singleton]
    omega
  rw [hcandidate] at htake
  simp at htake

theorem ofLiteral_hasLength_iff (hreg : reg.index < Registers.count) :
    (MatchPlan.ofLiteral value true reg).HasLength value.toList.length ↔
      ¬ SpellsDottedI value.toList := by
  simp only [MatchPlan.HasLength, consumes_ofLiteral_iff hreg, spellsDottedI_iff]
  constructor
  · rintro hlength ⟨shorter, hshorter, hlower⟩
    have := hlength shorter ⟨Nat.le_of_lt hshorter, hlower⟩
    omega
  · rintro hnone text ⟨hle, hlower⟩
    exact Nat.le_antisymm hle (Nat.le_of_not_lt fun hlt => hnone ⟨text, hlt, hlower⟩)

/-- Exactly the literals that do not spell an I and its dot consume, while ignoring case, texts of
their own length only, and exactly these consume each such text again wherever it stands. -/
theorem ofLiteral_standsAlone_iff (hreg : reg.index < Registers.count) :
    ((MatchPlan.ofLiteral value true reg).HasLength value.toList.length ↔
        ¬ SpellsDottedI value.toList) ∧
      ((MatchPlan.ofLiteral value true reg).StandsAlone ↔ ¬ SpellsDottedI value.toList) := by
  refine ⟨ofLiteral_hasLength_iff hreg, ?_⟩
  constructor
  · intro halone hspells
    obtain ⟨shorter, hshorter, hlower⟩ := spellsDottedI_iff.1 hspells
    have hconsumes := (consumes_ofLiteral_iff hreg).2 ⟨Nat.le_of_lt hshorter, hlower⟩
    exact exec_ofLiteral_append_ne hreg hshorter 'x' _ (halone shorter hconsumes ['x'])
  · intro hnot text hconsumes after
    have hlength := (ofLiteral_hasLength_iff hreg).2 hnot text hconsumes
    exact exec_ofLiteral_append hreg hlength ((consumes_ofLiteral_iff hreg).1 hconsumes).2 after

end IgnoringCase

namespace LiteralTextWitness

/-- The cursor stands behind a letter of two bytes, before a character of four. -/
def session : Session Unit Unit := ⟨['é', '😀', 'b', 'b'], 2, .empty, .empty, .empty⟩

theorem exec_astral :
    (⟨3⟩ : Reg).index < Registers.count ∧ isBoundary session.pos session.input = true ∧
      session.exec (.ofLiteral "😀b" false ⟨3⟩) = .ok (some ['😀', 'b'], session.setPos 7) := by
  have hreg : (⟨3⟩ : Reg).index < Registers.count := by decide
  have hpos : isBoundary session.pos session.input = true := by decide
  refine ⟨hreg, hpos, ?_⟩
  obtain ⟨rest, hrest, hexec⟩ := session.exec_ofLiteral_caseSensitive "😀b" hreg hpos
  obtain rfl : rest = ['😀', 'b', 'b'] := (Except.ok.inj hrest).symm
  have hstarts : "😀b".toList <+: ['😀', 'b', 'b'] := ⟨['b'], rfl⟩
  rw [hexec, if_pos hstarts]
  rfl

/-- A small i and its dot. -/
def dotted : String := .ofList ['i', dotAbove]

/-- A sigma that ends a word is written in another way than one inside. -/
def word : String := "ὈΔΟΣ"

theorem word_standsAlone :
    (⟨3⟩ : Reg).index < Registers.count ∧
      (MatchPlan.ofLiteral word true ⟨3⟩).HasLength 4 ∧
      (MatchPlan.ofLiteral word true ⟨3⟩).StandsAlone ∧
      ¬ (MatchPlan.ofLiteral dotted true ⟨3⟩).StandsAlone := by
  have hreg : (⟨3⟩ : Reg).index < Registers.count := by decide
  have hword : ¬ SpellsDottedI word.toList := by decide
  have hdotted : SpellsDottedI dotted.toList := by decide
  exact ⟨hreg, (ofLiteral_standsAlone_iff hreg).1.2 hword,
    (ofLiteral_standsAlone_iff hreg).2.2 hword,
    fun halone => (ofLiteral_standsAlone_iff hreg).2.1 halone hdotted⟩

/-- At the end of the input one character passes for the two of the literal, before another it does
not. -/
theorem exec_dotted :
    let plan := MatchPlan.ofLiteral dotted true ⟨0⟩
    dotted.toList.length = 2 ∧ plan.exec ['İ'] 0 = .ok ⟨some ['İ'], 2⟩ ∧
      plan.exec ['İ', 'x'] 0 = .ok ⟨none, 0⟩ :=
  ⟨rfl, rfl, rfl⟩

end LiteralTextWitness

end Packrat
