import Packrat.Proofs.Text.CaseMap

/-!
# Forms of a case

The case mappings lead to characters that they leave alone: no run of a table leads to a character
that a run of the same table moves on.  So a letter in titlecase, which is neither its own uppercase
nor its own lowercase, is not a case of any character.  Main statements:
`upperChar_of_upperChar_eq`, `lowerChar_of_lowerChar_eq`, `not_titlecase_of_case`.
-/

namespace Packrat.Text

/-- The first and the last code point that a run leads to. -/
def CaseRun.target (r : CaseRun) : CodeRange :=
  ⟨(r.first + r.offset).toNat, (r.last + r.offset).toNat⟩

/-- A run leads to nothing that another moves: it leads below or above that, or between its steps.
Each pair of runs of a table is tested, so the bounds are compared by what the kernel computes at
once. -/
def CaseRun.clears (r other : CaseRun) : Bool :=
  Nat.blt r.target.last other.first || Nat.blt other.last r.target.first ||
    (other.stride == 2 && (r.stride == 2 || r.first == r.last) &&
      (r.target.first + other.first) % 2 == 1)

theorem clears_lowerRuns : (lowerRuns.all fun r => lowerRuns.all r.clears) = true := by
  decide +kernel

theorem clears_upperRuns : (upperRuns.all fun r => upperRuns.all r.clears) = true := by
  decide +kernel

/-- No uppercase form has an expansion of its own. -/
theorem clears_upperExpansions :
    (upperRuns.all fun r => upperExpansions.all fun entry =>
      r.clears ⟨entry.1, entry.1, 1, 0⟩) = true := by
  decide +kernel

theorem CaseRun.image?_eq_none_of_clears {r other : CaseRun} {n m : Nat} (hkeeps : r.KeepsPlane)
    (hclears : r.clears other = true) (hfirst : r.first ≤ n) (hlast : n ≤ r.last)
    (hstep : (n - r.first) % r.stride = 0) (hmoved : (m : Int) = n + r.offset) :
    other.image? m = none := by
  refine if_neg ?_
  rintro ⟨hfrom, hto, hon⟩
  have hstart : (r.target.first : Int) = r.first + r.offset := by
    simp only [KeepsPlane] at hkeeps
    simp only [target]
    omega
  have hend : (r.target.last : Int) = r.last + r.offset := by
    simp only [KeepsPlane] at hkeeps
    simp only [target]
    omega
  simp only [clears, Bool.or_eq_true, Bool.and_eq_true, Nat.blt_eq, beq_iff_eq] at hclears
  rcases hclears with (hbelow | habove) | ⟨⟨htwo, hsteps⟩, hodd⟩
  · omega
  · omega
  · -- one of the two moves even distances from its start only, the other odd ones
    rw [htwo] at hon
    rcases hsteps with hsteps | hsingle
    · rw [hsteps] at hstep
      omega
    · omega

section Runs

variable {runs : List CaseRun}

/-- A table whose runs clear one another leaves alone what it leads to. -/
theorem mapByRuns_mapByRuns (hkeeps : ∀ r ∈ runs, r.KeepsPlane)
    (hclears : (runs.all fun r => runs.all r.clears) = true) (c : Char) :
    mapByRuns runs (mapByRuns runs c) = mapByRuns runs c := by
  rcases mapByRuns_cases hkeeps c with hsame | ⟨r, hr, hfirst, hlast, hstep, hmoved⟩
  · rw [hsame, hsame]
  · have hnone : runs.findSome? (·.image? (mapByRuns runs c).toNat) = none := by
      rw [List.findSome?_eq_none_iff]
      intro other hother
      have hclear := List.all_eq_true.1 (List.all_eq_true.1 hclears r hr) other hother
      exact CaseRun.image?_eq_none_of_clears (hkeeps r hr) hclear hfirst hlast hstep hmoved
    generalize mapByRuns runs c = d at hnone
    unfold mapByRuns
    rw [hnone]

end Runs

theorem lowerChar_of_lowerChar_eq {c d : Char} (h : lowerChar c = [d]) : lowerChar d = [d] := by
  have hc : c ≠ dottedI := by
    rintro rfl
    cases h
  rw [lowerChar_of_ne hc, List.singleton_inj] at h
  have hnone : ∀ r ∈ lowerRuns, r.first + r.offset ≤ 0x130 → ¬ 0x130 ≤ r.last + r.offset := by
    decide +kernel
  have hd : d ≠ dottedI := by
    rintro rfl
    exact hc (eq_of_mapByRuns_eq keepsPlane_lowerRuns hnone h)
  rw [lowerChar_of_ne hd, ← h, mapByRuns_mapByRuns keepsPlane_lowerRuns clears_lowerRuns]

theorem upperChar_of_upperChar_eq {c d : Char} (h : upperChar c = [d]) : upperChar d = [d] := by
  obtain ⟨hlookup, hmap⟩ := upperChar_eq_singleton_iff.1 h
  rw [upperChar_eq_singleton_iff, ← hmap]
  refine ⟨?_, mapByRuns_mapByRuns keepsPlane_upperRuns clears_upperRuns c⟩
  rcases mapByRuns_cases keepsPlane_upperRuns c with hsame | ⟨r, hr, hfirst, hlast, hstep, hmoved⟩
  · rw [hsame, hlookup]
  · rw [List.lookup_eq_none_iff]
    intro entry hentry
    rw [bne_iff_ne]
    intro hcode
    have hclear := List.all_eq_true.1 (List.all_eq_true.1 clears_upperExpansions r hr) entry hentry
    have himage := CaseRun.image?_eq_none_of_clears (keepsPlane_upperRuns r hr) hclear hfirst hlast
      hstep hmoved
    simp [CaseRun.image?, hcode] at himage

/-- A letter in titlecase is neither its own uppercase nor its own lowercase. -/
def Titlecase (c : Char) : Prop :=
  upperChar c ≠ [c] ∧ lowerChar c ≠ [c]

instance (c : Char) : Decidable (Titlecase c) :=
  inferInstanceAs (Decidable (_ ∧ _))

/-- No character has a letter in titlecase for a case of its own. -/
theorem not_titlecase_of_case {c d : Char} (h : upperChar d = [c] ∨ lowerChar d = [c]) :
    ¬ Titlecase c := by
  rintro ⟨hupper, hlower⟩
  rcases h with h | h
  · exact hupper (upperChar_of_upperChar_eq h)
  · exact hlower (lowerChar_of_lowerChar_eq h)

end Packrat.Text
