import Packrat.Text.CaseMap
import Packrat.Text.Utf16

/-!
# Measures of case mappings

A character and its other case lie on the same side of the end of the Basic Multilingual Plane, and
only the capital I with a dot takes two characters in lowercase.  So two texts of one lowercase are
equally long in characters exactly if they are in code units (`length_eq_iff_of_lower_eq`), and a
text has a shorter one with the same lowercase exactly if it spells an I and its dot one by one
(`spellsDottedI_iff`).
-/

namespace Packrat.Text

/-- A character lies beyond the Basic Multilingual Plane. -/
def Astral (c : Char) : Prop :=
  0xFFFF < c.toNat

instance (c : Char) : Decidable (Astral c) :=
  inferInstanceAs (Decidable (_ < _))

/-- The capital I with a dot. -/
def dottedI : Char := 'İ'

/-- The dot that combines with the letter before it. -/
def dotAbove : Char := Char.ofNat 0x307

/-- A text writes an I and its dot as two characters. -/
def SpellsDottedI (cs : Text) : Prop :=
  ['i', dotAbove] <:+: cs ∨ ['I', dotAbove] <:+: cs

instance (cs : Text) : Decidable (SpellsDottedI cs) :=
  inferInstanceAs (Decidable (_ ∨ _))

theorem length_codeUnits_of_astral {c : Char} (h : Astral c) : (codeUnits c).length = 2 := by
  have hlarge : ¬ c.toNat < 0x10000 := by
    simp only [Astral] at h
    omega
  simp [codeUnits, hlarge]

theorem codeUnits_of_not_astral {c : Char} (h : ¬ Astral c) : codeUnits c = [c.toNat] := by
  have hsmall : c.toNat < 0x10000 := by
    simp only [Astral] at h
    omega
  exact if_pos hsmall

theorem length_codeUnits_eq {c d : Char} (h : Astral c ↔ Astral d) :
    (codeUnits c).length = (codeUnits d).length := by
  by_cases hc : Astral c
  · rw [length_codeUnits_of_astral hc, length_codeUnits_of_astral (h.1 hc)]
  · rw [codeUnits_of_not_astral hc, codeUnits_of_not_astral (mt h.2 hc)]
    rfl

/-- All code points that a run leads to are characters, on the same side of the end of the plane as
those it starts from. -/
def CaseRun.KeepsPlane (r : CaseRun) : Prop :=
  (r.last < 0x10000 ∧ 0 ≤ r.first + r.offset ∧ r.last + r.offset < 0xD800) ∨
    (r.last < 0x10000 ∧ 0xE000 ≤ r.first + r.offset ∧ r.last + r.offset < 0x10000) ∨
    (0x10000 ≤ r.first ∧ 0x10000 ≤ r.first + r.offset ∧ r.last + r.offset < 0x110000)

instance (r : CaseRun) : Decidable r.KeepsPlane :=
  inferInstanceAs (Decidable ((_ ∧ _ ∧ _) ∨ (_ ∧ _ ∧ _) ∨ (_ ∧ _ ∧ _)))

theorem keepsPlane_lowerRuns : ∀ r ∈ lowerRuns, r.KeepsPlane := by
  decide +kernel

theorem keepsPlane_upperRuns : ∀ r ∈ upperRuns, r.KeepsPlane := by
  decide +kernel

theorem two_le_length_of_mem_upperExpansions :
    ∀ entry ∈ upperExpansions, 2 ≤ entry.2.length := by
  decide +kernel

section Runs

variable {runs : List CaseRun}

/-- A character is mapped to itself or moved by a run that covers it. -/
theorem mapByRuns_cases (hruns : ∀ r ∈ runs, r.KeepsPlane) (c : Char) :
    mapByRuns runs c = c ∨ ∃ r ∈ runs, r.first ≤ c.toNat ∧ c.toNat ≤ r.last ∧
      (c.toNat - r.first) % r.stride = 0 ∧
        ((mapByRuns runs c).toNat : Int) = c.toNat + r.offset := by
  unfold mapByRuns
  cases hfind : runs.findSome? (·.image? c.toNat) with
  | none => exact Or.inl rfl
  | some n =>
      obtain ⟨r, hr, himage⟩ := List.exists_of_findSome?_eq_some hfind
      simp only [CaseRun.image?, Option.ite_none_right_eq_some, Option.some.injEq] at himage
      obtain ⟨⟨hfirst, hlast, hstep⟩, rfl⟩ := himage
      have hkeeps := hruns r hr
      simp only [CaseRun.KeepsPlane] at hkeeps
      have hvalid : ((c.toNat : Int) + r.offset).toNat.isValidChar := by
        simp only [Nat.isValidChar]
        omega
      refine Or.inr ⟨r, hr, hfirst, hlast, hstep, ?_⟩
      have hmoved : (Char.ofNat ((c.toNat : Int) + r.offset).toNat).toNat =
          ((c.toNat : Int) + r.offset).toNat := by
        rw [Char.ofNat, dif_pos hvalid]
        rfl
      rw [hmoved]
      omega

theorem astral_mapByRuns_iff (hruns : ∀ r ∈ runs, r.KeepsPlane) (c : Char) :
    Astral (mapByRuns runs c) ↔ Astral c := by
  rcases mapByRuns_cases hruns c with h | ⟨r, hr, hfirst, hlast, -, hmoved⟩
  · rw [h]
  · have hkeeps := hruns r hr
    simp only [CaseRun.KeepsPlane] at hkeeps
    simp only [Astral]
    omega

/-- Only the character itself is mapped to one that no run leads to. -/
theorem eq_of_mapByRuns_eq (hruns : ∀ r ∈ runs, r.KeepsPlane) {c d : Char}
    (hnone : ∀ r ∈ runs, r.first + r.offset ≤ d.toNat → ¬ d.toNat ≤ r.last + r.offset)
    (h : mapByRuns runs c = d) : c = d := by
  rcases mapByRuns_cases hruns c with hsame | ⟨r, hr, hfirst, hlast, -, hmoved⟩
  · exact hsame.symm.trans h
  · have hcode : ((mapByRuns runs c).toNat : Int) = d.toNat := by rw [h]
    exact absurd (by omega) (hnone r hr (by omega))

end Runs

theorem lowerChar_of_ne {c : Char} (h : c ≠ dottedI) : lowerChar c = [mapByRuns lowerRuns c] := by
  have hcode : c.toNat ≠ 0x130 := fun hcode => h (Char.toNat_inj.1 hcode)
  exact if_neg hcode

theorem single?_eq_some_iff {cs : Text} {c : Char} : single? cs = some c ↔ cs = [c] := by
  unfold single?
  split <;> simp_all

theorem astral_iff_of_lowerChar_eq {c d : Char} (h : lowerChar c = [d]) : Astral d ↔ Astral c := by
  by_cases hc : c = dottedI
  · subst hc
    cases h
  · rw [lowerChar_of_ne hc, List.singleton_inj] at h
    rw [← h]
    exact astral_mapByRuns_iff keepsPlane_lowerRuns c

theorem upperChar_eq_singleton_iff {c d : Char} :
    upperChar c = [d] ↔ upperExpansions.lookup c.toNat = none ∧ mapByRuns upperRuns c = d := by
  unfold upperChar
  cases hlookup : upperExpansions.lookup c.toNat with
  | none => simp
  | some codes =>
      -- an expansion is not a single character
      obtain ⟨front, rest, hentry, -⟩ := List.lookup_eq_some_iff.1 hlookup
      have hlong := two_le_length_of_mem_upperExpansions (c.toNat, codes) (by simp [hentry])
      simp only [reduceCtorEq, false_and, iff_false]
      intro h
      have hone := congrArg List.length h
      simp only [List.length_map, List.length_singleton] at hone hlong
      omega

theorem astral_iff_of_upperChar_eq {c d : Char} (h : upperChar c = [d]) : Astral d ↔ Astral c := by
  rw [← (upperChar_eq_singleton_iff.1 h).2]
  exact astral_mapByRuns_iff keepsPlane_upperRuns c

/-- Only the letter itself and its capital have the lowercase `i`. -/
theorem eq_of_mapByRuns_lowerRuns_eq_i {c : Char} (h : mapByRuns lowerRuns c = 'i') :
    c = 'i' ∨ c = 'I' := by
  have hoffset : ∀ r ∈ lowerRuns, r.first + r.offset ≤ 0x69 → 0x69 ≤ r.last + r.offset →
      r.offset = 32 := by
    decide +kernel
  rcases mapByRuns_cases keepsPlane_lowerRuns c with hsame | ⟨r, hr, hfirst, hlast, -, hmoved⟩
  · exact Or.inl (hsame.symm.trans h)
  · have hcode : ((mapByRuns lowerRuns c).toNat : Int) = 0x69 := by rw [h]; rfl
    have := hoffset r hr (by omega) (by omega)
    have hcapital : c.toNat = 0x49 := by omega
    exact Or.inr (Char.toNat_inj.1 hcapital)

/-- Only the dot itself has the dot for its lowercase. -/
theorem eq_of_mapByRuns_lowerRuns_eq_dotAbove {c : Char} (h : mapByRuns lowerRuns c = dotAbove) :
    c = dotAbove := by
  have hnone : ∀ r ∈ lowerRuns, r.first + r.offset ≤ 0x307 → ¬ 0x307 ≤ r.last + r.offset := by
    decide +kernel
  exact eq_of_mapByRuns_eq keepsPlane_lowerRuns hnone h

/-- The lowercase form of a character in its place, given the characters before it, the nearest
first, and those after it. -/
def lowerAt (before : Text) (c : Char) (after : Text) : Text :=
  if c.toNat = 0x3A3 then
    [Char.ofNat (if meetsCased before && !meetsCased after then 0x3C2 else 0x3C3)]
  else lowerChar c

section Place

variable {before after : Text} {c : Char}

theorem lowerAfter_cons (before : Text) (c : Char) (cs : Text) :
    lowerAfter before (c :: cs) = lowerAt before c cs ++ lowerAfter (c :: before) cs := rfl

theorem lowerAt_dottedI (before after : Text) :
    lowerAt before dottedI after = ['i', dotAbove] := rfl

/-- Any other character has one character in lowercase. -/
theorem exists_lowerAt_of_ne (h : c ≠ dottedI) (before after : Text) :
    ∃ d, lowerAt before c after = [d] ∧ (Astral d ↔ Astral c) ∧ (d = 'i' → c = 'i' ∨ c = 'I') ∧
      (d = dotAbove → c = dotAbove) := by
  unfold lowerAt
  by_cases hsigma : c.toNat = 0x3A3
  · -- both forms of the sigma are in the plane, and neither is the letter or the dot
    rw [if_pos hsigma]
    have hform : ∀ final : Bool, let d := Char.ofNat (if final then 0x3C2 else 0x3C3)
        d.toNat ≤ 0xFFFF ∧ d ≠ 'i' ∧ d ≠ dotAbove := by
      decide
    obtain ⟨hplane, hi, hdot⟩ := hform (meetsCased before && !meetsCased after)
    refine ⟨_, rfl, ?_, fun heq => absurd heq hi, fun heq => absurd heq hdot⟩
    simp only [Astral, hsigma]
    omega
  · rw [if_neg hsigma, lowerChar_of_ne h]
    exact ⟨_, rfl, astral_mapByRuns_iff keepsPlane_lowerRuns c, eq_of_mapByRuns_lowerRuns_eq_i,
      eq_of_mapByRuns_lowerRuns_eq_dotAbove⟩

end Place

section Lengths

theorem length_lowerAfter (before cs : Text) :
    (lowerAfter before cs).length = cs.length + cs.count dottedI := by
  induction cs generalizing before with
  | nil => rfl
  | cons c cs ih =>
      rw [lowerAfter_cons, List.length_append, ih]
      by_cases h : c = dottedI
      · subst h
        simp [lowerAt_dottedI]
        omega
      · obtain ⟨d, hd, -⟩ := exists_lowerAt_of_ne h before cs
        rw [hd, List.count_cons_of_ne h]
        simp
        omega

theorem length_utf16_lowerAfter (before cs : Text) :
    (utf16 (lowerAfter before cs)).length = (utf16 cs).length + cs.count dottedI := by
  induction cs generalizing before with
  | nil => rfl
  | cons c cs ih =>
      rw [lowerAfter_cons, utf16_append, List.length_append, ih]
      by_cases h : c = dottedI
      · subst h
        have hone : (codeUnits dottedI).length = 1 := rfl
        have htwo : (utf16 ['i', dotAbove]).length = 2 := rfl
        rw [lowerAt_dottedI, htwo, utf16_cons, List.length_append, hone, List.count_cons_self]
        omega
      · obtain ⟨d, hd, hastral, -⟩ := exists_lowerAt_of_ne h before cs
        have hsame := length_codeUnits_eq hastral
        simp only [hd, utf16_cons, utf16_nil, List.append_nil, List.length_append, hsame,
          List.count_cons_of_ne h]
        omega

/-- Texts of one lowercase differ by as many characters as code units. -/
theorem length_eq_iff_of_lower_eq {s t : Text} (h : lower s = lower t) :
    s.length = t.length ↔ (utf16 s).length = (utf16 t).length := by
  have hchars := congrArg List.length h
  have hunits := congrArg (fun cs => (utf16 cs).length) h
  simp only [lower, length_lowerAfter, length_utf16_lowerAfter] at hchars hunits
  omega

end Lengths

section Shorter

theorem spellsDottedI_cons_iff {c : Char} {cs : Text} :
    SpellsDottedI (c :: cs) ↔
      ((c = 'i' ∨ c = 'I') ∧ cs.head? = some dotAbove) ∨ SpellsDottedI cs := by
  have hprefix : [dotAbove] <+: cs ↔ cs.head? = some dotAbove := by
    cases cs <;> simp [List.cons_prefix_cons, eq_comm]
  simp only [SpellsDottedI, List.infix_cons_iff, List.cons_prefix_cons, hprefix, @eq_comm _ _ c]
  rw [or_and_right, or_or_or_comm]

/-- How often a small i stands before the dot. -/
def countDotted : Text → Nat
  | [] => 0
  | c :: cs => (if c = 'i' ∧ cs.head? = some dotAbove then 1 else 0) + countDotted cs

/-- Each capital I with a dot shows in lowercase as an i and its dot. -/
theorem count_le_countDotted (before cs : Text) :
    cs.count dottedI ≤ countDotted (lowerAfter before cs) := by
  induction cs generalizing before with
  | nil => exact Nat.zero_le _
  | cons c cs ih =>
      have hrest := ih (c :: before)
      rw [lowerAfter_cons]
      by_cases h : c = dottedI
      · subst h
        rw [List.count_cons_self, lowerAt_dottedI]
        simp only [List.cons_append, List.nil_append, countDotted, List.head?_cons, and_self,
          if_true]
        omega
      · obtain ⟨d, hd, -⟩ := exists_lowerAt_of_ne h before cs
        rw [List.count_cons_of_ne h, hd]
        simp only [List.cons_append, List.nil_append, countDotted]
        omega

theorem head?_of_head?_lowerAfter {before cs : Text}
    (h : (lowerAfter before cs).head? = some dotAbove) : cs.head? = some dotAbove := by
  cases cs with
  | nil => cases h
  | cons c cs =>
      rw [lowerAfter_cons] at h
      by_cases hc : c = dottedI
      · subst hc
        exact absurd (Option.some.inj h) (by decide)
      · obtain ⟨d, hd, -, -, hdot⟩ := exists_lowerAt_of_ne hc before cs
        rw [hd] at h
        rw [List.head?_cons, hdot (Option.some.inj h)]

/-- Nothing else shows so, unless the text spells it. -/
theorem countDotted_eq_of_not_spells {before cs : Text} (h : ¬ SpellsDottedI cs) :
    countDotted (lowerAfter before cs) = cs.count dottedI := by
  induction cs generalizing before with
  | nil => rfl
  | cons c cs ih =>
      rw [spellsDottedI_cons_iff, not_or] at h
      have hrest := @ih (c :: before) h.2
      rw [lowerAfter_cons]
      by_cases hc : c = dottedI
      · subst hc
        rw [List.count_cons_self, lowerAt_dottedI]
        have hdot : ¬ dotAbove = 'i' := by decide
        simp only [List.cons_append, List.nil_append, countDotted, List.head?_cons, and_self,
          if_true, hdot, false_and, if_false, hrest]
        omega
      · obtain ⟨d, hd, -, hletter, -⟩ := exists_lowerAt_of_ne hc before cs
        rw [List.count_cons_of_ne hc, hd]
        have hnot : ¬ (d = 'i' ∧ (lowerAfter (c :: before) cs).head? = some dotAbove) :=
          fun hpair => h.1 ⟨hletter hpair.1, head?_of_head?_lowerAfter hpair.2⟩
        simp only [List.cons_append, List.nil_append, countDotted, if_neg hnot, hrest]
        omega

theorem meetsCased_cons (c : Char) (cs : Text) :
    meetsCased (c :: cs) =
      if inRanges caseIgnorableRanges c then meetsCased cs else inRanges casedRanges c := by
  cases h : inRanges caseIgnorableRanges c <;> simp [meetsCased, h]

/-- What comes first decides only by what is met in the rest. -/
theorem meetsCased_append_congr {rest rest' : Text} (h : meetsCased rest = meetsCased rest')
    (cs : Text) : meetsCased (cs ++ rest) = meetsCased (cs ++ rest') := by
  induction cs with
  | nil => exact h
  | cons c cs ih => rw [List.cons_append, List.cons_append, meetsCased_cons, meetsCased_cons, ih]

/-- What stands before a text counts only by what is met in it. -/
theorem lowerAfter_congr {before before' : Text} (h : meetsCased before = meetsCased before')
    (cs : Text) : lowerAfter before cs = lowerAfter before' cs := by
  induction cs generalizing before before' with
  | nil => rfl
  | cons c cs ih =>
      have hnext : meetsCased (c :: before) = meetsCased (c :: before') := by
        rw [meetsCased_cons, meetsCased_cons, h]
      simp only [lowerAfter_cons, lowerAt, h, ih hnext]

theorem lowerAfter_append_congr {rest rest' : Text} (hmeets : meetsCased rest = meetsCased rest')
    (hlower : ∀ before, lowerAfter before rest = lowerAfter before rest') (before cs : Text) :
    lowerAfter before (cs ++ rest) = lowerAfter before (cs ++ rest') := by
  induction cs generalizing before with
  | nil => exact hlower before
  | cons c cs ih =>
      simp only [List.cons_append, lowerAfter_cons, lowerAt, meetsCased_append_congr hmeets, ih]

/-- Writing the I and its dot as one character keeps the lowercase. -/
theorem lower_eq_of_spelled {c : Char} (hc : c = 'i' ∨ c = 'I') (cs after : Text) :
    lower (cs ++ dottedI :: after) = lower (cs ++ c :: dotAbove :: after) := by
  have hcased : inRanges caseIgnorableRanges c = false ∧ inRanges casedRanges c = true ∧
      lowerChar c = ['i'] ∧ c.toNat ≠ 0x3A3 := by
    rcases hc with rfl | rfl <;> decide +kernel
  obtain ⟨hseen, hcase, hlower, hsigma⟩ := hcased
  have hdotted : inRanges caseIgnorableRanges dottedI = false ∧
      inRanges casedRanges dottedI = true ∧ inRanges caseIgnorableRanges dotAbove = true ∧
      lowerChar dotAbove = [dotAbove] := by
    decide +kernel
  obtain ⟨hseenI, hcaseI, hthrough, hdot⟩ := hdotted
  refine lowerAfter_append_congr ?_ (fun before => ?_) [] cs
  · simp [meetsCased_cons, hseen, hcase, hseenI, hcaseI]
  · have hbefore : meetsCased (dottedI :: before) = meetsCased (dotAbove :: c :: before) := by
      simp [meetsCased_cons, hseen, hcase, hseenI, hcaseI, hthrough]
    have hletter : lowerAt before c (dotAbove :: after) = ['i'] := by
      rw [lowerAt, if_neg hsigma, hlower]
    have hmark : lowerAt (c :: before) dotAbove after = [dotAbove] := hdot
    rw [lowerAfter_cons, lowerAfter_cons, lowerAfter_cons, lowerAt_dottedI, hletter, hmark,
      lowerAfter_congr hbefore]
    rfl

/-- A text has a shorter one with the same lowercase exactly if it spells an I and its dot. -/
theorem spellsDottedI_iff {cs : Text} :
    SpellsDottedI cs ↔ ∃ s : Text, s.length < cs.length ∧ lower s = lower cs := by
  constructor
  · intro h
    obtain ⟨c, hc, front, after, rfl⟩ : ∃ c, (c = 'i' ∨ c = 'I') ∧
        ∃ front after, front ++ [c, dotAbove] ++ after = cs := by
      rcases h with h | h
      · exact ⟨'i', Or.inl rfl, h⟩
      · exact ⟨'I', Or.inr rfl, h⟩
    refine ⟨front ++ dottedI :: after, by simp, ?_⟩
    rw [lower_eq_of_spelled hc]
    simp
  · rintro ⟨s, hshorter, hlower⟩
    apply Decidable.byContradiction
    intro hnot
    have hcount : s.count dottedI ≤ cs.count dottedI := by
      rw [← @countDotted_eq_of_not_spells [] cs hnot, ← lower, ← hlower]
      exact count_le_countDotted [] s
    have hlength := congrArg List.length hlower
    simp only [lower, length_lowerAfter] at hlength
    omega

end Shorter

end Packrat.Text
