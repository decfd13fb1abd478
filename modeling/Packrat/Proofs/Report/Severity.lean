import Packrat.Proofs.Report.Runs

/-!
# How severe a report is

A report is at least an error, and worse if one of its sections is.  Main statement: it is as severe
as its worst section, and as severe as its worst annotation unless all annotations that tell of a
fault of the compiler are without a label (`isWorstOf_level_iff`).
-/

namespace Packrat

namespace Level

/-- A level is among some levels, and none of them is more severe. -/
structure IsWorstOf (level : Level) (levels : List Level) : Prop where
  mem : level ∈ levels
  rank_le : ∀ other ∈ levels, level.rank ≤ other.rank

theorem rank_inj {a b : Level} (h : a.rank = b.rank) : a = b := by
  cases a <;> cases b <;> simp_all [rank]

theorem rank_worse (a b : Level) : (a.worse b).rank = min a.rank b.rank := by
  unfold worse
  split
  next h => exact (Nat.min_eq_left h).symm
  next h => exact (Nat.min_eq_right (Nat.le_of_not_le h)).symm

theorem worse_assoc (a b c : Level) : (a.worse b).worse c = a.worse (b.worse c) := by
  apply rank_inj
  simp only [rank_worse, Nat.min_assoc]

theorem worse_eq_or (a b : Level) : a.worse b = a ∨ a.worse b = b := by
  unfold worse
  split
  next => exact Or.inl rfl
  next => exact Or.inr rfl

/-- Only a fault of the compiler is more severe than an error. -/
theorem rank_lt_error_iff {level : Level} : level.rank < error.rank ↔ level = internalError := by
  cases level <;> simp [rank]

theorem isWorstOf_foldl (levels : List Level) (level : Level) :
    (levels.foldl worse level).IsWorstOf (level :: levels) := by
  induction levels generalizing level with
  | nil => exact ⟨List.mem_cons_self, by simp⟩
  | cons next levels ih =>
      have hrest := ih (level.worse next)
      have hrank := rank_worse level next
      refine ⟨?_, ?_⟩
      · rcases List.mem_cons.1 hrest.mem with heq | hmem
        · rw [List.foldl_cons, heq]
          rcases worse_eq_or level next with h | h <;> simp [h]
        · exact List.mem_cons_of_mem _ (List.mem_cons_of_mem _ hmem)
      · have hfirst := hrest.rank_le _ List.mem_cons_self
        intro other hother
        rw [List.foldl_cons]
        simp only [List.mem_cons] at hother
        rcases hother with rfl | rfl | hother
        · omega
        · omega
        · exact hrest.rank_le other (List.mem_cons_of_mem _ hother)

/-- The worst of an error and some levels is the worst of an error and more levels if and only if a
fault of the compiler is among the former if it is among the latter. -/
theorem IsWorstOf.iff_of_subset {level : Level} {kept all : List Level}
    (h : level.IsWorstOf (.error :: kept)) (hkept : kept ⊆ all) :
    level.IsWorstOf (.error :: all) ↔ (.internalError ∈ all → .internalError ∈ kept) := by
  have herror := h.rank_le _ List.mem_cons_self
  constructor
  · intro hall hfault
    have hle := hall.rank_le _ (List.mem_cons_of_mem _ hfault)
    have hlevel : level = .internalError :=
      rank_lt_error_iff.1 (Nat.lt_of_le_of_lt hle (by decide))
    have hmem := h.mem
    rw [hlevel, List.mem_cons] at hmem
    exact hmem.resolve_left (by decide)
  · intro hfault
    refine ⟨List.cons_subset_cons _ hkept h.mem, ?_⟩
    rw [List.forall_mem_cons]
    refine ⟨herror, fun other hother => ?_⟩
    by_cases hworse : other = .internalError
    · rw [hworse] at hother ⊢
      exact h.rank_le _ (List.mem_cons_of_mem _ (hfault hother))
    · have hmild := Nat.le_of_not_lt (mt rank_lt_error_iff.1 hworse)
      exact Nat.le_trans herror hmild

end Level

namespace Section

/-- Joining sections loses no level. -/
theorem foldl_worse_squash (sections : List Section) (level : Level) :
    ((squash sections).map (·.level)).foldl Level.worse level =
      (sections.map (·.level)).foldl Level.worse level := by
  induction sections generalizing level with
  | nil => rfl
  | cons s rest ih =>
      have hrest := ih (level.worse s.level)
      rw [List.map_cons, List.foldl_cons, ← hrest, squash]
      cases squash rest with
      | nil => rfl
      | cons t ts =>
          by_cases hspan : s.span = t.span
          · simp only [if_pos hspan, List.map_cons, List.foldl_cons, join, Level.worse_assoc]
          · simp only [if_neg hspan, List.map_cons, List.foldl_cons]

variable {width : Char → Option Nat} {catalog : Catalog} {annotations : List Annotation}
  {sections : List Section}

/-- An annotation without a label makes a section as severe as an error. -/
theorem level_of_ofAnnotation {a : Annotation} {s : Section}
    (h : Section.ofAnnotation width catalog a = .ok s) :
    s.level = if a.label.isSome then a.level else .error := by
  unfold ofAnnotation at h
  cases hlocate : catalog.locate width a.span with
  | error fault =>
      rw [hlocate] at h
      cases h
  | ok found =>
      rw [hlocate] at h
      cases found <;> cases h <;> rfl

theorem map_level_of_ofAnnotation (h : List.Forall₂
    (fun a s => Section.ofAnnotation width catalog a = .ok s) annotations sections) :
    sections.map (·.level) =
      annotations.map fun a => if a.label.isSome then a.level else .error := by
  induction h with
  | nil => rfl
  | cons hsection _ ih => rw [List.map_cons, List.map_cons, level_of_ofAnnotation hsection, ih]

end Section

namespace Report

section Sections

variable {width : Char → Option Nat} {catalog : Catalog} {annotations : List Annotation}
  (message : String) {sections : List Section}

/-- A report is as severe as its worst section. -/
theorem isWorstOf_level_sections (sections : List Section) :
    (ofSections message sections).level.IsWorstOf
      (.error :: (ofSections message sections).sections.map (·.level)) := by
  have hlevel : (ofSections message sections).level =
      ((ofSections message sections).sections.map (·.level)).foldl Level.worse .error := by
    simp only [ofSections]
    rw [Section.foldl_worse_squash]
    simp only [List.foldl_map]
  rw [hlevel]
  exact Level.isWorstOf_foldl _ _

/-- A report is as severe as the worst of its annotations that have a label. -/
theorem isWorstOf_level_labelled (h : List.Forall₂
    (fun a s => Section.ofAnnotation width catalog a = .ok s) annotations sections) :
    (ofSections message sections).level.IsWorstOf
      (.error :: (annotations.filter (·.label.isSome)).map (·.level)) := by
  have hlevel : (ofSections message sections).level =
      (annotations.map fun a => if a.label.isSome then a.level else .error).foldl
        Level.worse .error := by
    rw [← Section.map_level_of_ofAnnotation h, List.foldl_map]
    rfl
  have hworst := Level.isWorstOf_foldl
    (annotations.map fun a => if a.label.isSome then a.level else .error) .error
  rw [← hlevel] at hworst
  refine ⟨?_, ?_⟩
  · rcases List.mem_cons.1 hworst.mem with herror | hmem
    · exact herror ▸ List.mem_cons_self
    · obtain ⟨a, ha, hlevel⟩ := List.mem_map.1 hmem
      by_cases hlabel : a.label.isSome = true
      · rw [if_pos hlabel] at hlevel
        have hkept : a ∈ annotations.filter (·.label.isSome) := List.mem_filter.2 ⟨ha, hlabel⟩
        exact hlevel ▸ List.mem_cons_of_mem _ (List.mem_map_of_mem hkept)
      · rw [if_neg hlabel] at hlevel
        exact hlevel ▸ List.mem_cons_self
  · intro other hother
    rcases List.mem_cons.1 hother with rfl | hmem
    · exact hworst.rank_le _ List.mem_cons_self
    · obtain ⟨a, ha, rfl⟩ := List.mem_map.1 hmem
      obtain ⟨ha, hlabel⟩ := List.mem_filter.1 ha
      have hle := hworst.rank_le _ (List.mem_cons_of_mem _ (List.mem_map_of_mem ha))
      rwa [if_pos hlabel] at hle

/-- A report is as severe as its worst annotation exactly if one of those that tell of a fault of
the compiler has a label, where there are such. -/
theorem isWorstOf_level_annotations (h : List.Forall₂
    (fun a s => Section.ofAnnotation width catalog a = .ok s) annotations sections) :
    (ofSections message sections).level.IsWorstOf (.error :: annotations.map (·.level)) ↔
      ∀ a ∈ annotations, a.level = .internalError →
        ∃ b ∈ annotations, b.level = .internalError ∧ b.label.isSome = true := by
  have hkept : (annotations.filter (·.label.isSome)).map (·.level) ⊆ annotations.map (·.level) :=
    List.map_subset _ List.filter_sublist.subset
  rw [(isWorstOf_level_labelled message h).iff_of_subset hkept]
  simp only [List.mem_map, List.mem_filter]
  constructor
  · intro h a ha hfault
    obtain ⟨b, ⟨hb, hlabel⟩, hsame⟩ := h ⟨a, ha, hfault⟩
    exact ⟨b, hb, hsame, hlabel⟩
  · intro h hfaults
    obtain ⟨a, ha, hfault⟩ := hfaults
    obtain ⟨b, hb, hsame, hlabel⟩ := h a ha hfault
    exact ⟨b, ⟨hb, hlabel⟩, hsame⟩

end Sections

/-- A report is as severe as its worst section.  It is as severe as its worst annotation if and only
if, where an annotation tells of a fault of the compiler, one of those that do has a label.  There
is no report only where the look-up of a span faults. -/
theorem isWorstOf_level_iff (width : Char → Option Nat) (catalog : Catalog) (message : String)
    (annotations : List Annotation) :
    (∃ report, ofAnnotations width catalog message annotations = .ok report ∧
      report.level.IsWorstOf (.error :: report.sections.map (·.level)) ∧
      (report.level.IsWorstOf (.error :: annotations.map (·.level)) ↔
        ∀ a ∈ annotations, a.level = .internalError →
          ∃ b ∈ annotations, b.level = .internalError ∧ b.label.isSome = true)) ∨
    ∃ fault, ofAnnotations width catalog message annotations = .error fault ∧
      ∃ a ∈ annotations, catalog.locate width a.span = .error fault := by
  refine (ofAnnotations_cases width catalog message annotations).imp_left ?_
  rintro ⟨sections, hall, hreport⟩
  exact ⟨_, hreport, isWorstOf_level_sections message sections,
    isWorstOf_level_annotations message hall⟩

end Report

namespace SeverityWitness

/-- One cell for every character but a newline. -/
def display (c : Char) : Option Nat :=
  if c = '\n' then none else some 1

/-- A report about a fault of the compiler without a label passes for an error. -/
theorem not_isWorstOf_unlabelled :
    ∃ report, Report.ofAnnotations display (.ofList [⟨⟨1⟩, "test.peg", "start = a\n"⟩]) "stub error"
        [⟨⟨⟨1⟩, 0, 5⟩, .internalError, none⟩] = .ok report ∧
      ¬ report.level.IsWorstOf [.error, .internalError] := by
  refine ⟨_, rfl, fun h => ?_⟩
  exact absurd (h.rank_le .internalError (by simp)) (by decide)

end SeverityWitness

end Packrat
