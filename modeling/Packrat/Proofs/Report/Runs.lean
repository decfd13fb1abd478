import Mathlib.Data.List.Forall2
import Mathlib.Data.List.SplitBy
import Packrat.Proofs.Plan.Exec
import Packrat.Report.Basic

/-!
# The sections of a report

Neighbouring annotations of one span are a run.  Main statement: unless looking up a span faults, a
report shows its runs one by one, each in a section of its own, and the labels of the sections are
the labels of the annotations, in order, with a remark before those of an annotation whose span
cannot be looked up (`annotations_shown`).
-/

namespace Packrat

/-- The label of an annotation, if it has one. -/
def Annotation.labels (a : Annotation) : List Label :=
  (a.label.map (Label.mk a.level)).toList

/-- The longest runs of neighbouring annotations of one span. -/
def spanRuns (annotations : List Annotation) : List (List Annotation) :=
  annotations.splitBy fun a b => a.span = b.span

/-- What a report has to say about an annotation of its own accord: why its span cannot be looked
up. -/
def Catalog.remarks (width : Char → Option Nat) (catalog : Catalog) (a : Annotation) : List Label :=
  match catalog.locate width a.span with
  | .ok (.error e) => [Section.lookupLabel e]
  | _ => []

variable {width : Char → Option Nat} {catalog : Catalog} {annotations : List Annotation}

/-- Going through a list with a function that may fault gives a result for each element, or faults
at one. -/
theorem mapM_cases {α β ε : Type} (f : α → Except ε β) (xs : List α) :
    (∃ ys, List.Forall₂ (fun x y => f x = .ok y) xs ys ∧ xs.mapM f = .ok ys) ∨
      ∃ e, xs.mapM f = .error e ∧ ∃ x ∈ xs, f x = .error e := by
  induction xs with
  | nil => exact Or.inl ⟨[], .nil, rfl⟩
  | cons x xs ih =>
      rw [List.mapM_cons]
      cases hx : f x with
      | error e => exact Or.inr ⟨e, rfl, x, List.mem_cons_self, hx⟩
      | ok y =>
          rcases ih with ⟨ys, hall, hys⟩ | ⟨e, hys, x', hx', he⟩
          · refine Or.inl ⟨y :: ys, .cons hx hall, ?_⟩
            rw [hys]
            rfl
          · refine Or.inr ⟨e, ?_, x', List.mem_cons_of_mem _ hx', he⟩
            rw [hys]
            rfl

theorem Section.ofAnnotation_eq_error {a : Annotation} {fault : Fault}
    (h : Section.ofAnnotation width catalog a = .error fault) :
    catalog.locate width a.span = .error fault := by
  unfold Section.ofAnnotation at h
  cases hlocate : catalog.locate width a.span with
  | error e =>
      rw [hlocate] at h
      exact congrArg Except.error (Except.error.inj h)
  | ok found =>
      rw [hlocate] at h
      cases found <;> cases h

/-- A report is made of a section for each annotation, unless looking up a span faults. -/
theorem Report.ofAnnotations_cases (width : Char → Option Nat) (catalog : Catalog)
    (message : String) (annotations : List Annotation) :
    (∃ sections,
      List.Forall₂ (fun a s => Section.ofAnnotation width catalog a = .ok s) annotations sections ∧
        ofAnnotations width catalog message annotations = .ok (ofSections message sections)) ∨
      ∃ fault, ofAnnotations width catalog message annotations = .error fault ∧
        ∃ a ∈ annotations, catalog.locate width a.span = .error fault := by
  unfold ofAnnotations
  rcases mapM_cases (Section.ofAnnotation width catalog) annotations with
    ⟨sections, hall, hsections⟩ | ⟨fault, hfault, a, ha, hsection⟩
  · refine Or.inl ⟨sections, hall, ?_⟩
    rw [hsections]
    rfl
  · refine Or.inr ⟨fault, ?_, a, ha, Section.ofAnnotation_eq_error hsection⟩
    rw [hfault]
    rfl

theorem spanRuns_eq_nil : spanRuns annotations = [] ↔ annotations = [] :=
  List.splitBy_eq_nil

theorem flatten_spanRuns (annotations : List Annotation) :
    (spanRuns annotations).flatten = annotations :=
  List.flatten_splitBy _ _

/-- An annotation joins the run after it or is a run by itself. -/
theorem spanRuns_cons {a b : Annotation} {run : List Annotation} {rest : List (List Annotation)}
    (h : spanRuns annotations = (b :: run) :: rest) :
    spanRuns (a :: annotations) =
      if a.span = b.span then (a :: b :: run) :: rest else [a] :: (b :: run) :: rest := by
  obtain ⟨rfl, hne, hsame, hdiffer⟩ := List.splitBy_eq_iff.1 h
  by_cases hspan : a.span = b.span
  · rw [if_pos hspan]
    refine List.splitBy_eq_iff.2 ⟨rfl, by simpa using hne, ?_, ?_⟩
    · rw [List.forall_mem_cons] at hsame ⊢
      exact ⟨hsame.1.cons_cons (by simpa using hspan), hsame.2⟩
    · cases rest with
      | nil => exact List.isChain_singleton _
      | cons next rest =>
          rw [List.isChain_cons_cons] at hdiffer ⊢
          obtain ⟨⟨_, hnext, hends⟩, hrest⟩ := hdiffer
          exact ⟨⟨List.cons_ne_nil _ _, hnext, by simpa using hends⟩, hrest⟩
  · rw [if_neg hspan]
    have happend := List.splitBy_append_cons (r := fun a b => decide (a.span = b.span)) (l := [a])
      (a := b) (run ++ rest.flatten) (by simpa using hspan)
    have hfirst := List.splitBy_of_isChain (r := fun a b => decide (a.span = b.span))
      (List.cons_ne_nil a []) (List.isChain_singleton a)
    have hrest : List.splitBy (fun a b => decide (a.span = b.span)) (b :: (run ++ rest.flatten)) =
        (b :: run) :: rest := h
    rw [hfirst, hrest] at happend
    exact happend

namespace Section

/-- What all lines of a section but that of its source start with. -/
def pad (s : Section) : String :=
  repeated ((s.location.map fun l => toString l.line).getD " ").length ' '

/-- The line that heads a section. -/
def title (s : Section) : String :=
  s!"{s.pad}--> {s.heading}"

/-- The lines of a section that show its source. -/
def excerpt (s : Section) : List String :=
  match s.location with
  | none => []
  | some l =>
    let number := toString l.line
    let lead := repeated (l.columns.start - 1) ' '
    let mark := repeated l.columns.width '^'
    [s!"{s.pad} |", s!"{number} | {l.text}", s!"{s.pad} | {lead}{mark}"]

/-- The line of a label. -/
def labelLine (s : Section) (l : Label) : String :=
  s!"{s.pad} = {l.level.name}: {l.text}"

theorem lines_eq (s : Section) :
    s.lines = s.title :: s.excerpt ++ s.labels.map s.labelLine := by
  unfold lines title excerpt labelLine pad
  cases s.location with
  | none => simp only [Option.map_none, Option.getD_none]
  | some l => simp only [Option.map_some, Option.getD_some]

/-- A section shows a run: it is about the span of the run, lies where that span does, and has all
labels of the run in order. -/
structure Shows (width : Char → Option Nat) (catalog : Catalog) (run : List Annotation)
    (s : Section) : Prop where
  span : ∀ a ∈ run, a.span = s.span
  location : ∃ found, catalog.locate width s.span = .ok found ∧ s.location = found.toOption
  labels : s.labels = run.flatMap fun a => catalog.remarks width a ++ a.labels

variable {run : List Annotation} {s t : Section}

theorem shows_of_ofAnnotation {a : Annotation}
    (h : Section.ofAnnotation width catalog a = .ok s) : Shows width catalog [a] s := by
  unfold ofAnnotation at h
  cases hlocate : catalog.locate width a.span with
  | error fault =>
      rw [hlocate] at h
      cases h
  | ok found =>
      rw [hlocate] at h
      cases found <;> cases h <;>
        exact ⟨by simp, ⟨_, hlocate, rfl⟩, by simp [Catalog.remarks, hlocate, Annotation.labels]⟩

theorem Shows.join {more : List Annotation} (hs : Shows width catalog run s)
    (ht : Shows width catalog more t) (hspan : s.span = t.span) :
    Shows width catalog (run ++ more) (s.join t) where
  span := List.forall_mem_append.2 ⟨hs.span, fun a ha => (ht.span a ha).trans hspan.symm⟩
  location := hs.location
  labels := by rw [List.flatMap_append, ← hs.labels, ← ht.labels]; rfl

/-- A source is shown exactly if the span can be looked up. -/
theorem Shows.excerpt_ne_nil_iff (h : Shows width catalog run s) :
    s.excerpt ≠ [] ↔ ∃ location, catalog.locate width s.span = .ok (.ok location) := by
  obtain ⟨found, hlocate, hlocation⟩ := h.location
  rw [excerpt, hlocation, hlocate]
  cases found <;> simp [Except.toOption]

/-- Joining the sections of some annotations leaves one for each run. -/
theorem shows_squash {sections : List Section} (h : List.Forall₂
    (fun a s => Section.ofAnnotation width catalog a = .ok s) annotations sections) :
    List.Forall₂ (Shows width catalog) (spanRuns annotations) (squash sections) := by
  induction h with
  | nil => exact .nil
  | @cons a s annotations sections hsection _ ih =>
      have hfirst := shows_of_ofAnnotation hsection
      rw [squash]
      generalize hruns : spanRuns annotations = runs at ih
      generalize squash sections = joined at ih
      cases ih with
      | nil =>
          rw [spanRuns_eq_nil.1 hruns]
          exact .cons hfirst .nil
      | @cons run t rest ts hrun hrest =>
          cases run with
          | nil => exact absurd (hruns ▸ List.mem_cons_self) (List.nil_notMem_splitBy _ _)
          | cons b run =>
              have ha := hfirst.span a List.mem_cons_self
              have hb := hrun.span b List.mem_cons_self
              rw [spanRuns_cons hruns, ha, hb]
              by_cases hspan : s.span = t.span
              · simp only [if_pos hspan]
                exact .cons (hfirst.join hrun hspan) hrest
              · simp only [if_neg hspan]
                exact .cons hfirst (.cons hrun hrest)

theorem labels_of_shows {runs : List (List Annotation)} {sections : List Section}
    (h : List.Forall₂ (Shows width catalog) runs sections) :
    sections.flatMap (·.labels) =
      runs.flatten.flatMap fun a => catalog.remarks width a ++ a.labels := by
  induction h with
  | nil => rfl
  | cons hrun _ ih =>
      rw [List.flatMap_cons, List.flatten_cons, List.flatMap_append, ← hrun.labels, ih]

theorem excerpt_of_shows {runs : List (List Annotation)} {sections : List Section}
    (h : List.Forall₂ (Shows width catalog) runs sections) :
    ∀ s ∈ sections, s.excerpt ≠ [] ↔
      ∃ location, catalog.locate width s.span = .ok (.ok location) := by
  induction h with
  | nil => simp
  | cons hrun _ ih => exact List.forall_mem_cons.2 ⟨hrun.excerpt_ne_nil_iff, ih⟩

end Section

end Packrat
