import Packrat.Report.Annotation
import Packrat.Source.Catalog

/-!
# Reports

A report shows a message and its annotated spans, each under the line of source that it refers to.
Spans that cannot be looked up are shown by their offsets, with a label that says why, so that no
message is lost.  Neighbouring annotations of one span share a section.
-/

namespace Packrat

/-- A label with its level. -/
structure Label where
  level : Level
  text : String
  deriving DecidableEq, Repr

/-- A part of a report about one span. -/
structure Section where
  span : Span
  /-- Where the span lies, if it could be looked up. -/
  location : Option Location
  labels : List Label
  level : Level
  deriving DecidableEq, Repr

namespace Section

/-- The label that tells why a span could not be looked up. -/
def lookupLabel (e : LocateError) : Label :=
  ⟨.help, s!"an error occurred while trying to look up information about this span: {e.describe}"⟩

/-- The section of one annotation.  Its level is that of its label, and `error` without one. -/
def ofAnnotation (width : Char → Option Nat) (catalog : Catalog) (a : Annotation) :
    Except Fault Section := do
  let own := (a.label.map (Label.mk a.level)).toList
  let level := if a.label.isSome then a.level else .error
  match ← catalog.locate width a.span with
  | .ok location => return ⟨a.span, some location, own, level⟩
  | .error e => return ⟨a.span, none, lookupLabel e :: own, level⟩

/-- Two sections of one span as one. -/
def join (a b : Section) : Section :=
  { a with labels := a.labels ++ b.labels, level := a.level.worse b.level }

/-- Joins neighbouring sections of one span. -/
def squash : List Section → List Section
  | [] => []
  | s :: rest =>
    match squash rest with
    | [] => [s]
    | t :: ts => if s.span = t.span then s.join t :: ts else s :: t :: ts

/-- What heads a section: name, line and column, or the offsets of the span. -/
def heading (s : Section) : String :=
  match s.location with
  | some l => s!"{l.name}:{l.line}:{l.columns.start}"
  | none => s!"{s.span.source.describe} offset {s.span.offset.toNat}--{s.span.stop}"

/-- A repeated character. -/
def repeated (count : Nat) (c : Char) : String :=
  .ofList (List.replicate count c)

/-- The lines of a section.  Everything but the number of the line is indented by the width of that
number. -/
def lines (s : Section) : List String :=
  let number := (s.location.map fun l => toString l.line).getD " "
  let pad := repeated number.length ' '
  let excerpt :=
    match s.location with
    | none => []
    | some l =>
      let lead := repeated (l.columns.start - 1) ' '
      let mark := repeated l.columns.width '^'
      [s!"{pad} |", s!"{number} | {l.text}", s!"{pad} | {lead}{mark}"]
  s!"{pad}--> {s.heading}" :: excerpt ++ s.labels.map fun l => s!"{pad} = {l.level.name}: {l.text}"

end Section

/-- A message with its sections. -/
structure Report where
  message : String
  sections : List Section
  level : Level
  deriving DecidableEq, Repr

namespace Report

/-- The report of a message and some sections.  It is as severe as its worst section and at least an
error. -/
def ofSections (message : String) (sections : List Section) : Report where
  message := message
  sections := Section.squash sections
  level := sections.foldl (fun level s => level.worse s.level) .error

/-- The report of a message and its annotated spans, for a display with some
widths of characters. -/
def ofAnnotations (width : Char → Option Nat) (catalog : Catalog) (message : String)
    (annotations : List Annotation) : Except Fault Report := do
  return ofSections message (← annotations.mapM (Section.ofAnnotation width catalog))

/-- The lines of a report. -/
def lines (report : Report) : List String :=
  s!"{report.level.name}: {report.message}" :: report.sections.flatMap Section.lines

/-- The text of a report.  Every line ends in a newline. -/
def render (report : Report) : String :=
  .join (report.lines.map (· ++ "\n"))

end Report

end Packrat
