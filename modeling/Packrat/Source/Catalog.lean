import Packrat.Source.Span
import Packrat.Text.CellWidth

/-!
# Looking up spans in their sources

The texts of the grammar sources turn a span into the line and the columns that a reader counts.
A column is a cell of a fixed-width display, so wide characters take two and marks take none.  Lines
and columns are numbers of 32 bits, and a look-up faults where one of them does not fit.
-/

namespace Packrat

open Text

/-- The text of a source with the name it is shown under. -/
structure Source where
  id : SourceId
  name : String
  text : String

/-- The sources that can be looked up.  Of two with one number the later counts. -/
structure Catalog where
  sources : List Source

namespace Catalog

def empty : Catalog := ⟨[]⟩

def add (catalog : Catalog) (source : Source) : Catalog :=
  ⟨source :: catalog.sources⟩

def ofList (sources : List Source) : Catalog :=
  sources.foldl add empty

/-- The source with a number. -/
def find? (catalog : Catalog) (id : SourceId) : Option Source :=
  catalog.sources.find? (·.id = id)

@[simp] theorem find?_add (catalog : Catalog) (source : Source) (id : SourceId) :
    (catalog.add source).find? id = if source.id = id then some source else catalog.find? id := by
  by_cases h : source.id = id <;> simp [find?, add, h]

end Catalog

/-- The columns of a span, counted from one. -/
inductive Columns where
  /-- From one column to another, both included. -/
  | endpoints (first last : Nat)
  /-- Just before a column: the span covers no bytes. -/
  | before (column : Nat)
  deriving DecidableEq, Repr

namespace Columns

/-- The first column. -/
def start : Columns → Nat
  | endpoints first _ => first
  | before column => column

/-- The number of cells to mark.  An empty span is marked with one. -/
def width : Columns → Nat
  | endpoints first last => last - first + 1
  | before _ => 1

end Columns

/-- Where a span lies in its source. -/
structure Location where
  span : Span
  /-- The name of the source. -/
  name : String
  /-- The number of the first line of the span, counted from one. -/
  line : Nat
  /-- The columns of the span on that line. -/
  columns : Columns
  /-- That line without its newline. -/
  text : String
  deriving DecidableEq, Repr

/-- Why a span has no location. -/
inductive LocateError where
  /-- There is no text for the source of the span. -/
  | unknownSource (id : SourceId)
  /-- The span does not lie between characters of its source, which has so many bytes. -/
  | outOfRange (span : Span) (size : Nat)
  deriving DecidableEq, Repr

/-- The reason in words. -/
def LocateError.describe : LocateError → String
  | unknownSource id => s!"no source is available for {id.describe}"
  | outOfRange span size => s!"span {span.describe} is not within the {size} bytes of its source"

/-- The end of a text after its last newline. -/
def lastLine (cs : Text) : Text :=
  (cs.reverse.takeWhile (· ≠ '\n')).reverse

/-- The start of a text up to its first newline. -/
def firstLine (cs : Text) : Text :=
  cs.takeWhile (· ≠ '\n')

/-- The columns of a piece of text that follows `lead` on its line, where `marked` is the start of
the piece on that line.  A piece that shows nothing is marked with one cell. -/
def columnsOf (width : Char → Option Nat) (lead marked : Text) (isEmpty : Bool) :
    Except Fault Columns := do
  let first ← fit ((← addCells width 0 lead) + 1)
  let stop ← fit (first + max (← addCells width 0 marked) 1)
  return if isEmpty then .before first else .endpoints first (stop - 1)

/-- The pieces of a text before, in and after an interval of bytes. -/
def cutBytes? (cs : Text) (start length : Nat) : Option (Text × Text × Text) := do
  let (before, rest) ← splitBytes? start cs
  let (covered, after) ← splitBytes? length rest
  some (before, covered, after)

/-- The location of a span that cuts its source into three pieces.  A span of several lines is
marked to the end of its first line. -/
def Source.locationOf (width : Char → Option Nat) (source : Source) (span : Span)
    (before covered after : Text) : Except Fault Location := do
  let line ← fit (before.count '\n' % UInt32.size + 1)
  let columns ← columnsOf width (lastLine before) (firstLine covered) covered.isEmpty
  return {
    span
    name := source.name
    line
    columns
    text := .ofList (lastLine before ++ firstLine (covered ++ after)) }

/-- Looks a span up in its source, for a display with some widths of characters. -/
def Catalog.locate (width : Char → Option Nat) (catalog : Catalog) (span : Span) :
    Except Fault (Except LocateError Location) :=
  match catalog.find? span.source with
  | none => .ok (.error (.unknownSource span.source))
  | some source =>
    match cutBytes? source.text.toList span.offset.toNat span.length.toNat with
    | none => .ok (.error (.outOfRange span (byteLength source.text.toList)))
    | some (before, covered, after) => .ok <$> source.locationOf width span before covered after

end Packrat
