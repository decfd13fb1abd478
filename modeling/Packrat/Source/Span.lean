import Packrat.Order.StableSort

/-!
# Spans

A span is an interval of bytes of one grammar source.  It says where a rule or an expression was
written.  Spans are ordered by source, then by offset, then by length.
-/

namespace Packrat

/-- The number of a grammar source.  Number zero stands for a source that is not known. -/
structure SourceId where
  number : UInt16
  deriving DecidableEq, Repr

namespace SourceId

def unknown : SourceId := ⟨0⟩

/-- A source as it is shown when it has no name. -/
def describe (source : SourceId) : String :=
  if source = unknown then "<unknown>" else s!"<source #{source.number.toNat}>"

end SourceId

/-- The bytes of a source from `offset` on, `length` of them. -/
structure Span where
  source : SourceId
  offset : UInt32
  length : UInt16
  deriving DecidableEq, Repr

namespace Span

/-- The span of what has no place in a source. -/
def unknown : Span := ⟨.unknown, 0, 0⟩

/-- The position after the last byte.  It need not fit the width of an offset. -/
def stop (span : Span) : Nat :=
  span.offset.toNat + span.length.toNat

def isEmpty (span : Span) : Bool :=
  span.length == 0

/-- A span moved forward, unless its offset would grow too large. -/
def shift? (span : Span) (distance : UInt32) : Option Span :=
  if span.offset.toNat + distance.toNat < UInt32.size then
    some { span with offset := span.offset + distance }
  else none

/-- The order of spans. -/
def precedes (a b : Span) : Bool :=
  if a.source = b.source then
    if a.offset = b.offset then a.length ≤ b.length else a.offset < b.offset
  else a.source.number < b.source.number

/-- Spans in order. -/
def sort (spans : List Span) : List Span :=
  sortBy precedes spans

/-- A span in words. -/
def describe (span : Span) : String :=
  s!"[{span.source.describe} offset {span.offset.toNat}-{span.stop}]"

theorem shift?_offset {span moved : Span} {distance : UInt32}
    (h : span.shift? distance = some moved) :
    moved.offset.toNat = span.offset.toNat + distance.toNat := by
  unfold shift? at h
  split at h
  next hlt =>
    obtain rfl := Option.some.inj h
    exact Nat.mod_eq_of_lt hlt
  next => simp at h

end Span

end Packrat
