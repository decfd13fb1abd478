import Packrat.Source.Span

/-!
# Annotated spans

A problem is described by a sequence of spans, each with a level and an optional label.
-/

namespace Packrat

/-- How severe a message is, the worst first. -/
inductive Level where
  /-- A fault of the compiler itself. -/
  | internalError
  /-- A fault that the user can mend. -/
  | error
  /-- What supplements another message. -/
  | note
  /-- Advice. -/
  | help
  deriving DecidableEq, Repr

namespace Level

/-- The place of a level among the levels, the worst at one. -/
def rank : Level → Nat
  | internalError => 1
  | error => 2
  | note => 3
  | help => 4

/-- A level in words. -/
def name : Level → String
  | internalError => "internal error"
  | error => "error"
  | note => "note"
  | help => "help"

/-- The more severe of two levels. -/
def worse (a b : Level) : Level :=
  if a.rank ≤ b.rank then a else b

end Level

/-- A span with a level and perhaps a label. -/
structure Annotation where
  span : Span
  level : Level
  label : Option String
  deriving DecidableEq, Repr

namespace Annotation

def internalError (span : Span) (label : String) : Annotation := ⟨span, .internalError, some label⟩

def error (span : Span) (label : String) : Annotation := ⟨span, .error, some label⟩

/-- An error without a label. -/
def markError (span : Span) : Annotation := ⟨span, .error, none⟩

def note (span : Span) (label : String) : Annotation := ⟨span, .note, some label⟩

def help (span : Span) (label : String) : Annotation := ⟨span, .help, some label⟩

/-- An annotation followed by advice on the same span. -/
def withHelp (a : Annotation) (label : String) : List Annotation :=
  [a, .help a.span label]

end Annotation

end Packrat
