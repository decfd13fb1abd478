import Packrat.Expectation.Table
import Packrat.Grammar.Tree

/-!
# The expectations of a grammar

Literals, classes, the expression for any character and named expressions have an expectation.  A
visit to an expression interns its expectation and goes on to what is inside it.  The bodies of the
rules are visited one after another.
-/

namespace Packrat

/-- What is expected where the expression at the root fails. -/
def Tree.expectation? : Tree → Option Expectation
  | .leaf _ (.literal value ignoreCase) => some (.literal value ignoreCase)
  | .leaf _ (.charClass cls) => some (.charClass cls)
  | .leaf _ .any => some .any
  | .wrap _ (.named name) _ => some (.other name)
  | _ => none

/-- A table of expectations with the index that each expression uses. -/
structure ExpectationIndex where
  table : ExpectationTable
  byExpr : List (Nat × Nat)

namespace ExpectationIndex

def empty : ExpectationIndex := ⟨.empty, []⟩

/-- Interns the expectation of an expression that has one. -/
def add (index : ExpectationIndex) (t : Tree) : ExpectationIndex :=
  match t.expectation? with
  | none => index
  | some e =>
    let (i, table) := index.table.intern e
    ⟨table, (t.id, i) :: index.byExpr⟩

/-- The index of the expectation of an expression. -/
def indexOf? (index : ExpectationIndex) (id : Nat) : Option Nat :=
  index.byExpr.lookup id

end ExpectationIndex

mutual

/-- Visits an expression and those inside it. -/
def Tree.collect (index : ExpectationIndex) : Tree → ExpectationIndex
  | .leaf id l => index.add (.leaf id l)
  | .wrap id w inner => inner.collect (index.add (.wrap id w inner))
  | .group id g items => Tree.collectAll (index.add (.group id g items)) items

/-- Visits expressions one after another. -/
def Tree.collectAll (index : ExpectationIndex) : List Tree → ExpectationIndex
  | [] => index
  | t :: ts => Tree.collectAll (t.collect index) ts

end

/-- The expectations of all rules in the order of first encounter. -/
def Grammar.expectations (g : Grammar) : ExpectationIndex :=
  Tree.collectAll .empty g.bodies

end Packrat
