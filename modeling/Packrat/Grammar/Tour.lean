import Packrat.Grammar.Tree

/-!
# Tours of a tree

A tour enters every expression before those inside it and leaves it after them.  It does not go
into the expressions that a guide stops at, and it never follows a reference to its rule.
-/

namespace Packrat

/-- A step of a tour. -/
inductive TourEvent (β : Type) where
  | enter (id : Nat)
  /-- Leaves an expression with its output. -/
  | leave (id : Nat) (output : β)
  deriving DecidableEq, Repr

/-- What a tour leaves behind: its steps and the output of the root. -/
structure Toured (β : Type) where
  events : List (TourEvent β)
  output : β
  deriving DecidableEq, Repr

namespace Tree

variable {β : Type} [Inhabited β]

mutual

/-- Tours a tree.  Where the guide names an output the tour leaves with it at once.  Otherwise a
wrapper has the output of its inner expression, and leaves and groups have the default output. -/
def tour (guide : Kind → Nat → Option β) : Tree → Toured β
  | leaf id l =>
    match guide l.kind id with
    | some output => ⟨[.enter id, .leave id output], output⟩
    | none => ⟨[.enter id, .leave id default], default⟩
  | wrap id w inner =>
    match guide w.kind id with
    | some output => ⟨[.enter id, .leave id output], output⟩
    | none =>
      let toured := tour guide inner
      ⟨.enter id :: toured.events ++ [.leave id toured.output], toured.output⟩
  | group id g items =>
    match guide g.kind id with
    | some output => ⟨[.enter id, .leave id output], output⟩
    | none => ⟨.enter id :: tourAll guide items ++ [.leave id default], default⟩

/-- The steps of the tours of some trees, one after another. -/
def tourAll (guide : Kind → Nat → Option β) : List Tree → List (TourEvent β)
  | [] => []
  | t :: ts => (tour guide t).events ++ tourAll guide ts

end

end Tree

/-- The tours of all rule bodies in the order of declaration. -/
def Grammar.tours {β : Type} [Inhabited β] (g : Grammar) (guide : Kind → Nat → Option β) :
    List (Toured β) :=
  g.bodies.map (Tree.tour guide)

end Packrat
