import TreeCompare.Path.Basic

/-!
# Lexical normal form

A path can be simplified by its text alone: `.` is dropped and `..` takes back
the name before it. At the root `..` does nothing, and with no name before it
it is kept. The meaning of a path over a base directory, a list of names, says
what such a simplification must not change.
-/
namespace TreeCompare

/-- Adds a component to those kept so far, the last of them first. -/
def Component.settle : List Component → Component → List Component
  | kept, .current => kept
  | .name _ :: kept, .parent => kept
  | .root :: kept, .parent => .root :: kept
  | kept, c => c :: kept

def Component.settleAll (components : List Component) : List Component :=
  (components.foldl settle []).reverse

def Path.normalize (path : Path) : Path :=
  .ofComponents (Component.settleAll path.components)

/-- Where a component leads from a directory given by the names on the way to it. -/
def Component.apply (place : List Name) : Component → List Name
  | .root => []
  | .current => place
  | .parent => place.dropLast
  | .name n => place ++ [n]

/-- Where a path leads from the directory `base` if no link is on the way. -/
def Path.meaning (base : List Name) (path : Path) : List Name :=
  path.components.foldl Component.apply base

end TreeCompare
