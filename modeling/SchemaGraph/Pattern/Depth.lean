/-!
# Nesting of patterns

How deep the parts of a pattern lie in each other.  A single part that stands
for a whole sequence, choice or union adds no level.
-/

namespace SchemaGraph.Pattern

/-- The deepest nesting of a pattern. -/
def nestingLimit : Nat := 250

/-- The depth of what holds parts of some depths together. -/
def depthAround : List Nat → Nat
  | [] => 0
  | [depth] => depth
  | depths => 1 + depths.foldl max 0

end SchemaGraph.Pattern
