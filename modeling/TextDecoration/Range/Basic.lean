import TextDecoration.Json.Value
import TextDecoration.Names

/-!
# Tagged ranges

A range is a span of one text node, with the categories that hold over it. Offsets count characters
from the node's start, and the end is exclusive. A range whose end does not lie behind its start
is empty. Ranges come from projecting tokens, but nothing keeps a caller from making one up.
-/

namespace TextDecoration

/-- Child indices from a document's root down to a text node. Lines are the children of the root. -/
abbrev NodePath := List Nat

/-- A path as it is shown: the indices in brackets, with commas between them. -/
def NodePath.shown (path : NodePath) : String :=
  "[" ++ String.intercalate ", " (path.map fun index => toString index) ++ "]"

/-- A decorated span of a text node. Offsets count characters, and nothing ties them to the length
of a text. -/
structure Range where
  /-- Categories that hold over the span. Their order is not kept. -/
  tags : Names
  /-- The alias of the outermost token, if the rule that made it has one. -/
  fallback : Option String := none
  /-- Offset of the first character. -/
  start : Nat
  /-- Offset behind the last character. -/
  stop : Nat
  /-- The node. -/
  path : NodePath := []
  deriving DecidableEq

namespace Range

/-- Whether a category holds over the range. The alias is not one of its categories. -/
def hasTag (range : Range) (category : String) : Bool := range.tags.contains category

/-- Number of characters; none if the end lies before the start. -/
def length (range : Range) : Nat := range.stop - range.start

/-- Whether the range covers no character. One that ends before it starts is empty too. -/
def isEmpty (range : Range) : Bool := decide (range.stop ≤ range.start)

/-- Whether the range covers the character at an offset. The character at its stop is not
covered. -/
def covers (range : Range) (offset : Nat) : Bool :=
  decide (range.start ≤ offset ∧ offset < range.stop)

/-- The JSON value of a range. The alias is left out where there is none, and the members come in a
fixed order. -/
def toJson (range : Range) : Json.Value :=
  .object <|
    [("tags", .array (range.tags.toList.map .string))] ++
      (range.fallback.map fun name => ("alias", .string name)).toList ++
      [("start", .number range.start), ("end", .number range.stop),
        ("path", .array (range.path.map .number))]

/-- A range on one line: its path, offsets, length and tags. The alias is not shown. -/
def summary (range : Range) : String :=
  NodePath.shown range.path ++ " " ++ toString range.start ++ ".." ++ toString range.stop ++ " (" ++
    toString range.length ++ ") " ++ String.intercalate "," range.tags.toList

end Range

end TextDecoration
