/-!
# Blanks, comments and line ends of a TOML document

Blanks stand between the parts of a line; comments and line ends also stand between the elements of
an array. A carriage return without a line feed is no line's end.
-/

namespace TextDecoration.Toml

/-- Whether a character may separate the parts of a line. A line's end is no such character. -/
def isGap (c : Char) : Bool := c = ' ' || c = '\t'

/-- The text behind blanks, of which there may be none. -/
def skipGap (cs : List Char) : List Char := cs.dropWhile isGap

/-- The text behind a line's end, which is a line feed with or without a carriage return before it.
A carriage return alone ends no line. -/
def lineEnd? : List Char → Option (List Char)
  | '\n' :: cs => some cs
  | '\r' :: '\n' :: cs => some cs
  | _ => none

/-- Whether a character may stand in strings and comments as it is: the tabulator is the only
    control character there. -/
def isPlain (c : Char) : Bool := c = '\t' || (32 ≤ c.toNat && c.toNat ≠ 127)

/-- The text behind a comment, if there is one. A control character ends it, and then no line's end
follows. -/
def skipComment : List Char → List Char
  | '#' :: cs => cs.dropWhile isPlain
  | cs => cs

/-- The text behind blanks, comments and line ends, as they may stand between statements and in
arrays. -/
def skipLines (cs : List Char) : List Char := within cs.length cs
where
  /-- The text behind at most so many lines. -/
  within : Nat → List Char → List Char
    | 0, cs => cs
    | lines + 1, cs =>
      let rest := skipComment (skipGap cs)
      match lineEnd? rest with
      | some rest => within lines rest
      | none => rest

end TextDecoration.Toml
