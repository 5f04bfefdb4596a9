import TextDecoration.Toml.Moment
import TextDecoration.Toml.QuotedText
import TextDecoration.Toml.Value

/-!
# Scalars of a TOML document

Every reader of a part of a document gives what it read and the characters behind it, or nothing
if the characters do not begin such a part. Whether what stands behind may stand there is for the
reader of the line to say.
-/

namespace TextDecoration.Toml

/-- A scalar that begins with a digit or a sign, or with the name of a special number. A moment is
tried before a number, as both begin with digits. -/
def number? (cs : List Char) : Option (Value × List Char) :=
  match skipMoment? cs with
  | some rest => some (.moment (String.ofList (cs.take (cs.length - rest.length))), rest)
  | none =>
    match float? cs with
    | some (x, rest) => some (.float x, rest)
    | none => (integer? cs).map fun (n, rest) => (.integer n, rest)

/-- Any scalar: a truth value, a string, a moment or a number. What follows it is left to the
caller. -/
def scalar? : List Char → Option (Value × List Char)
  | 't' :: 'r' :: 'u' :: 'e' :: cs => some (.boolean true, cs)
  | 'f' :: 'a' :: 'l' :: 's' :: 'e' :: cs => some (.boolean false, cs)
  | cs =>
    match string? cs with
    | some (text, rest) => some (.string text, rest)
    | none => number? cs

end TextDecoration.Toml
