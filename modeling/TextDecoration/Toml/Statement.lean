import TextDecoration.Toml.Draft
import TextDecoration.Toml.Scalar

/-!
# Statements of a TOML document

A document is a sequence of statements, each on lines of its own: a header opens a table or a
further table of an array, and an entry gives a value to a key in the table opened last. Arrays
and tables in braces lie inside one another less than eighty deep, and a key has fewer than eighty
parts.
-/

namespace TextDecoration.Toml

/-- What a line says. An array may go over several lines and is part of one statement all the
same. -/
inductive Statement where
  /-- The header of a table. -/
  | table (key : Key)
  /-- The header of a further table in an array. -/
  | element (key : Key)
  | entry (key : Key) (value : Value)

/-- Number of levels or of a key's parts that is still allowed. A document that is nested further is
refused, so reading never runs out of room. -/
def nestingLimit : Nat := 79

/-! ## Keys -/

/-- Whether a character may stand in a key without quotes. Such a key may look like a number. -/
def inBareKey (c : Char) : Bool := c.isAlphanum || c = '_' || c = '-'

/-- One part of a key: bare, or in quotes on one line. Only a part in quotes may be empty. -/
def keyPart? : List Char → Option (String × List Char)
  | '"' :: cs => lineString? quotedPiece? '"' cs
  | '\x27' :: cs => lineString? literalPiece? '\x27' cs
  | cs =>
    let bare := cs.takeWhile inBareKey
    if bare.isEmpty then none else some (String.ofList bare, cs.drop bare.length)

/-- At most so many parts of a key, with dots between them, and the blanks around them. -/
def key? : Nat → List Char → Option (Key × List Char)
  | 0, _ => none
  | parts + 1, cs => do
    let (part, rest) ← keyPart? (skipGap cs)
    match skipGap rest with
    | '.' :: rest =>
      let (key, rest) ← key? parts rest
      return ({ key with path := part :: key.path }, rest)
    | rest => return (⟨[], part⟩, rest)

/-! ## Values -/

/-- The rest of an array: elements with commas between them, and perhaps one behind the last. The
    number bounds the elements. -/
def elements? (read : List Char → Option (Value × List Char)) :
    Nat → List Char → Option (List Value × List Char)
  | 0, _ => none
  | steps + 1, cs =>
    match skipLines cs with
    | ']' :: rest => some ([], rest)
    | cs => do
      let (value, rest) ← read cs
      match skipLines rest with
      | ',' :: rest =>
        let (values, rest) ← elements? read steps rest
        return (value :: values, rest)
      | ']' :: rest => return ([value], rest)
      | _ => none

/-- A key, an equals sign and a value. The key may be dotted, the blanks around the sign do not
matter. -/
def assignment? (read : List Char → Option (Value × List Char)) (cs : List Char) :
    Option ((Key × Value) × List Char) := do
  let (key, rest) ← key? nestingLimit cs
  match rest with
  | '=' :: rest =>
    let (value, rest) ← read (skipGap rest)
    return ((key, value), rest)
  | _ => none

/-- The rest of a table in braces, which stands on one line and has no comma behind its last entry.
    The number bounds the entries. -/
def assignments? (read : List Char → Option (Value × List Char)) :
    Nat → Draft.Entries → List Char → Option (Draft.Entries × List Char)
  | 0, _, _ => none
  | steps + 1, entries, cs => do
    let ((key, value), rest) ← assignment? read cs
    let entries ← Draft.put? key value .written entries
    match skipGap rest with
    | ',' :: rest => assignments? read steps entries rest
    | '\x7d' :: rest => return (entries, rest)
    | _ => none

/-- A value with at most so many levels of arrays and tables. At the last level only scalars are
read. -/
def value? : Nat → List Char → Option (Value × List Char)
  | levels + 1, '[' :: cs => do
    let (values, rest) ← elements? (value? levels) (cs.length + 1) cs
    return (.array values, rest)
  | levels + 1, '\x7b' :: cs =>
    match skipGap cs with
    | '\x7d' :: rest => some (.table [], rest)
    | cs => do
      let (entries, rest) ← assignments? (value? levels) (cs.length + 1) [] cs
      return (.table (Draft.finishedEntries entries), rest)
  | _, cs => scalar? cs

/-! ## Lines -/

/-- The text behind a closing mark. -/
def behindMark? (mark : List Char) (cs : List Char) : Option (List Char) :=
  if mark.isPrefixOf cs then some (cs.drop mark.length) else none

/-- A statement: the header of a table, of a further table in an array, or an assignment. Two
brackets are tried before one. -/
def statement? : List Char → Option (Statement × List Char)
  | '[' :: '[' :: cs => do
    let (key, rest) ← key? nestingLimit cs
    return (.element key, ← behindMark? [']', ']'] rest)
  | '[' :: cs => do
    let (key, rest) ← key? nestingLimit cs
    return (.table key, ← behindMark? [']'] rest)
  | cs => do
    let ((key, value), rest) ← assignment? (value? nestingLimit) cs
    return (.entry key value, rest)

/-- The text behind the end of a statement's line. Blanks and a comment may stand before it, and the
text's end will do. -/
def skipLineRest? (cs : List Char) : Option (List Char) :=
  match skipComment (skipGap cs) with
  | [] => some []
  | rest => lineEnd? rest

/-- All statements; the number bounds them. There is a document only if all of the text falls into
statements. -/
def statements? : Nat → List Char → Option (List Statement)
  | 0, _ => none
  | steps + 1, cs =>
    match skipLines cs with
    | [] => some []
    | cs => do
      let (statement, rest) ← statement? cs
      return statement :: (← statements? steps (← skipLineRest? rest))

end TextDecoration.Toml
