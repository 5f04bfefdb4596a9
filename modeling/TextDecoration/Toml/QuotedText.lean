import TextDecoration.Toml.Number
import TextDecoration.Toml.Spacing

/-!
# Strings of a TOML document

A string stands between double or single quotes, on one line or, with each quote tripled, on
several. Only double quotes know escapes. Every line's end inside counts as a line feed.
-/

namespace TextDecoration.Toml

/-- Repeat a reader as long as it finds something; the number bounds the repetitions. Every reader
here takes a character, so the length of the text is enough. -/
def many {α : Type} (read : List Char → Option (α × List Char)) :
    Nat → List Char → List α × List Char
  | 0, cs => ([], cs)
  | steps + 1, cs =>
    match read cs with
    | some (item, rest) =>
      let (items, rest) := many read steps rest
      (item :: items, rest)
    | none => ([], cs)

/-- What follows a backslash in a quoted string. Any other character there makes the string none. -/
def escaped? : List Char → Option (Char × List Char)
  | 'b' :: cs => some ('\x08', cs)
  | 't' :: cs => some ('\t', cs)
  | 'n' :: cs => some ('\n', cs)
  | 'f' :: cs => some ('\x0c', cs)
  | 'r' :: cs => some ('\r', cs)
  | '"' :: cs => some ('"', cs)
  | '\\' :: cs => some ('\\', cs)
  | 'u' :: cs => codePoint? 4 cs
  | 'U' :: cs => codePoint? 8 cs
  | _ => none

/-- A piece of a string in double quotes: an escape, or a character that may stand as it is. -/
def quotedPiece? : List Char → Option (List Char × List Char)
  | '\\' :: cs => (escaped? cs).map fun (c, rest) => ([c], rest)
  | c :: cs => if c ≠ '"' && isPlain c then some ([c], cs) else none
  | [] => none

/-- A piece of a string in single quotes, which knows no escapes. -/
def literalPiece? : List Char → Option (List Char × List Char)
  | c :: cs => if c ≠ '\x27' && isPlain c then some ([c], cs) else none
  | [] => none

/-- The text behind white space that includes a line's end, as it may follow a backslash. White
space inside a line alone is not enough. -/
def skipBreak? (cs : List Char) : Option (List Char) :=
  (lineEnd? (skipGap cs)).map fun rest => skipBlankLines rest.length rest
where
  /-- The text behind blanks and line ends; the number bounds the steps. -/
  skipBlankLines : Nat → List Char → List Char
    | 0, cs => skipGap cs
    | steps + 1, cs =>
      match lineEnd? (skipGap cs) with
      | some rest => skipBlankLines steps rest
      | none => skipGap cs

/-- A line's end or one or two quotes inside a string of several lines. More quotes end it. -/
def innerPiece? (quotationMark : Char) (cs : List Char) : Option (List Char × List Char) :=
  match lineEnd? cs with
  | some rest => some (['\n'], rest)
  | none =>
    let marks := cs.takeWhile (· = quotationMark)
    if 0 < marks.length && marks.length < 3 then some (marks, cs.drop marks.length) else none

/-- A piece of a string of several lines in double quotes. A backslash at the end of a line takes
    all blanks and line ends behind it away. -/
def quotedBlockPiece? : List Char → Option (List Char × List Char)
  | '\\' :: cs =>
    match skipBreak? cs with
    | some rest => some ([], rest)
    | none => (escaped? cs).map fun (c, rest) => ([c], rest)
  | cs => (quotedPiece? cs).or (innerPiece? '"' cs)

/-- A piece of a string of several lines in single quotes. A backslash has no meaning there. -/
def literalBlockPiece? (cs : List Char) : Option (List Char × List Char) :=
  (literalPiece? cs).or (innerPiece? '\x27' cs)

/-- The rest of a string on one line: pieces up to the closing quote. There is no string if the line
ends before it. -/
def lineString? (piece? : List Char → Option (List Char × List Char)) (quotationMark : Char)
    (cs : List Char) : Option (String × List Char) :=
  let (pieces, rest) := many piece? cs.length cs
  match rest with
  | c :: rest => if c = quotationMark then some (String.ofList pieces.flatten, rest) else none
  | [] => none

/-- The rest of a string of several lines: a line's end right at its start does not count, and up to
    two quotes before the closing three belong to the string. -/
def blockString? (piece? : List Char → Option (List Char × List Char)) (quotationMark : Char)
    (cs : List Char) : Option (String × List Char) :=
  let cs := (lineEnd? cs).getD cs
  let (pieces, rest) := many piece? cs.length cs
  let marks := rest.takeWhile (· = quotationMark)
  if 3 ≤ marks.length && marks.length ≤ 5 then
    some (String.ofList (pieces.flatten ++ marks.drop 3), rest.drop marks.length)
  else none

/-- A string of any of the four forms. Three quotes are tried before one, since the empty string is
two of them. -/
def string? : List Char → Option (String × List Char)
  | '"' :: '"' :: '"' :: cs => blockString? quotedBlockPiece? '"' cs
  | '"' :: cs => lineString? quotedPiece? '"' cs
  | '\x27' :: '\x27' :: '\x27' :: cs => blockString? literalBlockPiece? '\x27' cs
  | '\x27' :: cs => lineString? literalPiece? '\x27' cs
  | _ => none

end TextDecoration.Toml
