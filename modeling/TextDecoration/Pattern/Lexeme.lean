import TextDecoration.Number.Hexadecimal
import TextDecoration.Pattern.Node

/-!
# Lexemes of a pattern

The smallest parts of a written pattern: a literal character, a class, an opening bracket with all
that belongs to it, a quantifier with its suffix. A pattern falls apart into its lexemes from left
to right: each is recognised from the characters at hand, and a brace also from the kind of lexeme
before it.

There are two dialects. The regular one has classes, groups, quantifiers, anchors and flags. The
extended one adds back-references, look-around, atomic groups and possessive quantifiers. It takes
a brace that begins no count as a literal, and it may escape any character that is no ASCII letter
or digit.

Both are parts of larger notations. What else an engine may know is refused here and never read in
another sense: classes by Unicode property, the flags for white space, laziness and Unicode, names
in back-references, conditions, comments, and the escapes that move the start of a match or ask for
the end of the one before. Nor is there a limit to the depth or the size of a pattern. A law that
must not rest on this choice takes the compiler as a parameter.
-/

namespace TextDecoration.Pattern

/-- What a written pattern may contain. The extended dialect is not larger in all respects: it reads
braces in its own way. -/
inductive Dialect where
  | regular
  | extended
  deriving DecidableEq

/-- A switch that changes how the lexemes after it are read, up to the end of the group it stands
in. -/
inductive Flag where
  | ignoreCase
  | multiLine
  | dotAll
  deriving DecidableEq

/-- Flags in the order written, each with the state it is switched to. -/
abbrev FlagChanges := List (Flag × Bool)

/-- What an opening bracket begins. Only the first kind stores what it takes. -/
inductive Opening where
  | capture (name : Option String)
  | bare (changes : FlagChanges)
  | look (behind negated : Bool)
  | atomic
  deriving DecidableEq

/-- A smallest part of a pattern. Lexemes have no structure yet: brackets are matched when the
pattern is read. -/
inductive Lexeme where
  | char (c : Char)
  | dot
  | set (set : CharSet)
  | caret
  | dollar
  | anchor (condition : Anchor)
  | backref (group : Nat)
  | bar
  | opening (opening : Opening)
  | closing
  | flags (changes : FlagChanges)
  | quantifier (least : Nat) (most : Option Nat) (greedy possessive : Bool)
  deriving DecidableEq

/-! ## Numbers -/

/-- Value of an ASCII digit. Digits of other scripts are literals in a pattern. -/
def digitValue? (c : Char) : Option Nat :=
  if '0' ≤ c && c ≤ '9' then some (c.toNat - '0'.toNat) else none

/-- The number written by the digits in front, on top of `value`, and the text behind them. -/
def takeNumber (value : Nat) : List Char → Nat × List Char
  | [] => (value, [])
  | c :: cs =>
    match digitValue? c with
    | some digit => takeNumber (10 * value + digit) cs
    | none => (value, c :: cs)

/-- A decimal number in front; there must be a digit, and leading zeros do not matter. -/
def number? : List Char → Option (Nat × List Char)
  | [] => none
  | c :: cs => (digitValue? c).map (takeNumber · cs)

/-- A code point in braces, with any number of digits, or in exactly `count` hexadecimal digits.
Surrogates are refused in both forms. -/
def bracedCodePoint? (count : Nat) : List Char → Option (Char × List Char)
  | '\x7b' :: cs => do
    let c ← scalar? (← hexNumber? (cs.takeWhile (· ≠ '\x7d')))
    match cs.dropWhile (· ≠ '\x7d') with
    | _ :: rest => return (c, rest)
    | [] => none
  | cs => codePoint? count cs

/-! ## Escapes -/

/-- Whether a character may follow a backslash to stand for itself. Letters and digits are kept for
escapes with a meaning, also where there is none yet. -/
def escapable (dialect : Dialect) (c : Char) : Bool :=
  match dialect with
  | .regular => c.toNat < 128 && !c.isAlphanum
  | .extended => !c.isAlphanum

/-- Edges of words that are asked for by name, in braces behind the escape for an edge. -/
def namedEdges : List (String × Anchor) :=
  [("start", .wordStart), ("end", .wordEnd), ("start-half", .wordStartHalf),
   ("end-half", .wordEndHalf)]

/-- Whether a character may stand in the name of an edge. Names are looked up afterwards, so a name
that is not known is refused. -/
def inEdgeName (c : Char) : Bool := c.isAlpha || c = '-'

/-- An edge of a word, from behind its escape on. A brace with a letter or a hyphen behind it begins
a name, which has to be a known one; any other brace is left for what follows, which may be a
count. -/
def wordEdge? (cs : List Char) : Option (Lexeme × List Char) :=
  match cs with
  | '\x7b' :: named =>
    let name := named.takeWhile inEdgeName
    if name.isEmpty then some (.anchor .wordEdge, cs)
    else
      match namedEdges.lookup (String.ofList name), named.dropWhile inEdgeName with
      | some edge, '\x7d' :: rest => some (.anchor edge, rest)
      | _, _ => none
  | _ => some (.anchor .wordEdge, cs)

/-- What follows a backslash: the name of a class, an edge or a character, or a character that
stands for itself. In the extended dialect a number is a reference to a group. -/
def escape? (dialect : Dialect) : List Char → Option (Lexeme × List Char)
  | 'w' :: cs => some (.set .word, cs)
  | 'W' :: cs => some (.set (.compl .word), cs)
  | 'd' :: cs => some (.set .digit, cs)
  | 'D' :: cs => some (.set (.compl .digit), cs)
  | 's' :: cs => some (.set .blank, cs)
  | 'S' :: cs => some (.set (.compl .blank), cs)
  | 'b' :: cs => wordEdge? cs
  | 'B' :: cs => some (.anchor .noWordEdge, cs)
  | 'A' :: cs => some (.anchor .textStart, cs)
  | 'z' :: cs => some (.anchor .textEnd, cs)
  | '<' :: cs => some (.anchor .wordStart, cs)
  | '>' :: cs => some (.anchor .wordEnd, cs)
  | 'n' :: cs => some (.char '\n', cs)
  | 'r' :: cs => some (.char '\r', cs)
  | 't' :: cs => some (.char '\t', cs)
  | 'f' :: cs => some (.char '\x0c', cs)
  | 'v' :: cs => some (.char '\x0b', cs)
  | 'a' :: cs => some (.char '\x07', cs)
  | 'x' :: cs => (bracedCodePoint? 2 cs).map fun (c, rest) => (.char c, rest)
  | 'u' :: cs => (bracedCodePoint? 4 cs).map fun (c, rest) => (.char c, rest)
  | 'U' :: cs => (bracedCodePoint? 8 cs).map fun (c, rest) => (.char c, rest)
  | c :: cs =>
    if escapable dialect c then some (.char c, cs)
    else if dialect = .extended then (number? (c :: cs)).map fun (n, rest) => (.backref n, rest)
    else none
  | [] => none

/-! ## Classes -/

/-- How a class combines what stands before an operator with what stands behind it. All operators
bind alike, from left to right. -/
inductive ClassOperator where
  | both
  | without
  | eitherOnly
  deriving DecidableEq

/-- Result of an operator; without one, the operand itself. Differences are made from intersections
and complements. -/
def combine : Option (ClassOperator × CharSet) → CharSet → CharSet
  | none, operand => operand
  | some (.both, left), operand => .inter left operand
  | some (.without, left), operand => .inter left (.compl operand)
  | some (.eitherOnly, left), operand =>
    .inter (.union left operand) (.compl (.inter left operand))

/-- Classes of ASCII characters that have a name, by the ranges they consist of. -/
def asciiClasses : List (String × List (Char × Char)) :=
  [("alnum", [('0', '9'), ('A', 'Z'), ('a', 'z')]),
   ("alpha", [('A', 'Z'), ('a', 'z')]),
   ("ascii", [('\x00', '\x7f')]),
   ("blank", [('\t', '\t'), (' ', ' ')]),
   ("cntrl", [('\x00', '\x1f'), ('\x7f', '\x7f')]),
   ("digit", [('0', '9')]),
   ("graph", [('!', '~')]),
   ("lower", [('a', 'z')]),
   ("print", [(' ', '~')]),
   ("punct", [('!', '/'), (':', '@'), ('[', '\x60'), ('\x7b', '~')]),
   ("space", [('\t', '\r'), (' ', ' ')]),
   ("upper", [('A', 'Z')]),
   ("word", [('0', '9'), ('A', 'Z'), ('_', '_'), ('a', 'z')]),
   ("xdigit", [('0', '9'), ('A', 'F'), ('a', 'f')])]

/-- A named class of ASCII characters, from behind the bracket that opens it to behind the one that
closes it. The name stands between colons, and a caret before it takes the other characters. What
has not this form, or not a known name, is no failure: it is then a class of its own. -/
def asciiClass? : List Char → Option (CharSet × List Char)
  | ':' :: cs =>
    let (negated, cs) := match cs with
      | '^' :: rest => (true, rest)
      | _ => (false, cs)
    match cs.dropWhile (· ≠ ':') with
    | ':' :: ']' :: rest =>
      (asciiClasses.lookup (String.ofList (cs.takeWhile (· ≠ ':')))).map fun ranges =>
        let set := CharSet.ofRanges ranges
        (if negated then .compl set else set, rest)
    | _ => none
  | _ => none

/-- One member of a class: a literal or a class by its escape. Edges and references are no members
and refused later. -/
def classMember? (dialect : Dialect) : List Char → Option (Lexeme × List Char)
  | '\\' :: cs => escape? dialect cs
  | c :: cs => some (.char c, cs)
  | [] => none

/-- A member, or a range if a hyphen follows that neither ends the class nor doubles. -/
def classItem? (dialect : Dialect) (cs : List Char) : Option (CharSet × List Char) := do
  let (member, rest) ← classMember? dialect cs
  match rest with
  | '-' :: next :: behind =>
    if next = ']' || next = '-' then
      match member with
      | .char c => some (.single c, rest)
      | .set set => some (set, rest)
      | _ => none
    else
      match member, ← classMember? dialect (next :: behind) with
      | .char first, (.char last, rest) =>
        if first ≤ last then some (.range first last, rest) else none
      | _, _ => none
  | _ =>
    match member with
    | .char c => some (.single c, rest)
    | .set set => some (set, rest)
    | _ => none

mutual
/-- A class from behind its opening bracket to behind its closing one. Hyphens at its head are
    literal, and so is a closing bracket there. The number bounds the steps. -/
def class? (dialect : Dialect) : Nat → List Char → Option (CharSet × List Char)
  | 0, _ => none
  | steps + 1, cs =>
    let (negated, cs) := match cs with
      | '^' :: rest => (true, rest)
      | _ => (false, cs)
    let start := match cs with
      | '-' :: _ => (CharSet.single '-', cs.dropWhile (· = '-'))
      | ']' :: rest => (.single ']', rest)
      | _ => (.none, cs)
    (classBody? dialect steps none start.1 start.2).map fun (set, rest) =>
      (if negated then .compl set else set, rest)

/-- The rest of a class behind the members in `set` and, before an operator, those in `left`. A
bracket opens a named class of ASCII characters if it can, and else a class inside the class. -/
def classBody? (dialect : Dialect) :
    Nat → Option (ClassOperator × CharSet) → CharSet → List Char → Option (CharSet × List Char)
  | 0, _, _, _ => none
  | steps + 1, left, set, cs =>
    match cs with
    | [] => none
    | ']' :: rest => some (combine left set, rest)
    | '[' :: rest => do
      let (inner, rest) ← (asciiClass? rest).or (class? dialect steps rest)
      classBody? dialect steps left (.union set inner) rest
    | '&' :: '&' :: rest =>
      classBody? dialect steps (some (.both, combine left set)) .none rest
    | '-' :: '-' :: rest =>
      classBody? dialect steps (some (.without, combine left set)) .none rest
    | '~' :: '~' :: rest =>
      classBody? dialect steps (some (.eitherOnly, combine left set)) .none rest
    | _ => do
      let (item, rest) ← classItem? dialect cs
      classBody? dialect steps left (.union set item) rest
end

/-! ## Groups -/

/-- The flag that a letter names. The flags for white space, laziness and Unicode have none here and
are refused. -/
def flag? : Char → Option Flag
  | 'i' => some .ignoreCase
  | 'm' => some .multiLine
  | 's' => some .dotAll
  | _ => none

/-- Flags up to a closing bracket, which makes them a directive, or a colon, which opens a group.
    `fresh` says that no flag has been read since the start or the hyphen. The regular dialect
    takes each flag once. -/
def flagChanges? (dialect : Dialect) (on fresh : Bool) (changes : FlagChanges) :
    List Char → Option (Lexeme × List Char)
  | ')' :: cs => if fresh then none else some (.flags changes.reverse, cs)
  | ':' :: cs =>
    if fresh && !on then none else some (.opening (.bare changes.reverse), cs)
  | '-' :: cs => if on then flagChanges? dialect false true changes cs else none
  | c :: cs => do
    let flag ← flag? c
    if dialect = .regular && (changes.map Prod.fst).contains flag then none
    else flagChanges? dialect on false ((flag, on) :: changes) cs
  | [] => none

/-- Whether a text may name a group. It begins with a letter or a low line; what follows may also be
a digit, a dot or a bracket. -/
def isGroupName : List Char → Bool
  | [] => false
  | c :: cs =>
    (Unicode.isWord c && !Unicode.isDigit c) &&
      cs.all (fun d => Unicode.isWord d || d = '.' || d = '[' || d = ']')

/-- A group's name up to the closing angle bracket. Whether another group has it already is found
out when the pattern is read. -/
def groupName? (cs : List Char) : Option (Lexeme × List Char) :=
  let name := cs.takeWhile (· ≠ '>')
  match cs.dropWhile (· ≠ '>') with
  | _ :: rest =>
    if isGroupName name then some (.opening (.capture (some (String.ofList name))), rest) else none
  | [] => none

/-- What follows an opening bracket: a question mark with what it asks for, or the group's own
contents. -/
def opening? (dialect : Dialect) : List Char → Option (Lexeme × List Char)
  | '?' :: '=' :: cs => extended (.look false false) cs
  | '?' :: '!' :: cs => extended (.look false true) cs
  | '?' :: '<' :: '=' :: cs => extended (.look true false) cs
  | '?' :: '<' :: '!' :: cs => extended (.look true true) cs
  | '?' :: '>' :: cs => extended .atomic cs
  | '?' :: '<' :: cs => groupName? cs
  | '?' :: 'P' :: '<' :: cs => groupName? cs
  | '?' :: cs => flagChanges? dialect true true [] cs
  | cs => some (.opening (.capture none), cs)
where
  /-- An opening that only the extended dialect has. -/
  extended (opening : Opening) (cs : List Char) : Option (Lexeme × List Char) :=
    if dialect = .extended then some (.opening opening, cs) else none

/-! ## Quantifiers -/

/-- A quantifier with its suffix: a question mark makes it lazy, and then a plus sign makes it
    possessive in the extended dialect. -/
def withSuffix (dialect : Dialect) (least : Nat) (most : Option Nat) (cs : List Char) :
    Lexeme × List Char :=
  let (greedy, cs) := match cs with
    | '?' :: rest => (false, rest)
    | _ => (true, cs)
  match dialect, cs with
  | .extended, '+' :: rest => (.quantifier least most greedy true, rest)
  | _, _ => (.quantifier least most greedy false, cs)

/-- A count; the regular dialect admits blanks around it, and the extended one takes a brace with
blanks as a literal. -/
def count? (dialect : Dialect) (cs : List Char) : Option (Nat × List Char) :=
  match dialect with
  | .regular =>
    (number? (cs.dropWhile Unicode.isBlank)).map fun (n, rest) =>
      (n, rest.dropWhile Unicode.isBlank)
  | .extended => number? cs

/-- A counted quantifier from behind its opening brace: `n`, `n,` or `n,m`, and in the extended
    dialect also `,m`. -/
def counted? (dialect : Dialect) (cs : List Char) : Option (Lexeme × List Char) :=
  let least := match dialect, cs with
    | .extended, ',' :: _ => some (0, cs)
    | _, _ => count? dialect cs
  match least with
  | some (n, '\x7d' :: rest) => some (withSuffix dialect n (some n) rest)
  | some (n, ',' :: '\x7d' :: rest) => some (withSuffix dialect n none rest)
  | some (n, ',' :: rest) =>
    match count? dialect rest with
    | some (m, '\x7d' :: rest) => some (withSuffix dialect n (some m) rest)
    | _ => none
  | _ => none

/-! ## The whole pattern -/

/-- The lexeme in front and the characters behind it. At the head of an alternative and behind a
    quantifier, `loose`, the extended dialect takes a brace as a literal. -/
def lexeme? (dialect : Dialect) (loose : Bool) : List Char → Option (Lexeme × List Char)
  | [] => none
  | '.' :: cs => some (.dot, cs)
  | '^' :: cs => some (.caret, cs)
  | '$' :: cs => some (.dollar, cs)
  | '|' :: cs => some (.bar, cs)
  | ')' :: cs => some (.closing, cs)
  | '(' :: cs => opening? dialect cs
  | '[' :: cs => (class? dialect (cs.length + 1) cs).map fun (set, rest) => (.set set, rest)
  | '\\' :: cs => escape? dialect cs
  | '*' :: cs => some (withSuffix dialect 0 none cs)
  | '+' :: cs => some (withSuffix dialect 1 none cs)
  | '?' :: cs => some (withSuffix dialect 0 (some 1) cs)
  | '\x7b' :: cs =>
    let literal := some (.char '\x7b', cs)
    match dialect with
    | .regular => counted? dialect cs
    | .extended => if loose then literal else (counted? dialect cs).or literal
  | c :: cs => some (.char c, cs)

/-- Whether nothing that could be counted stands before the next lexeme. A brace there is a literal
in the extended dialect. -/
def Lexeme.leavesLoose : Lexeme → Bool
  | .bar | .opening _ | .quantifier _ _ _ _ => true
  | _ => false

/-- All lexemes of a pattern; the number bounds their count. One that is not recognised makes the
pattern none. -/
def lexemesWithin (dialect : Dialect) : (steps : Nat) → (loose : Bool) → List Char →
    Option (List Lexeme)
  | _, _, [] => some []
  | 0, _, _ => none
  | steps + 1, loose, cs => do
    let (lexeme, rest) ← lexeme? dialect loose cs
    return lexeme :: (← lexemesWithin dialect steps lexeme.leavesLoose rest)

/-- All lexemes of a pattern, if it falls apart into lexemes. Each takes at least one character, so
    the length bounds their count. -/
def lexemes? (dialect : Dialect) (cs : List Char) : Option (List Lexeme) :=
  lexemesWithin dialect cs.length true cs

end TextDecoration.Pattern
