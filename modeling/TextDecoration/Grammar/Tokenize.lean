import TextDecoration.Grammar.Find
import TextDecoration.Text.Slice
import TextDecoration.Token.Basic

/-!
# Cutting a text into tokens

Rules run one at a time in the grammar's order. Each takes all it finds in the text that is still
plain; later rules see only the fragments that are left. Every fragment is a text of its own: an
anchor holds at its start whatever stands before it, and the text behind a match is a new fragment
for the next search of the same rule. What a rule matched becomes a leaf, or is cut once more by
the rule's nested grammar.

Cutting never fails and loses nothing: the tokens' literal texts, one after the other, are the text.
-/

namespace TextDecoration

/-- How a matched text is turned into a token. It is given the text alone, not where the text
stands. -/
abbrev Classify := String → Token

/-- A rule's token for a matched text: nested if the rule cuts it once more, however little that
cutting finds, and a leaf otherwise. -/
def classify (category : String) (fallback : Option String) (cut : Option (String → List Token)) :
    Classify := fun matched =>
  match cut with
  | none => .leaf category fallback matched
  | some cut => .nested category fallback (cut matched)

/-- A plain token for a text, unless the text is empty. This is the one place where plain tokens are
made, so none of them is empty. -/
def plainToken (cs : List Char) : List Token :=
  if cs.isEmpty then [] else [.plain (String.ofList cs)]

/-- Take every match out of a fragment, at most `count` of them, where `find` locates the first one
    in the text that is left. -/
def splitWithin (find : List Char → Option Hit) (classify : Classify) :
    (count : Nat) → List Char → List Token
  | 0, rest => plainToken rest
  | count + 1, rest =>
    match find rest with
    | none => plainToken rest
    | some hit =>
      plainToken (rest.take hit.start) ++
        classify (String.ofList (slice rest hit.start hit.stop)) ::
          splitWithin find classify count (rest.drop hit.stop)

/-- Take every match out of a fragment. Each match takes at least one character, so there are no
    more of them than characters. -/
def split (find : List Char → Option Hit) (classify : Classify) (fragment : String) : List Token :=
  splitWithin find classify fragment.length fragment.toList

/-- Take all matches out of the plain tokens and leave the other tokens as they are. A classified
token is final: no later rule looks into it. -/
def splitPlain (find : List Char → Option Hit) (classify : Classify) (tokens : List Token) :
    List Token :=
  tokens.flatMap fun
    | .plain fragment => split find classify fragment
    | token => [token]

mutual
/-- One rule's pass over a sequence of tokens. Each plain fragment is searched as a text of its own,
in which `^` holds at the first character. -/
def Rule.pass (engine : Engine) (category : String) : Rule → List Token → List Token
  | ⟨pattern, lookbehind, fallback, inside⟩, tokens =>
    splitPlain (fun rest => engine.find pattern lookbehind rest.toArray 0)
      (classify category fallback (Rule.cutInside engine inside)) tokens

/-- How a nested grammar cuts, if there is one. It is given the matched text as a text of its own,
without what stands around it. -/
def Rule.cutInside (engine : Engine) : Option (Table (List Rule)) → Option (String → List Token)
  | none => none
  | some grammar => some fun text => Grammar.tokenizeBy engine grammar text

/-- The tokens of a text under a grammar whose patterns an engine locates. The empty text has
    none. -/
def Grammar.tokenizeBy (engine : Engine) : Table (List Rule) → String → List Token
  | ⟨entries⟩, text => if text.isEmpty then [] else Rule.passEntries engine entries [.plain text]

/-- The passes of all categories, in order. The tokens that an earlier category leaves are what a
later one begins with. -/
def Rule.passEntries (engine : Engine) : List (String × List Rule) → List Token → List Token
  | [], tokens => tokens
  | entry :: later, tokens =>
    Rule.passEntries engine later (Rule.passEntry engine entry tokens)

/-- The passes of one category, whose name all its tokens get. -/
def Rule.passEntry (engine : Engine) : String × List Rule → List Token → List Token
  | (category, rules), tokens => Rule.passRules engine category rules tokens

/-- The passes of a category's alternatives, in order. An alternative sees only what those before it
left plain. -/
def Rule.passRules (engine : Engine) (category : String) : List Rule → List Token → List Token
  | [], tokens => tokens
  | rule :: later, tokens =>
    Rule.passRules engine category later (Rule.pass engine category rule tokens)
end

/-- The tokens of a text under a grammar, with the engine of this library. -/
def Grammar.tokenize (grammar : Grammar) (text : String) : List Token :=
  Grammar.tokenizeBy Pattern.locate grammar text

end TextDecoration
