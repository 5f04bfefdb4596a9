import TextDecoration.Grammar.Basic
import TextDecoration.Text.Offset

/-!
# Finding a rule's token

A rule's pattern fits a stretch of the text. With the lookbehind setting the pattern's first group
is only context, and the token begins where that group ends. A token must not be empty: where it
would be, the search goes on one character behind the fit, or behind the position it began at if
the fit ends before that.

How patterns are searched for is left open here: an engine does it, and `Pattern.locate` is the
engine of this library.
-/

namespace TextDecoration

/-- A token found in a text. Positions count characters. -/
structure Hit where
  /-- Where the pattern's fit begins, context included. -/
  origin : Nat
  /-- Where the token begins. -/
  start : Nat
  /-- Position behind the token. -/
  stop : Nat
  deriving DecidableEq

/-- The token that a fit yields, empty or not. A group that ends before the fit begins does not
    pull the token out of it. -/
def Pattern.Fit.hit (lookbehind : Bool) (fit : Pattern.Fit) : Hit :=
  { origin := fit.start
    start := if lookbehind then max (fit.groupStop.getD fit.start) fit.start else fit.start
    stop := fit.stop }

/-- A way of locating patterns: the fit that a search for a pattern in a text settles for, at or
    behind a position. -/
abbrev Engine := Pattern → Array Char → Nat → Option Pattern.Fit

namespace Engine

/-- Search again and again from a position on, at most `count` times. Behind a fit at the text's
    end there is nothing left to search. -/
def findWithin (engine : Engine) (pattern : Pattern) (lookbehind : Bool) (text : Array Char) :
    (count position : Nat) → Option Hit
  | 0, _ => none
  | count + 1, position =>
    match engine pattern text position with
    | none => none
    | some fit =>
      let hit := fit.hit lookbehind
      if hit.start < hit.stop then some hit
      else
        let next := max fit.stop position
        if next < text.size then findWithin engine pattern lookbehind text count (next + 1)
        else none

/-- The first non-empty token at or behind a position. Every further search begins behind the one
    before, so there are no more searches than positions left. -/
def find (engine : Engine) (pattern : Pattern) (lookbehind : Bool) (text : Array Char)
    (start : Nat) : Option Hit :=
  engine.findWithin pattern lookbehind text (text.size + 1 - start) start

/-- The first non-empty token at or behind a position that counts the bytes of the text's UTF-8
form. A position between the bytes of one character, which no caller passes, is one at which nothing
is found. -/
def findAtByte (engine : Engine) (pattern : Pattern) (lookbehind : Bool) (text : String)
    (start : Nat) : Option Hit := do
  let cs := text.toList
  let hit ← engine.find pattern lookbehind cs.toArray (← Text.charOffset? cs start)
  return { origin := Text.byteOffset cs hit.origin
           start := Text.byteOffset cs hit.start
           stop := Text.byteOffset cs hit.stop }

end Engine

namespace Rule

/-- The first token of a rule at or behind a position, by the engine of this library. -/
def findAt (rule : Rule) (text : Array Char) (start : Nat) : Option Hit :=
  Engine.find Pattern.locate rule.pattern rule.lookbehind text start

/-- The first token of a rule at or behind a position that counts the bytes of the text's UTF-8
form, by the engine of this library. -/
def findAtByte (rule : Rule) (text : String) (start : Nat) : Option Hit :=
  Engine.findAtByte Pattern.locate rule.pattern rule.lookbehind text start

end Rule

end TextDecoration
