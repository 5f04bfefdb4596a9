import TextDecoration.Pattern.Leads

/-!
# Searching by retrying

A tree with back-references or look-around is searched by trying its alternatives in order of
preference and coming back to the next one whenever what follows does not fit. That can take
exponentially many retries, so every search carries an allowance: each retry uses one, and a search
that has none left gives up. Giving up differs from a failure: the search ends there and then,
whatever alternatives remain.

A tree is matched against a position together with what is to follow, a function from the end of
its stretch to the outcome of the whole. The only loop that needs a bound is the one that takes
text; every iteration takes at least one character, so the characters ahead bound it.
-/

namespace TextDecoration.Pattern

/-- What came of an attempt. Giving up is told apart from failing, since it ends the whole
search. -/
inductive Outcome where
  /-- Everything fits, up to position `stop`, with this allowance left. -/
  | fits (stop : Nat) (slots : Slots) (allowance : Nat)
  /-- Nothing fits, with this allowance left. -/
  | fails (allowance : Nat)
  /-- The allowance did not suffice to tell. -/
  | givesUp

/-- What is to follow: it is given the position reached, the slots and the allowance. A part
succeeds only if what is to follow does. -/
abbrev Follow := Nat → Slots → Nat → Outcome

/-- Retry with `second` where `first` failed and the allowance admits it. Each such retry takes one
from the allowance. -/
def Outcome.orRetry (first : Outcome) (second : Nat → Outcome) : Outcome :=
  match first with
  | .fits stop slots allowance => .fits stop slots allowance
  | .fails (allowance + 1) => second allowance
  | .fails 0 => .givesUp
  | .givesUp => .givesUp

/-- The attempt that a loop prefers, and the other one where it fails. A greedy loop prefers its
body. -/
def Outcome.inOrder (greedy : Bool) (body leave : Nat → Outcome) (allowance : Nat) : Outcome :=
  if greedy then (body allowance).orRetry leave else (leave allowance).orRetry body

/-- Whether two characters are equal, or equal but for the case of an ASCII letter. References know
no other case. -/
def sameChar (ignoreCase : Bool) (c d : Char) : Bool :=
  c == d || (ignoreCase && c.toLower == d.toLower)

/-- The text that a group holds, if it has taken part. Where its end lies before its start, it holds
the empty text. -/
def captured (text : Array Char) (slots : Slots) (group : Nat) : Option (List Char) :=
  match slots[2 * group]?, slots[2 * group + 1]? with
  | some (some start), some (some stop) => some (text.extract start stop).toList
  | _, _ => none

/-- Whether the characters stand at a position of the text, one after the other and up to its
end. -/
def standsAt (text : Array Char) (ignoreCase : Bool) : List Char → Nat → Bool
  | [], _ => true
  | c :: cs, position =>
    match text[position]? with
    | some d => sameChar ignoreCase c d && standsAt text ignoreCase cs (position + 1)
    | none => false

/-- Further iterations of a loop body, at most `ahead` of them, each taking some text. One that
takes none would never end and is dropped. -/
def iterate (greedy : Bool) (body : Nat → Slots → Nat → Follow → Outcome) :
    (ahead position : Nat) → Slots → Nat → Follow → Outcome
  | 0, position, slots, allowance, follow => follow position slots allowance
  | ahead + 1, position, slots, allowance, follow =>
    Outcome.inOrder greedy
      (fun allowance => body position slots allowance fun reached slots allowance =>
        if reached ≤ position then .fails allowance
        else iterate greedy body ahead reached slots allowance follow)
      (fun allowance => follow position slots allowance)
      allowance

/-- The positions from which a look-behind at `position` may begin: the one that the width of its
    body leaves open, or else all, nearest first. -/
def lookStarts (body : Node) (position : Nat) : List Nat :=
  match body.width with
  | some width => if width ≤ position then [position - width] else []
  | none => (List.range (position + 1)).reverse

/-- The first of several attempts that does not fail. Trying a further one is a retry. -/
def firstOf (attempt : Nat → Nat → Outcome) : List Nat → Nat → Outcome
  | [], allowance => .fails allowance
  | [start], allowance => attempt start allowance
  | start :: starts, allowance => (attempt start allowance).orRetry (firstOf attempt starts)

/-- Go on after a part that was matched on its own. What follows can fail, but the part is not
retried then. -/
def Outcome.resume (part : Outcome) (follow : Follow) : Outcome :=
  match part with
  | .fits stop slots allowance => follow stop slots allowance
  | .fails allowance => .fails allowance
  | .givesUp => .givesUp

/-- Go on at `position` if what was looked for is there, or is not there where that was asked. -/
def Outcome.afterLook (part : Outcome) (negated : Bool) (position : Nat) (slots : Slots)
    (follow : Follow) : Outcome :=
  match part, negated with
  | .fits _ found allowance, false => follow position found allowance
  | .fits _ _ allowance, true => .fails allowance
  | .fails allowance, false => .fails allowance
  | .fails allowance, true => follow position slots allowance
  | .givesUp, _ => .givesUp

/-- Match a tree at a position, preferring as the tree prefers, with `follow` to be satisfied behind
it. Where `follow` fails, the next way through the tree is tried. -/
def Node.attempt (text : Array Char) : Node → Nat → Slots → Nat → Follow → Outcome
  | .empty, position, slots, allowance, follow => follow position slots allowance
  | .char set, position, slots, allowance, follow =>
    match text[position]? with
    | some c => if set.contains c then follow (position + 1) slots allowance else .fails allowance
    | none => .fails allowance
  | .anchor condition, position, slots, allowance, follow =>
    if condition.holds text position then follow position slots allowance else .fails allowance
  | .mark slot, position, slots, allowance, follow =>
    follow position (slots.set slot (some position)) allowance
  | .seq first second, position, slots, allowance, follow =>
    first.attempt text position slots allowance fun reached slots allowance =>
      second.attempt text reached slots allowance follow
  | .alt first second, position, slots, allowance, follow =>
    (first.attempt text position slots allowance follow).orRetry fun allowance =>
      second.attempt text position slots allowance follow
  | .optional greedy body, position, slots, allowance, follow =>
    Outcome.inOrder greedy
      (fun allowance => body.attempt text position slots allowance follow)
      (fun allowance => follow position slots allowance)
      allowance
  | .star greedy body, position, slots, allowance, follow
  | .more greedy body, position, slots, allowance, follow =>
    iterate greedy (body.attempt text) (text.size - position) position slots allowance follow
  | .plus greedy body, position, slots, allowance, follow =>
    body.attempt text position slots allowance fun reached slots allowance =>
      iterate greedy (body.attempt text) (text.size - reached) reached slots allowance follow
  | .backref ignoreCase group, position, slots, allowance, follow =>
    match captured text slots group with
    | some cs =>
      if standsAt text ignoreCase cs position then follow (position + cs.length) slots allowance
      else .fails allowance
    | none => .fails allowance
  | .look false negated body, position, slots, allowance, follow =>
    (body.attempt text position slots allowance .fits).afterLook negated position slots follow
  | .look true negated body, position, slots, allowance, follow =>
    (firstOf
      (fun start allowance => body.attempt text start slots allowance fun reached slots allowance =>
        if reached = position then .fits reached slots allowance else .fails allowance)
      (lookStarts body position) allowance).afterLook negated position slots follow
  | .atomic body, position, slots, allowance, follow =>
    if body.regular [] then
      match body.preferred text position slots with
      | some stretch => follow stretch.stop stretch.slots allowance
      | none => .fails allowance
    else (body.attempt text position slots allowance .fits).resume follow

/-- The tree with each part after which nothing follows, and which needs no retry, matched by its
    preferred stretch alone. The text that is found stays the same; the retries inside such a part
    are saved. `last` says that nothing follows. -/
def Node.settled (asked : List Nat) (last : Bool) (node : Node) : Node :=
  if last && node.regular asked then .atomic node
  else
    match node with
    | .seq first second => .seq (first.settled asked false) (second.settled asked last)
    | .alt first second => .alt (first.settled asked last) (second.settled asked last)
    | .optional greedy body => .optional greedy (body.settled asked last)
    | .star greedy body => .star greedy (body.settled asked false)
    | .plus greedy body => .plus greedy (body.settled asked false)
    | .look behind negated body => .look behind negated (body.settled asked (!behind))
    | .atomic body => .atomic (body.settled asked true)
    | other => other

end TextDecoration.Pattern
