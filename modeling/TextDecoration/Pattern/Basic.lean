import TextDecoration.Pattern.Reading
import TextDecoration.Pattern.Retry

/-!
# Patterns

A pattern is a text together with a meaning. A text that the regular dialect admits is searched
without retries; any other one is read in the extended dialect and searched by retrying, within an
allowance for each search.

To compile a pattern is left open here, as is to locate one. `Pattern.compile` is the compiler of
this library, and another one may know more of the notation or refuse more of it. A pattern whose
text this library reads has the meaning that it reads; one whose text it does not read may have any.

A search goes from left to right and settles for the first position at which the pattern fits;
there it takes the stretch that the pattern prefers.
-/

namespace TextDecoration.Pattern

/-- What a pattern's text means. It is all that a search looks at; the text itself is kept to be
shown and compared. -/
structure Meaning where
  /-- The tree to be matched. -/
  node : Node
  /-- Number of capturing groups. -/
  groups : Nat
  /-- Whether the search has to retry, and so may have to give up. -/
  retries : Bool
  deriving DecidableEq

/-- The meaning of a text, regular if possible; none if no dialect admits the text. The regular
dialect comes first since a search without retries never has to give up. -/
def readMeaning (text : List Char) : Option Meaning :=
  match readTree .regular text with
  | some tree => some ⟨tree.node, tree.groups, false⟩
  | none => (readTree .extended text).map fun tree =>
    ⟨tree.node.settled tree.asked true, tree.groups, true⟩

end TextDecoration.Pattern

namespace TextDecoration

open Pattern

/-- A pattern: a text and its meaning. Patterns with the same text are equal wherever this library
reads the text. -/
structure Pattern where
  /-- The pattern as written. -/
  text : String
  /-- What it means. -/
  meaning : Meaning
  /-- Where this library reads the text, the meaning is what it reads. About other texts nothing is
  claimed. -/
  read : ∀ known, readMeaning text.toList = some known → meaning = known
  deriving DecidableEq

/-- A way of compiling patterns: the pattern of a text or, in words, why the text is none. -/
abbrev Compiler := String → Except String Pattern

namespace Pattern

/-- Patterns whose text this library reads are determined by the text, so it is enough to compare
texts. -/
theorem eq_of_text_eq {p q : Pattern} (known : (readMeaning q.text.toList).isSome = true)
    (same : p.text = q.text) : p = q := by
  obtain ⟨meaning, found⟩ := Option.isSome_iff_exists.mp known
  obtain ⟨text, own, read⟩ := p
  obtain ⟨text', own', read'⟩ := q
  cases same
  cases read _ found
  cases read' _ found
  rfl

/-- The pattern of a text, if the text is one that this library reads. It reads a part of the
notation and refuses the rest. -/
def ofText? (text : String) : Option Pattern :=
  match read : readMeaning text.toList with
  | some meaning => some ⟨text, meaning, fun _ known => Option.some.inj (read.symm.trans known)⟩
  | none => none

/-- The compiler of this library. Its words about a text that is no pattern are its own: they take
the place of what an engine says about its syntax. -/
def compile : Compiler := fun text =>
  match ofText? text with
  | some pattern => .ok pattern
  | none => .error "not in the syntax of patterns"

/-- The pattern of a text that is known to be one, as the texts of a built-in grammar are. -/
def known (text : String) (valid : (readMeaning text.toList).isSome = true) : Pattern where
  text := text
  meaning := (readMeaning text.toList).get valid
  read := fun meaning known => by simp only [known, Option.get_some]

/-- The text of a pattern that is known to be one is read, without another look at it. -/
theorem isSome_readMeaning_known {text : String}
    (valid : (readMeaning text.toList).isSome = true) :
    (readMeaning (known text valid).text.toList).isSome = true := valid

/-- The compiler of this library compiles every text that it reads. -/
theorem compile_known {text : String} (valid : (readMeaning text.toList).isSome = true) :
    compile text = .ok (known text valid) := by
  have found : ofText? text = some (known text valid) := by
    rw [ofText?]
    split
    · next meaning read => simp only [known, read, Option.get_some]
    · next none =>
      rw [none] at valid
      cases valid
  rw [compile, found]

/-- The compiler of this library refuses every text that it does not read, and the reason it gives
is always the same. -/
theorem compile_unknown {text : String} (invalid : readMeaning text.toList = none) :
    ∃ reason, compile text = .error reason := by
  have none : ofText? text = none := by
    rw [ofText?]
    split
    · next meaning read => cases invalid.symm.trans read
    · rfl
  exact ⟨_, by rw [compile, none]⟩

/-- Where a pattern fits: the stretch it takes and where its first group ends in it. Of the other
groups nothing is told. -/
structure Fit where
  /-- Position at which the stretch begins. -/
  start : Nat
  /-- Position behind the stretch. -/
  stop : Nat
  /-- End of the first capturing group, if that group took part. It may lie behind the stretch,
  where the group looks ahead. -/
  groupStop : Option Nat
  deriving DecidableEq

/-- The fit of a stretch. The fourth slot holds the end of the first group; a pattern without a
group has no such slot. -/
def fit (start stop : Nat) (slots : Slots) : Fit := ⟨start, stop, slots[3]?.join⟩

/-- Slots of a pattern before anything has been stored; the first pair belongs to no group. -/
def emptySlots (pattern : Pattern) : Slots := List.replicate (2 * (pattern.meaning.groups + 1)) none

/-- Retries that one search may take. A search that would need more finds nothing. -/
def allowance : Nat := 1000000

/-- The first of `count` positions from `position` on at which a regular tree fits. No position is
tried twice. -/
def firstFit (text : Array Char) (node : Node) (slots : Slots) : (count position : Nat) → Option Fit
  | 0, _ => none
  | count + 1, position =>
    match node.preferred text position slots with
    | some stretch => some (fit position stretch.stop stretch.slots)
    | none => firstFit text node slots count (position + 1)

/-- The first of `count` positions from `position` on at which a tree fits that is searched by
retrying; to go on to the next position is a retry. There is no fit if the allowance is used up,
also if one would follow. -/
def firstFitRetrying (text : Array Char) (node : Node) (slots : Slots) :
    (count position allowance : Nat) → Option Fit
  | 0, _, _ => none
  | count + 1, position, allowance =>
    match node.attempt text position slots allowance .fits with
    | .fits stop slots _ => some (fit position stop slots)
    | .fails (allowance + 1) => firstFitRetrying text node slots count (position + 1) allowance
    | .fails 0 | .givesUp => none

/-- The leftmost fit of a pattern at or behind a position. Anchors, word edges and look-behind see
    the whole text. -/
def locate (pattern : Pattern) (text : Array Char) (position : Nat) : Option Fit :=
  let count := text.size + 1 - position
  if pattern.meaning.retries then
    firstFitRetrying text pattern.meaning.node pattern.emptySlots count position allowance
  else firstFit text pattern.meaning.node pattern.emptySlots count position

end Pattern

end TextDecoration
