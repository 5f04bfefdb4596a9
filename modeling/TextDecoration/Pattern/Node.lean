import TextDecoration.Pattern.CharSet

/-!
# Pattern trees

A pattern tree says which stretches of a text a pattern accepts and in which order it prefers them.
Groups that capture are written with marks: a mark stores the current position in a slot, slot
`2 * g` where group `g` begins and slot `2 * g + 1` where it ends. Counted repetitions are unfolded
when a pattern is read, so three loops remain: `star` and `plus`, and `more`, which is what is left
of either after an iteration that took some text.

A tree without back-references and look-around is *regular*: whether it accepts a stretch does not
depend on what the slots hold, and a search for it never has to retry.
-/

namespace TextDecoration.Pattern

/-- A condition on a position. The position is judged in the whole text, also when a search begins
    behind the text's start. -/
inductive Anchor where
  | textStart
  | textEnd
  | lineStart
  | lineEnd
  /-- A word begins or ends at the position. -/
  | wordEdge
  | noWordEdge
  /-- A word begins at the position. -/
  | wordStart
  /-- A word ends at the position. -/
  | wordEnd
  /-- No word character stands before the position, so a word may begin there. -/
  | wordStartHalf
  /-- No word character stands at the position, so a word may end there. -/
  | wordEndHalf
  deriving DecidableEq

/-- A pattern tree. Groups are marks around a part, and repetitions with bounds are spelled out when
the tree is built. -/
inductive Node where
  /-- Accepts the empty stretch. -/
  | empty
  /-- Accepts one character of a set. -/
  | char (set : CharSet)
  /-- Accepts the empty stretch where the condition holds. -/
  | anchor (condition : Anchor)
  /-- Accepts the empty stretch and stores the position. -/
  | mark (slot : Nat)
  /-- Accepts a stretch of the first tree with one of the second behind it. -/
  | seq (first second : Node)
  /-- Either, preferring the first. -/
  | alt (first second : Node)
  /-- At most once; preferring once if greedy. -/
  | optional (greedy : Bool) (body : Node)
  /-- Any number of times. -/
  | star (greedy : Bool) (body : Node)
  /-- At least once. -/
  | plus (greedy : Bool) (body : Node)
  /-- Any number of further times, none of them empty. -/
  | more (greedy : Bool) (body : Node)
  /-- The text that a group took last; it fails while the group has taken none. -/
  | backref (ignoreCase : Bool) (group : Nat)
  /-- Accepts the empty stretch where `body` fits ahead of the position, or ends at it; or where it
  does not, if that is asked. -/
  | look (behind negated : Bool) (body : Node)
  /-- Accepts only the stretch that `body` prefers. -/
  | atomic (body : Node)
  deriving DecidableEq, Inhabited

/-- Stored positions, `none` where nothing has been stored. Each group has two neighbouring slots,
for its start and its end. -/
abbrev Slots := List (Option Nat)

namespace Node

/-- A capturing group: the part between two marks that store where it begins and ends. -/
def group (index : Nat) (body : Node) : Node :=
  .seq (.mark (2 * index)) (.seq body (.mark (2 * index + 1)))

/-- Sequence without needless empty parts at its head, so that equal obligations are written
alike. -/
def andThen : Node → Node → Node
  | .empty, second => second
  | first, second => .seq first second

/-- The nodes one after the other; the empty list of nodes accepts the empty stretch. -/
def sequence : List Node → Node
  | [] => .empty
  | [node] => node
  | node :: nodes => .seq node (sequence nodes)

/-- The first of the nodes that fits; the empty list of nodes accepts the empty stretch. -/
def choice : List Node → Node
  | [] => .empty
  | [node] => node
  | node :: nodes => .alt node (choice nodes)

/-- The node `count` times, then `last`. Each copy is a part of its own, which makes the tree larger
than the pattern. -/
def copies (node : Node) : Nat → Node → Node
  | 0, last => last
  | count + 1, last => .seq node (copies node count last)

/-- The node at most `count` times. Each further time is taken only if the one before was. -/
def upTo (greedy : Bool) (node : Node) : Nat → Node
  | 0 => .empty
  | 1 => .optional greedy node
  | count + 1 => .optional greedy (.seq node (upTo greedy node count))

/-- The node at least `least` times and, if a limit is given, at most `most` times. -/
def times (greedy : Bool) (node : Node) : Nat → Option Nat → Node
  | 0, none => .star greedy node
  | 1, none => .plus greedy node
  | least + 1, none => copies node least (.plus greedy node)
  | least, some most =>
    if most = least then sequence (List.replicate least node)
    else copies node least (upTo greedy node (most - least))

/-- Groups that some back-reference asks for, with repetitions. -/
def references : Node → List Nat
  | .backref _ group => [group]
  | .seq first second | .alt first second => first.references ++ second.references
  | .optional _ body | .star _ body | .plus _ body | .more _ body | .look _ _ body
  | .atomic body => body.references
  | _ => []

/-- Whether the tree holds no back-reference, no look-around and no mark of a group in `asked`. Such
a tree can be followed without retries. -/
def regular (asked : List Nat) : Node → Bool
  | .empty | .char _ | .anchor _ => true
  | .mark slot => !asked.contains (slot / 2)
  | .seq first second | .alt first second => first.regular asked && second.regular asked
  | .optional _ body | .star _ body | .plus _ body | .more _ body => body.regular asked
  | .backref _ _ | .look _ _ _ | .atomic _ => false

/-- Number of characters of every accepted stretch, where that number is fixed. A look-behind over
such a tree has one start. -/
def width : Node → Option Nat
  | .empty | .anchor _ | .mark _ | .look _ _ _ => some 0
  | .char _ => some 1
  | .seq first second => do return (← first.width) + (← second.width)
  | .alt first second => do
    let left ← first.width
    let right ← second.width
    if left = right then some left else none
  | .atomic body => body.width
  | .optional _ _ | .star _ _ | .plus _ _ | .more _ _ | .backref _ _ => none

end Node

/-- Whether the character at a position, if there is one, is a word character. Behind the text there
is none. -/
def wordAt (text : Array Char) (position : Nat) : Bool :=
  match text[position]? with
  | some c => Unicode.isWord c
  | none => false

/-- Whether the character before a position, if there is one, is a word character. Before the text
there is none. -/
def wordBefore (text : Array Char) : Nat → Bool
  | 0 => false
  | position + 1 => wordAt text position

/-- Whether an anchor's condition holds at a position of a text. It depends on the characters next
to the position and on the text's bounds alone. -/
def Anchor.holds (text : Array Char) (position : Nat) : Anchor → Bool
  | .textStart => position == 0
  | .textEnd => position == text.size
  | .lineStart => position == 0 || text[position - 1]? == some '\n'
  | .lineEnd => position == text.size || text[position]? == some '\n'
  | .wordEdge => wordBefore text position != wordAt text position
  | .noWordEdge => wordBefore text position == wordAt text position
  | .wordStart => !wordBefore text position && wordAt text position
  | .wordEnd => wordBefore text position && !wordAt text position
  | .wordStartHalf => !wordBefore text position
  | .wordEndHalf => !wordAt text position

end TextDecoration.Pattern
