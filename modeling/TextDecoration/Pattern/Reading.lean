import TextDecoration.Pattern.Lexeme

/-!
# Reading a pattern

The lexemes of a pattern are read from left to right into a tree, with one frame for every group
that is still open. A frame holds the alternatives that are closed and the pieces of the one that
is open. A flag directive is a piece without a tree: it changes the flags up to the end of its
group and cannot be repeated.

The regular dialect repeats whatever stands before a quantifier, also a repetition. The extended
one repeats neither a repetition nor a part that takes no text by its nature; it refuses a reference
to a group that has not been opened, a reference by number beside named groups, and a look-behind
whose start could not be told.
-/

namespace TextDecoration.Pattern

/-- Switches in force. All are off where a pattern begins. -/
structure Flags where
  ignoreCase : Bool := false
  multiLine : Bool := false
  dotAll : Bool := false
  deriving DecidableEq, Inhabited

/-- The flags with one of them switched, on or off. -/
def Flags.set (flags : Flags) : Flag → Bool → Flags
  | .ignoreCase, on => { flags with ignoreCase := on }
  | .multiLine, on => { flags with multiLine := on }
  | .dotAll, on => { flags with dotAll := on }

/-- The flags after a directive, whose changes are made in the order written. -/
def Flags.after (flags : Flags) (changes : FlagChanges) : Flags :=
  changes.foldl (fun flags change => flags.set change.1 change.2) flags

/-- A part of an alternative. Whether it has been repeated decides whether it may be repeated
again. -/
inductive Piece where
  /-- A flag directive. -/
  | directive
  /-- A part without a quantifier. -/
  | plain (node : Node)
  /-- A part with its quantifier. -/
  | repeated (node : Node)

/-- The tree of a piece; a directive has none. -/
def Piece.node? : Piece → Option Node
  | .directive => none
  | .plain node | .repeated node => some node

/-- A group that is still open, with what has been read of it so far. -/
structure Frame where
  /-- What opened it; for a capturing group its number is in `group`. -/
  opening : Opening
  /-- Number of a capturing group. -/
  group : Nat := 0
  /-- Flags that come back into force behind the group. -/
  outside : Flags := {}
  /-- Closed alternatives, latest first. -/
  choices : List Node := []
  /-- Pieces of the open alternative, latest first. -/
  pieces : List Piece := []

namespace Frame

/-- The frame with a further piece, which belongs to the open alternative. -/
def push (frame : Frame) (piece : Piece) : Frame := { frame with pieces := piece :: frame.pieces }

/-- The tree of the open alternative, in the order of reading again. Without pieces it accepts the
empty stretch. -/
def alternative (frame : Frame) : Node :=
  Node.sequence (frame.pieces.reverse.filterMap Piece.node?)

/-- The tree of all alternatives, in the order of reading again, as the first that fits is
preferred. -/
def body (frame : Frame) : Node := Node.choice (frame.alternative :: frame.choices).reverse

end Frame

/-- How far a pattern has been read, that is, which groups are open and what is known of all groups
so far. -/
structure Reading where
  flags : Flags := {}
  /-- Number of capturing groups opened so far. -/
  groups : Nat := 0
  /-- Names of groups, latest first. -/
  names : List String := []
  /-- Groups asked for by number. -/
  asked : List Nat := []
  /-- The innermost open group; the whole pattern counts as one. -/
  frame : Frame := { opening := .bare [] }
  /-- The groups around it, innermost first. -/
  around : List Frame := []

/-- Whether the extended dialect repeats a part. A part that takes no text by its nature would be
repeated to no end. -/
def Node.repeatable : Node → Bool
  | .empty | .anchor _ | .look _ _ _ => false
  | _ => true

/-- Whether the start of a look-behind over this body can be told: its width is fixed, alternative
    by alternative, or it needs no retry. -/
def Node.boundedBehind (body : Node) : Bool :=
  body.width.isSome || body.regular [] ||
    match body with
    | .alt first second => boundedBehind first && boundedBehind second
    | _ => false

/-- The tree of a group that has been read to its end. There is none for a look-behind whose start
could not be told. -/
def Frame.close? (frame : Frame) : Option Node :=
  match frame.opening with
  | .capture _ => some (.group frame.group frame.body)
  | .bare _ => some frame.body
  | .atomic => some (.atomic frame.body)
  | .look behind negated =>
    if behind && !frame.body.boundedBehind then none
    else some (.look behind negated frame.body)

/-- The pieces with the latest one repeated. There has to be one, and a directive is none that could
be. -/
def repeatLatest (dialect : Dialect) (wrap : Node → Node) : List Piece → Option (List Piece)
  | .plain node :: pieces =>
    if dialect = .regular || node.repeatable then some (.repeated (wrap node) :: pieces) else none
  | .repeated node :: pieces =>
    if dialect = .regular then some (.repeated (wrap node) :: pieces) else none
  | .directive :: _ | [] => none

namespace Reading

/-- The reading with a further part in the open alternative of the innermost group. -/
def add (reading : Reading) (node : Node) : Reading :=
  { reading with frame := reading.frame.push (.plain node) }

/-- The reading with a further part of one character, in the case sense in force where it stands. -/
def addSet (reading : Reading) (set : CharSet) : Reading :=
  reading.add (.char (if reading.flags.ignoreCase then set.ignoringCase else set))

/-- The reading inside a further group. A capturing group gets the next number as it is opened. -/
def enter (reading : Reading) (opening : Opening) : Reading :=
  { reading with
    frame := { opening, group := reading.groups, outside := reading.flags }
    around := reading.frame :: reading.around }

/-- Read one more lexeme. The reading fails where the lexeme may not stand, and nothing is made up
for it. -/
def step (dialect : Dialect) (reading : Reading) : Lexeme → Option Reading
  | .char c => some (reading.addSet (.single c))
  | .dot => some (reading.add (.char (if reading.flags.dotAll then .all else .notNewline)))
  | .set set => some (reading.addSet set)
  | .caret =>
    some (reading.add (.anchor (if reading.flags.multiLine then .lineStart else .textStart)))
  | .dollar =>
    some (reading.add (.anchor (if reading.flags.multiLine then .lineEnd else .textEnd)))
  | .anchor condition => some (reading.add (.anchor condition))
  | .backref group =>
    if group ≤ reading.groups then
      some { reading.add (.backref reading.flags.ignoreCase group) with
        asked := group :: reading.asked }
    else none
  | .bar =>
    let frame := reading.frame
    some { reading with
      frame := { frame with choices := frame.alternative :: frame.choices, pieces := [] } }
  | .opening (.capture name) =>
    if dialect = .regular && name.any (reading.names.contains ·) then none
    else
      let reading :=
        { reading with groups := reading.groups + 1, names := name.toList ++ reading.names }
      some (reading.enter (.capture name))
  | .opening (.bare changes) =>
    let inside := reading.enter (.bare changes)
    some { inside with flags := reading.flags.after changes }
  | .opening opening => some (reading.enter opening)
  | .closing =>
    match reading.around with
    | [] => none
    | frame :: around => do
      let node ← reading.frame.close?
      return { reading with
        flags := reading.frame.outside, frame := frame.push (.plain node), around }
  | .flags changes =>
    some { reading with
      flags := reading.flags.after changes, frame := reading.frame.push .directive }
  | .quantifier least most greedy possessive => do
    if most.any (· < least) then none
    else
      let wrap := fun node =>
        let loop := Node.times greedy node least most
        if possessive then Node.atomic loop else loop
      let pieces ← repeatLatest dialect wrap reading.frame.pieces
      return { reading with frame := { reading.frame with pieces } }

/-- Read lexemes one after the other, up to the first that may not stand where it does. -/
def steps (dialect : Dialect) : Reading → List Lexeme → Option Reading
  | reading, [] => some reading
  | reading, lexeme :: lexemes => do steps dialect (← reading.step dialect lexeme) lexemes

end Reading

/-- The tree of a pattern with the number of its capturing groups and the groups it asks for. Names
are not needed any more. -/
structure Tree where
  node : Node
  groups : Nat
  asked : List Nat

/-- Read a pattern in a dialect. Every group must be closed, and groups that are asked for by number
    must not have names beside them. -/
def readTree (dialect : Dialect) (text : List Char) : Option Tree := do
  let lexemes ← lexemes? dialect text
  let reading ← Reading.steps dialect {} lexemes
  if reading.around.isEmpty && (reading.names.isEmpty || reading.asked.isEmpty) then
    return { node := reading.frame.body, groups := reading.groups, asked := reading.asked }
  else none

end TextDecoration.Pattern
