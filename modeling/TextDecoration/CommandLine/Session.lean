import TextDecoration.CommandLine.Invocation

/-!
# A run step by step

A run does one step after the other: it understands its arguments, makes its decorator, loads its
document and writes, line by line. A step that fails ends the run, and what was written before stays
written. `Invocation.run` says in one piece what such a run leaves behind.
-/

namespace TextDecoration

/-- Steps that write to the standard output and may end the run. The state is what has been
written, and it is there whether or not the run has come to its end. -/
abbrev Session := ExceptT Halt (StateM String)

namespace Session

/-- Write a text. What a system does that refuses the output is not told here. -/
def write (text : String) : Session Unit := modify (· ++ text)

/-- Go on with a result, or end as it does. What was written before stays written in either case. -/
def take {α : Type} (result : Except Halt α) : Session α := ExceptT.mk (pure result)

/-- Go on with a result, or end with its failure, to be reported when the run is over. -/
def require {α : Type} (result : Except Error α) : Session α := take (result.mapError .failed)

/-- What is left behind when all steps are done or one has ended the run. What was written before
that step stays in the output. -/
def outcome (alarm : ByteArray → String) (session : Session Unit) : Outcome :=
  match session.run.run "" with
  | (.ok (), written) => ⟨0, written, ""⟩
  | (.error (.failed error), written) => ⟨1, written, "Error: " ++ error.message ++ "\n"⟩
  | (.error (.stopped argument), written) => ⟨Outcome.stoppedCode, written, alarm argument⟩

end Session

/-- Write about a document, line by line or range by range. No step of it can fail. -/
def OutputMode.write (mode : OutputMode) (decorator : Decorator) (buffer : Buffer) :
    Session Unit :=
  match mode with
  | .painted => buffer.textNodes.forM fun node =>
    Session.write
      (paint node.text (decorator.decorateNode node.path node.text) Theme.markdown ++ "\n")
  | .tokens => buffer.textNodes.forM fun node => do
    Session.write (NodePath.shown node.path ++ "\n")
    Session.write (Token.listing (Grammar.tokenize decorator.grammar node.text))
  | .ranges => (decorator.decorate buffer.textNodes).forM fun range =>
    Session.write (range.summary ++ "\n")
  | .json =>
    Session.write ((Json.Value.array
      ((decorator.decorate buffer.textNodes).map Range.toJson)).pretty ++ "\n")

/-- The steps of a run: understand the arguments, make the decorator, load the document and write.
The order decides which of several failures is reported. -/
def Invocation.session (invocation : Invocation) : Session Unit := do
  match ← Session.take invocation.request with
  | .help => Session.write helpText
  | .version => Session.write (unlines [programVersion])
  | .decorate options =>
    let decorator ← Session.require (invocation.decorator options)
    let buffer ← Session.require (invocation.buffer options)
    options.mode.write decorator buffer

end TextDecoration
