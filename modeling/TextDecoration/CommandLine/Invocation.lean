import TextDecoration.Buffer
import TextDecoration.CommandLine.Options
import TextDecoration.Config.Reading
import TextDecoration.Painting
import TextDecoration.Registry
import TextDecoration.Token.Listing

/-!
# A run of the command line

A run depends on its arguments, on the standard input, on files and on two variables of its
environment, and on nothing else. It either succeeds and writes to the standard output alone, or
it fails and writes one message to the standard error output alone. The output mode decides only
what is written when all else has succeeded.

There is a third way to end. An argument that is no text stops the program as soon as its turn
comes; it leaves the exit code of a program that was stopped, and what it writes is not the
program's own.

Three parts of a run are taken as they come, and the laws about runs hold of any: the compiler of
the patterns in a configuration, the system's words about a file that it does not let be read, and
the words about an argument that is no text.
-/

namespace TextDecoration

/-- What a run depends on. Two runs that agree in all of this leave the same behind. -/
structure Invocation where
  /-- The arguments, as the bytes that the system hands over. The name that the program was called
  by is not among them. -/
  arguments : List ByteArray
  /-- Bytes of the standard input, all of them; a run reads it only if the options name no
  document. -/
  input : ByteArray
  /-- Bytes of a file, if there is one at the path. A run asks for its configuration and for its
  document, and for nothing else. -/
  file : String → Option ByteArray
  /-- Why the system does not let what is at a path be read, in its own words, if it does not. A
  directory counts among what it does not let be read. -/
  refusal : String → Option String := fun _ => none
  /-- Path of a configuration, which goes before the one in the home directory. A variable that is
  set to bytes that are no text counts as one that is not set. -/
  configVariable : Option String := none
  /-- The home directory, if the variable for it is set to a text. -/
  home : Option String := none
  /-- How the patterns of a configuration are compiled. The built-in grammars are there already and
  do not depend on it. -/
  compile : Compiler := Pattern.compile
  /-- What is written when an argument that is no text stops the program. The words are not the
  program's own, so nothing is assumed about them. -/
  alarm : ByteArray → String

/-- What a run leaves behind, as far as another program can see it. What is logged is not part of
it. -/
structure Outcome where
  /-- The exit code. -/
  code : Nat
  /-- What went to the standard output. -/
  output : String
  /-- What went to the standard error output. -/
  complaint : String
  deriving DecidableEq

namespace Outcome

/-- The exit code of a program that was stopped in the middle and did not fail by itself. -/
def stoppedCode : Nat := 101

/-- The outcome of a run that succeeds with an output, fails or is stopped. Only a success writes to
the standard output, and only a failure is reported in the program's own words. -/
def ofResult (alarm : ByteArray → String) : Except Halt String → Outcome
  | .ok output => ⟨0, output, ""⟩
  | .error (.failed error) => ⟨1, "", "Error: " ++ error.message ++ "\n"⟩
  | .error (.stopped argument) => ⟨stoppedCode, "", alarm argument⟩

end Outcome

/-- Lines, each with its end, the last one too. No lines at all write nothing. -/
def unlines (lines : List String) : String := String.join (lines.map (· ++ "\n"))

/-- Name of the grammar when nothing chooses one: no option, no extension and no configuration. -/
def defaultGrammar : String := "markdown"

/-- The program's name and version, as one line without its end. -/
def programVersion : String := "markdeco 0.1.0"

/-- The help text. It lists the built-in grammars as the registry knows them. -/
def helpText : String :=
  unlines
    [programVersion ++ " - markdown decoration engine",
     "",
     "Usage: markdeco [OPTIONS] [FILE]",
     "",
     "Reads FILE (or stdin) and prints it decorated.",
     "",
     "Options:",
     "  --tokens           Print the token tree of each line",
     "  --ranges           Print decorated ranges",
     "  --json             Print decorated ranges as JSON",
     "  -g, --grammar NAME Grammar to use (default: " ++ defaultGrammar ++ ")",
     "  -h, --help         Show this help message",
     "  -V, --version      Show version information",
     "",
     "Grammars: " ++ String.intercalate ", " Registry.builtin.names.toList,
     "Config: ~/.markdeco.toml (override with MARKDECO_CONFIG)",
     "Logging: RUST_LOG=debug markdeco FILE"]

namespace OutputMode

/-- What is written about a document, all of it in one text. `Session` tells in which steps it is
written. -/
def written (mode : OutputMode) (decorator : Decorator) (buffer : Buffer) : String :=
  match mode with
  | .painted =>
    unlines <| buffer.textNodes.map fun node =>
      paint node.text (decorator.decorateNode node.path node.text) Theme.markdown
  | .tokens =>
    String.join <| buffer.textNodes.map fun node =>
      NodePath.shown node.path ++ "\n" ++
        Token.listing (Grammar.tokenize decorator.grammar node.text)
  | .ranges => unlines ((decorator.decorate buffer.textNodes).map Range.summary)
  | .json =>
    unlines [(Json.Value.array ((decorator.decorate buffer.textNodes).map Range.toJson)).pretty]

end OutputMode

namespace Invocation

/-- Path of the configuration: the one that the variable names, or else the one in the home
directory. If neither is set there is no configuration to be read. -/
def configPath (invocation : Invocation) : Option String :=
  invocation.configVariable.or
    (invocation.home.map fun directory => Text.pathIn directory ".markdeco.toml")

/-- Whether the system lets what is at a path be read. Where nothing is there is nothing to refuse,
and reading fails for another reason. -/
def access (invocation : Invocation) (path : String) : Except Error Unit :=
  match invocation.refusal path with
  | some reason => .error (.unreadable (.refused reason))
  | none => .ok ()

/-- The configuration at a path, or why it cannot be loaded. A run shows no trace of that reason. -/
def configAt (invocation : Invocation) (path : String) : Except Error Config := do
  invocation.access path
  Config.ofFile (invocation.file path)

/-- The configuration. One that is not there or cannot be read counts as the default settings. -/
def config (invocation : Invocation) : Config :=
  match invocation.configPath with
  | some path => Config.orDefault (invocation.configAt path)
  | none => {}

/-- Name of the grammar: the option's, the one that the file's extension tells, the
    configuration's, or the default. -/
def grammarName (options : Options) (config : Config) : String :=
  (options.grammar.or ((options.file.bind Registry.builtin.detect).or config.grammar)).getD
    defaultGrammar

/-- The decorator for the options and the configuration: the grammar that is chosen, with the rules
of the configuration laid over it, and the configuration's policy. -/
def decorator (invocation : Invocation) (options : Options) : Except Error Decorator := do
  let config := invocation.config
  let base ← Registry.builtin.resolve (grammarName options config)
  return { grammar := ← config.apply invocation.compile base, policy := config.policy }

/-- Path of the document, unless it comes from the standard input. A single hyphen names the
standard input, not a file of that name. -/
def documentPath (options : Options) : Option String := options.file.filter (· ≠ "-")

/-- The document, from a file or from the standard input. Only a document from a file bears the
file's name. -/
def buffer (invocation : Invocation) (options : Options) : Except Error Buffer :=
  match documentPath options with
  | some path => do
    invocation.access path
    Buffer.ofFile path (invocation.file path)
  | none => do return Buffer.ofText "*stdin*" (← Text.ofBytes invocation.input)

/-- The output of a decorating run, or why it fails. The mode is asked last, when nothing can fail
any more. -/
def decorate (invocation : Invocation) (options : Options) : Except Error String := do
  let decorator ← invocation.decorator options
  let buffer ← invocation.buffer options
  return options.mode.written decorator buffer

/-- What the arguments ask for, or why that cannot be told: one is refused, or one is no text. -/
def request (invocation : Invocation) : Except Halt Request :=
  Request.ofBytes {} invocation.arguments

/-- The output of a run, or why there is none. Help and version are given without a look at files or
settings. -/
def result (invocation : Invocation) : Except Halt String :=
  match invocation.request with
  | .ok .help => .ok helpText
  | .ok .version => .ok (unlines [programVersion])
  | .ok (.decorate options) => (invocation.decorate options).mapError .failed
  | .error halt => .error halt

/-- What a run leaves behind, told in one piece. `Invocation.outcome_session_eq` shows that its
steps leave the same. -/
def run (invocation : Invocation) : Outcome := Outcome.ofResult invocation.alarm invocation.result

end Invocation

end TextDecoration
