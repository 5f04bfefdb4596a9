import TextDecoration.Error

/-!
# Arguments of the command line

Arguments are read from left to right. The first that asks for help or for the version settles
what is to be done, and the first that cannot be understood makes the reading fail; what stands
behind it is not looked at. Otherwise every later setting replaces the earlier one of its kind, so
settings of different kinds may come in any order.

The system hands arguments over as bytes, and each is made a text when its turn comes. One that is
the UTF-8 form of no text stops the program at that point, without a message of the program's own;
one that stands behind an argument that settles the reading does no harm.
-/

namespace TextDecoration

/-- What is written about a decorated document. The modes differ in nothing else: what is read and
what can fail is the same for all. -/
inductive OutputMode where
  /-- The text itself, painted. -/
  | painted
  /-- The token tree of each line. -/
  | tokens
  /-- One line for each range. -/
  | ranges
  /-- All ranges as JSON. -/
  | json
  deriving DecidableEq

/-- Settings of the command line. Each kind is set once at most in the end, whatever the number of
options. -/
structure Options where
  mode : OutputMode := .painted
  /-- Name of a grammar. -/
  grammar : Option String := none
  /-- Path of the document; a hyphen stands for the standard input, as does no path. -/
  file : Option String := none
  deriving DecidableEq

/-- What the command line asks for. Help and version end a run before anything is read. -/
inductive Request where
  | help
  | version
  | decorate (options : Options)
  deriving DecidableEq

/-- What a single argument is, where no name of a grammar is due. Behind the option for a grammar
every argument is a name, even one that looks like an option. -/
inductive Argument where
  | help
  | version
  | mode (mode : OutputMode)
  /-- The next argument is the name of a grammar. -/
  | grammar
  | file
  /-- An option that does not exist. -/
  | unknown
  deriving DecidableEq

namespace Argument

/-- The options that exist. Every other argument that begins with a hyphen is refused. -/
def options : List (String × Argument) :=
  [("--help", .help), ("-h", .help), ("--version", .version), ("-V", .version),
   ("--tokens", .mode .tokens), ("--ranges", .mode .ranges), ("--json", .mode .json),
   ("--grammar", .grammar), ("-g", .grammar), ("-", .file)]

/-- What an argument is: an option, or a file unless it begins like an option. A single hyphen is a
file, which stands for the standard input. -/
def ofText (text : String) : Argument :=
  match options.lookup text with
  | some argument => argument
  | none => if text.toList.head? = some '-' then .unknown else .file

end Argument

/-- Why a run ends before it is done. The two are reported in different ways, with different exit
codes. -/
inductive Halt where
  /-- Something fails, and the failure is reported. -/
  | failed (error : Error)
  /-- The turn has come of an argument that is no text. -/
  | stopped (argument : ByteArray)

/-- The text of an argument that is handed over as bytes. Bytes that are the UTF-8 form of no text
stop the program. -/
def Argument.ofBytes (bytes : ByteArray) : Except Halt String :=
  match String.fromUTF8? bytes with
  | some text => .ok text
  | none => .error (.stopped bytes)

namespace Request

section Reading

variable {Raw ε : Type} (decode : Raw → Except ε String) (misused : UsageFault → ε)

/-- What further arguments ask for when some settings have been made. An argument is decoded when
its turn comes and not before, so the reading ends ahead of one that does not decode if it is
settled by then. -/
def read (options : Options) : List Raw → Except ε Request
  | [] => .ok (.decorate options)
  | raw :: later =>
    match decode raw with
    | .error failure => .error failure
    | .ok text =>
      match Argument.ofText text, later with
      | .help, _ => .ok .help
      | .version, _ => .ok .version
      | .mode mode, later => read { options with mode } later
      | .grammar, [] => .error (misused .grammarWithoutName)
      | .grammar, next :: later =>
        match decode next with
        | .error failure => .error failure
        | .ok name => read { options with grammar := some name } later
      | .file, later => read { options with file := some text } later
      | .unknown, _ => .error (misused (.unknownOption text))

end Reading

/-- What further arguments ask for that are texts already: nothing is left to decode, and what is
misused is told as it is. -/
def ofArguments (options : Options) (texts : List String) : Except UsageFault Request :=
  read .ok id options texts

/-- What the arguments of a run ask for, as the system hands them over. What is misused becomes a
failure that is reported. -/
def ofBytes (options : Options) (arguments : List ByteArray) : Except Halt Request :=
  read Argument.ofBytes (fun fault => .failed (.usage fault)) options arguments

end Request

end TextDecoration
