/-!
# What can go wrong

Cutting, projecting and painting never fail. What can fail is to read a pattern, to find a grammar
by its name, to read a file or a configuration, and to make sense of the command line.
-/

namespace TextDecoration

/-- Why a file or the standard input could not be read. Only the system's own words about a refusal
are kept; the other two faults always read the same. -/
inductive ReadFault where
  /-- There is no such file. -/
  | notFound
  /-- The file is there, but the system does not let it be read. -/
  | refused (reason : String)
  /-- The bytes are not the UTF-8 form of any text. -/
  | notUtf8
  deriving DecidableEq

/-- What is wrong with a command line. A file that does not exist is found out later and is no fault
of this kind. -/
inductive UsageFault where
  /-- The option that names a grammar came last. -/
  | grammarWithoutName
  /-- An option that does not exist. -/
  | unknownOption (option : String)
  deriving DecidableEq

/-- What a configuration holds in place of what it should. Each fault is about one place of the
document, and the first one met ends the reading. -/
inductive ConfigFault where
  /-- A field that does not exist. -/
  | unknownField (field : String) (expected : List String)
  /-- A field that is not there. -/
  | missingField (field : String)
  /-- A word that is none of the words expected. -/
  | unknownVariant (word : String) (expected : List String)
  /-- A value of another kind; both are described in words. -/
  | wrongType (found expected : String)
  /-- What is there is neither a word nor a table that names one. -/
  | noVariant
  /-- A table that names no variant, or several. -/
  | variantCount (several : Bool)
  /-- A variant with a table or an array that holds something. -/
  | variantFilled (container : String)
  /-- A variant with a value of a kind that cannot be empty. -/
  | variantValue (kind : String)
  /-- A sequence that ends before all of a structure's fields are there. -/
  | tooShort (length : Nat) (expected : String)
  deriving DecidableEq

/-- A failure of an operation. Every failure keeps what its message names. -/
inductive Error where
  /-- A text that a compiler of patterns refuses, with the compiler's reason in its own words. -/
  | invalidPattern (pattern reason : String)
  | unknownGrammar (name : String)
  | unreadable (fault : ReadFault)
  | usage (fault : UsageFault)
  /-- The text of a configuration is not a document at all. What is wrong with it is not told. -/
  | configSyntax
  /-- The document is not a configuration. -/
  | config (fault : ConfigFault)
  deriving DecidableEq

/-- Names in backquotes, as a choice among them. Two are joined by one word, and more come as a
list. -/
def oneOf (names : List String) : String :=
  let quoted := names.map fun name => "`" ++ name ++ "`"
  match quoted with
  | [] => "there are no fields"
  | [only] => only
  | [left, right] => left ++ " or " ++ right
  | several => "one of " ++ String.intercalate ", " several

/-- The fault in words, which are the system's own. -/
def ReadFault.message : ReadFault → String
  | .notFound => "No such file or directory (os error 2)"
  | .refused reason => reason
  | .notUtf8 => "stream did not contain valid UTF-8"

/-- The fault in words. An option that does not exist is named. -/
def UsageFault.message : UsageFault → String
  | .grammarWithoutName => "--grammar needs a name"
  | .unknownOption option => "unknown option: " ++ option

/-- The fault in words, naming the field or the word that it is about. It does not tell where in the
document that stands. -/
def ConfigFault.message : ConfigFault → String
  | .unknownField field expected => "unknown field `" ++ field ++ "`, expected " ++ oneOf expected
  | .missingField field => "missing field `" ++ field ++ "`"
  | .unknownVariant word expected =>
    "unknown variant `" ++ word ++ "`, expected " ++ oneOf expected
  | .wrongType found expected => "invalid type: " ++ found ++ ", expected " ++ expected
  | .noVariant => "wanted string or table"
  | .variantCount several =>
    "wanted exactly 1 element, " ++ (if several then "more than 1 element" else "found 0 elements")
  | .variantFilled container => "expected empty " ++ container
  | .variantValue kind => "expected table, found " ++ kind
  | .tooShort length expected => "invalid length " ++ toString length ++ ", expected " ++ expected

/-- The failure in words. About a text that is no document a parser would have more to say, and
where; these words are left out here, and no run shows them, since a configuration that cannot be
loaded counts as none. -/
def Error.message : Error → String
  | .invalidPattern pattern reason => "Invalid pattern `" ++ pattern ++ "`: " ++ reason
  | .unknownGrammar name => "No such grammar: " ++ name
  | .unreadable fault => "I/O error: " ++ fault.message
  | .usage fault => "I/O error: " ++ fault.message
  | .configSyntax => "Invalid configuration"
  | .config fault => "Invalid configuration: " ++ fault.message

end TextDecoration
