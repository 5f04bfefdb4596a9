import TextDecoration.Config.Basic
import TextDecoration.Number.Shortest
import TextDecoration.Text.Quoted
import TextDecoration.Text.Utf8
import TextDecoration.Toml.Document

/-!
# Reading a configuration

A configuration is written as a TOML document. Its tables may hold the fields named here and no
others, each with a value of its kind. Fields are checked in the order in which they are written,
and what is wrong first is what is reported; that a field is missing is found when all others have
been checked.
-/

namespace TextDecoration

namespace Toml.Value

/-- A value in words, as something else was expected. Arrays and tables are told by their kind
alone, without what they hold. -/
def inWords : Value → String
  | .string text => "string " ++ Text.quote text
  | .integer n => "integer `" ++ toString n ++ "`"
  | .float x => "floating point `" ++ Number.floatText x ++ "`"
  | .boolean b => "boolean `" ++ (if b then "true" else "false") ++ "`"
  | .moment _ => "map"
  | .array _ => "sequence"
  | .table _ => "map"

/-- The kind of a value in a word or two, as another reader names it: the words differ from those of
`inWords`. -/
def kind : Value → String
  | .string _ => "string"
  | .integer _ => "integer"
  | .float _ => "float"
  | .boolean _ => "boolean"
  | .moment _ => "datetime"
  | .array _ => "array"
  | .table _ => "inline table"

end Toml.Value

namespace Config

/-- A value that has to be a string. Nothing is made a string that was written otherwise. -/
def readText : Toml.Value → Except ConfigFault String
  | .string text => .ok text
  | value => .error (.wrongType value.inWords "a string")

/-- A value that has to be a boolean. The words for yes and no are not taken for one. -/
def readFlag : Toml.Value → Except ConfigFault Bool
  | .boolean b => .ok b
  | value => .error (.wrongType value.inWords "a boolean")

/-! ## The tag policy -/

/-- The policies by their names, in the order in which a fault lists them. -/
def policies : List (String × TagPolicy) := [("outermost", .outermost), ("nested", .nested)]

/-- The policy of a name. Names are compared exactly, without regard to a likeness in case. -/
def readPolicyName (word : String) : Except ConfigFault TagPolicy :=
  match policies.lookup word with
  | some policy => .ok policy
  | none => .error (.unknownVariant word (policies.map Prod.fst))

/-- What is written for a policy besides its name has to be an empty table or array, since a policy
takes no further settings. -/
def checkNoContent : Toml.Value → Except ConfigFault Unit
  | .table entries => if entries.isEmpty then .ok () else .error (.variantFilled "table")
  | .array elements => if elements.isEmpty then .ok () else .error (.variantFilled "array")
  | value => .error (.variantValue value.kind)

/-- A policy: its name, or a table with its name as the only key. The second form is how a choice
with settings would be written. -/
def readPolicy : Toml.Value → Except ConfigFault TagPolicy
  | .string word => readPolicyName word
  | .table [(word, content)] => do
    let policy ← readPolicyName word
    checkNoContent content
    return policy
  | .table entries => .error (.variantCount (!entries.isEmpty))
  | _ => .error .noVariant

/-! ## Rules -/

/-- The fields of a rule that have been read. A field that is not there yet is told apart from one
that is empty. -/
structure RuleFields where
  category : Option String := none
  pattern : Option String := none
  fallback : Option String := none
  lookbehind : Bool := false
  before : Option String := none

/-- Names of a rule's fields in their order, which is also the order of their values where they are
written without names. -/
def ruleFieldNames : List String := ["category", "pattern", "alias", "lookbehind", "before"]

/-- Read a field of a rule. A field that is not known ends the reading, so no spelling mistake goes
unnoticed. -/
def readRuleField (fields : RuleFields) (field : String × Toml.Value) :
    Except ConfigFault RuleFields := do
  let (name, value) := field
  if name = "category" then return { fields with category := some (← readText value) }
  else if name = "pattern" then return { fields with pattern := some (← readText value) }
  else if name = "alias" then return { fields with fallback := some (← readText value) }
  else if name = "lookbehind" then return { fields with lookbehind := ← readFlag value }
  else if name = "before" then return { fields with before := some (← readText value) }
  else throw (.unknownField name ruleFieldNames)

/-- The rule of the fields read, where `missing` tells what is wrong if a field is not there. Of two
that are missing the category is told first. -/
def RuleFields.rule (fields : RuleFields) (missing : Nat → String → ConfigFault) :
    Except ConfigFault ConfiguredRule :=
  match fields.category, fields.pattern with
  | none, _ => .error (missing 0 "category")
  | some _, none => .error (missing 1 "pattern")
  | some category, some pattern =>
    .ok { category, pattern, fallback := fields.fallback, lookbehind := fields.lookbehind
          before := fields.before }

/-- A rule: a table of its fields, or an array of their values in order, of which some may be left
    out at the end. -/
def readRule : Toml.Value → Except ConfigFault ConfiguredRule
  | .table entries => do
    let fields ← entries.foldlM readRuleField {}
    fields.rule fun _ name => .missingField name
  | .array elements => do
    let fields ← (ruleFieldNames.zip elements).foldlM readRuleField {}
    fields.rule fun count _ => .tooShort count "struct RuleConfig with 5 elements"
  | .moment _ => .error (.unknownField "$__toml_private_datetime" ruleFieldNames)
  | value => .error (.wrongType value.inWords "struct RuleConfig")

/-- The rules in order. The first one that cannot be read ends the reading. -/
def readRules : Toml.Value → Except ConfigFault (List ConfiguredRule)
  | .array elements => elements.mapM readRule
  | value => .error (.wrongType value.inWords "a sequence")

/-! ## The whole configuration -/

/-- Names of the fields, in the order in which a fault lists them. -/
def fieldNames : List String := ["grammar", "nested-tags", "rule"]

/-- Read a field of the configuration. A field that is not known ends the reading, as in a rule. -/
def readField (config : Config) (field : String × Toml.Value) : Except ConfigFault Config := do
  let (name, value) := field
  if name = "grammar" then return { config with grammar := some (← readText value) }
  else if name = "nested-tags" then return { config with policy := ← readPolicy value }
  else if name = "rule" then return { config with rules := ← readRules value }
  else throw (.unknownField name fieldNames)

/-- The configuration that the entries of a document make up. They are read in the document's order,
and the first fault counts. -/
def ofEntries (entries : List (String × Toml.Value)) : Except ConfigFault Config :=
  entries.foldlM readField {}

/-- The configuration that a text writes, or why it writes none. The text has to be a document
before its fields are looked at. -/
def ofText (text : String) : Except Error Config :=
  match Toml.document? text with
  | some entries => (ofEntries entries).mapError .config
  | none => .error .configSyntax

/-- The configuration in a file, where `none` stands for a file that is not there. A file has to
hold a text before it can hold a document. -/
def ofFile (contents : Option ByteArray) : Except Error Config := do
  ofText (← Text.ofFile contents)

/-- A configuration that was loaded, or the default settings if it could not be. The reason is
logged and has no other effect. -/
def orDefault : Except Error Config → Config
  | .ok config => config
  | .error _ => {}

end Config

end TextDecoration
