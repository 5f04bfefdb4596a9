import TextDecoration.Error
import TextDecoration.Grammar.Basic
import TextDecoration.Range.Projection

/-!
# Configurations

A configuration chooses a grammar and a tag policy, and it lays rules of its own over the grammar.
The rules are laid one after the other in the order of the configuration. Each makes up a whole
category: it replaces the category of its name, in place or ahead of an anchor.
-/

namespace TextDecoration

/-- A rule of a configuration, as written. Its pattern may turn out to be none, which is found out
when the rule is laid over a grammar. -/
structure ConfiguredRule where
  category : String
  /-- Text of the pattern, which is not compiled while the configuration is read. -/
  pattern : String
  /-- The rule's alias, if it declares one. -/
  fallback : Option String := none
  /-- Whether the pattern's first group is context that stays outside the token. -/
  lookbehind : Bool := false
  /-- Category ahead of which the rule goes. -/
  before : Option String := none
  deriving DecidableEq

/-- The settings of a configuration. What a document leaves out has the default value, so the empty
document is the default configuration. -/
structure Config where
  /-- Name of the grammar for files whose extension does not tell it. It need not be the name of any
  grammar. -/
  grammar : Option String := none
  policy : TagPolicy := .outermost
  rules : List ConfiguredRule := []
  deriving DecidableEq

namespace ConfiguredRule

/-- The rule itself, with its settings, if its pattern compiles. Where the rule goes is not part of
it. -/
def rule (compile : Compiler) (configured : ConfiguredRule) : Except Error Rule := do
  let rule ← Rule.ofText compile configured.pattern
  return { rule with lookbehind := configured.lookbehind, fallback := configured.fallback }

/-- The grammar with the rule laid over it: ahead of its anchor if it has one, and else in the place
of its category or at the end. -/
def layOver (compile : Compiler) (grammar : Grammar) (configured : ConfiguredRule) :
    Except Error Grammar := do
  let addition := Grammar.empty.rule configured.category (← configured.rule compile)
  match configured.before with
  | some anchor => return grammar.insertBefore anchor addition
  | none => return grammar.extend addition

end ConfiguredRule

namespace Config

/-- The grammar with all rules of the configuration laid over it, in the configuration's order. The
first rule whose pattern does not compile makes it fail. -/
def apply (config : Config) (compile : Compiler) (base : Grammar) : Except Error Grammar :=
  config.rules.foldlM (ConfiguredRule.layOver compile) base

end Config

end TextDecoration
