import TextDecoration.Error
import TextDecoration.Pattern.Basic
import TextDecoration.Table

/-!
# Rules and grammars

A grammar is an ordered table of categories, each with its alternative rules. The order is the
priority: a rule is tried before every rule behind it. A rule may carry a grammar of its own, which
cuts what the rule matched once more. Grammars are values: composing two of them leaves both as
they are, and a rule that is embedded elsewhere is a copy.
-/

namespace TextDecoration

/-- One alternative of a category: where it fits, and what is made of a match. -/
structure Rule where
  /-- Where the rule fits. -/
  pattern : Pattern
  /-- Whether the pattern's first group is context that stays outside the token. -/
  lookbehind : Bool := false
  /-- The rule's alias: the category whose style stands in where its own has none. -/
  fallback : Option String := none
  /-- Grammar for the matched text. An empty one still makes the token a nested one. -/
  inside : Option (Table (List Rule)) := none

/-- An ordered table of categories with their rules. The order is the priority of the categories,
and within one category the rules are tried in their order. -/
abbrev Grammar := Table (List Rule)

mutual
/-- Whether two rules agree in their texts, their settings and their nested grammars. Patterns count
as the same if they are written alike; how they were compiled is not compared. -/
def Rule.same : Rule → Rule → Bool
  | ⟨pattern, lookbehind, fallback, inside⟩, ⟨pattern', lookbehind', fallback', inside'⟩ =>
    pattern.text == pattern'.text && lookbehind == lookbehind' && fallback == fallback' &&
      Rule.sameInside inside inside'

/-- Whether two optional grammars agree. An empty grammar inside a rule is a different thing from
none. -/
def Rule.sameInside : Option (Table (List Rule)) → Option (Table (List Rule)) → Bool
  | none, none => true
  | some grammar, some grammar' => Grammar.same grammar grammar'
  | _, _ => false

/-- Whether two grammars have the same categories with the same rules, in the same order. Two orders
of the same entries are different priorities. -/
def Grammar.same : Table (List Rule) → Table (List Rule) → Bool
  | ⟨entries⟩, ⟨entries'⟩ => Rule.sameEntries entries entries'

/-- Whether two lists of categories agree, entry by entry. -/
def Rule.sameEntries : List (String × List Rule) → List (String × List Rule) → Bool
  | [], [] => true
  | entry :: later, entry' :: later' => Rule.sameEntry entry entry' && Rule.sameEntries later later'
  | _, _ => false

/-- Whether two categories agree in their names and in their rules. -/
def Rule.sameEntry : String × List Rule → String × List Rule → Bool
  | (category, rules), (category', rules') => category == category' && Rule.sameList rules rules'

/-- Whether two lists of rules agree, rule by rule. -/
def Rule.sameList : List Rule → List Rule → Bool
  | [], [] => true
  | rule :: later, rule' :: later' => Rule.same rule rule' && Rule.sameList later later'
  | _, _ => false
end

instance : BEq Rule := ⟨Rule.same⟩

instance : BEq Grammar := ⟨Grammar.same⟩

namespace Rule

/-- The rule of a pattern, with no further settings: its token is the whole match, a leaf without an
alias. -/
def ofPattern (pattern : Pattern) : Rule := { pattern }

/-- The rule of a pattern's text, or the failure to compile the text, which keeps it and the
compiler's words about it. -/
def ofText (compile : Compiler) (text : String) : Except Error Rule :=
  match compile text with
  | .ok pattern => .ok (ofPattern pattern)
  | .error reason => .error (.invalidPattern text reason)

/-- The rule with the first group as context, which then has to be there but stays outside the
token. -/
def withLookbehind (rule : Rule) : Rule := { rule with lookbehind := true }

/-- The rule with an alias. A rule has one alias at most, so an earlier one is lost. -/
def withFallback (rule : Rule) (fallback : String) : Rule := { rule with fallback := some fallback }

/-- The rule with a grammar for what it matches. It takes the place of one that the rule had
before. -/
def withInside (rule : Rule) (grammar : Grammar) : Rule := { rule with inside := some grammar }

end Rule

namespace Grammar

/-- The grammar without rules. It leaves every text plain. -/
def empty : Grammar := Table.empty

/-- The grammar with a further alternative for a category, behind those it has. A category without
alternatives is added at the end, where it has the lowest priority. -/
def rule (grammar : Grammar) (category : String) (rule : Rule) : Grammar :=
  grammar.alter category fun rules => rules.getD [] ++ [rule]

/-- The grammar with all alternatives of a category replaced. The category keeps its place, or is
added at the end if it had none. -/
def rules (grammar : Grammar) (category : String) (rules : List Rule) : Grammar :=
  grammar.put category rules

/-- Categories in order of priority. A category whose list of rules is empty is among them. -/
def categories (grammar : Grammar) : List String := grammar.names

/-- The grammar with `rules` under `category` in the nested grammar of every rule of `parent`. A
    rule that had no nested grammar gets one. -/
def embed (grammar : Grammar) (parent category : String) (rules : List Rule) : Grammar :=
  grammar.modify parent fun parents =>
    parents.map fun rule => rule.withInside ((rule.inside.getD empty).put category rules)

end Grammar

end TextDecoration
