import TextDecoration.Builtin.Markdown
import TextDecoration.Proofs.Grammar.Reachable

/-!
# The built-in grammars are built

Markup and markdown are made by the operations on grammars alone, and so are the grammars inside
their rules. What holds of every grammar that can be built holds of them.
-/

namespace TextDecoration

namespace Builtin.Markup

open Grammar.Reachable

/-- The grammar of a document type's parts is built, that is, made from the empty grammar by the
operations on grammars alone. -/
theorem doctypeInside_reachable : doctypeInside.Reachable :=
  empty |>.leaf _ rfl |>.leaf _ rfl |>.leaf _ rfl |>.leaf _ rfl

/-- The grammar of a tag's parts is built, with the grammars that are put inside its rules. -/
theorem tagInside_reachable : tagInside.Reachable :=
  empty |>.nested _ (empty |>.leaf _ rfl |>.leaf _ rfl)
    |>.nested _ (empty |>.leaf _ rfl |>.leaf _ rfl)
    |>.leaf _ rfl
    |>.nested _ (empty |>.leaf _ rfl)

/-- The markup grammar is built, and so every law about built grammars holds of it and of all its
parts. -/
theorem reachable : grammar.Reachable :=
  empty |>.leaf _ rfl |>.leaf _ rfl |>.nested _ doctypeInside_reachable |>.leaf _ rfl
    |>.nested _ tagInside_reachable |>.leaf _ rfl |>.leaf _ rfl

end Builtin.Markup

namespace Builtin.Markdown

open Grammar.Reachable

/-- A grammar for marks of punctuation is built, whatever the marks are. -/
theorem punctuation_reachable (marks : Pattern) : (punctuation marks).Reachable :=
  empty.leaf _ rfl

/-- The grammar of the rules that markdown adds is built. Its rules are not yet inside each
other. -/
theorem additions_reachable : additions.Reachable :=
  empty |>.leaf _ rfl |>.leaf _ rfl |>.leaf _ rfl
    |>.nested _ (punctuation_reachable titleUnderline)
    |>.nested _ (punctuation_reachable titleMarks)
    |>.leaf _ rfl |>.leaf _ rfl
    |>.nested _ (empty |>.leaf _ rfl |>.leaf _ rfl |>.leaf _ rfl)
    |>.nested _ (punctuation_reachable boldMarks)
    |>.nested _ (punctuation_reachable italicMarks)
    |>.nested _ (empty |>.leaf _ rfl |>.leaf _ rfl)

/-- Putting copies of a built grammar's own rules inside others gives a grammar that is built. The
copies are taken as they are at that time. -/
theorem nest_reachable {grammar : Grammar} (built : grammar.Reachable) (parent category : String) :
    (nest grammar parent category).Reachable :=
  built.embed parent category (built.builtInside_get? category)

/-- The markdown grammar is built: markup with the additions before its processing instructions, and
then nested three times. -/
theorem reachable : grammar.Reachable :=
  nest_reachable (nest_reachable (nest_reachable (nest_reachable
    (Markup.reachable.insertBefore "prolog" additions_reachable) "bold" "url") "italic" "url")
    "bold" "italic") "italic" "bold"

end Builtin.Markdown

end TextDecoration
