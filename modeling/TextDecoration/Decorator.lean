import TextDecoration.Grammar.Tokenize
import TextDecoration.Range.Projection

/-!
# Decorating a document

A document shows itself as a list of text nodes with their paths. A decorator cuts each node's text
with its grammar and projects the tokens, node by node. Nothing is carried from one node to the
next or from one pass to another.
-/

namespace TextDecoration

/-- A text node of a document: the text and the path that leads to it. -/
structure TextNode where
  path : NodePath
  text : String
  deriving DecidableEq

/-- A grammar together with the way its tokens are tagged. It keeps nothing from one text to the
next. -/
structure Decorator where
  grammar : Grammar
  policy : TagPolicy := .outermost

namespace Decorator

/-- Ranges of one text node. Their offsets count the characters of that node alone, from zero. -/
def decorateNode (decorator : Decorator) (path : NodePath) (text : String) : List Range :=
  project (Grammar.tokenize decorator.grammar text) path decorator.policy

/-- Ranges of all text nodes of a document, in the document's order. Each node is cut on its own, so
no range reaches from one node into another. -/
def decorate (decorator : Decorator) (nodes : List TextNode) : List Range :=
  nodes.flatMap fun node => decorator.decorateNode node.path node.text

end Decorator

end TextDecoration
