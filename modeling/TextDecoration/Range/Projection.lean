import TextDecoration.Range.Basic
import TextDecoration.Token.Basic

/-!
# Projecting tokens to ranges

Projection flattens the token tree of a text node. Plain tokens only move the offset on. Every
classified token at the top becomes exactly one range, however deep its tree is; so the ranges come
in order and do not overlap. What the policy decides is the tags and nothing else.
-/

namespace TextDecoration

/-- Which categories a range carries. A range is one token of the top level in either case; tokens
inside it make none of their own. -/
inductive TagPolicy where
  /-- The top token's category alone. -/
  | outermost
  /-- The top token's category and every category inside it. -/
  | nested
  deriving DecidableEq, Inhabited

/-- Categories that a token passes on to its range. A plain token has none, and makes no range. -/
def Token.tags (policy : TagPolicy) (token : Token) : Names :=
  match policy with
  | .outermost => Names.ofList token.category?.toList
  | .nested => Names.ofList token.allCategories

/-- Ranges of a sequence of tokens that begins at an offset. Plain tokens are passed over, but their
characters count. -/
def projectFrom (path : NodePath) (policy : TagPolicy) (offset : Nat) : List Token → List Range
  | [] => []
  | token :: tokens =>
    let stop := offset + token.textLength
    let later := projectFrom path policy stop tokens
    match token.category? with
    | some _ =>
      { tags := token.tags policy, fallback := token.fallback?, start := offset, stop, path } ::
        later
    | none => later

/-- Ranges of a text node's tokens, with offsets from the node's first character on. -/
def project (tokens : List Token) (path : NodePath) (policy : TagPolicy) : List Range :=
  projectFrom path policy 0 tokens

end TextDecoration
