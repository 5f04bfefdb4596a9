/-!
# Tokens

A token is plain text, a leaf with a category, or a node with a category whose text was cut once
more. The literal text of a sequence of tokens is what they were cut from.
-/

namespace TextDecoration

/-- A piece of text, classified or not. A token knows nothing of where it stands; that follows from
the texts before it. -/
inductive Token where
  /-- Text that no rule matched. It is kept, so that the tokens of a text make it up. -/
  | plain (text : String)
  /-- A match of a rule without a nested grammar. -/
  | leaf (category : String) (fallback : Option String) (text : String)
  /-- A match that the rule's nested grammar cut once more. -/
  | nested (category : String) (fallback : Option String) (children : List Token)
  deriving BEq, Inhabited

namespace Token

/-- Category of a classified token. A nested token has one of its own, beside those of its
children. -/
def category? : Token → Option String
  | .plain _ => none
  | .leaf category _ _ | .nested category _ _ => some category

/-- The alias of the rule that made the token. It is not a category of the token, but may lend it a
style. -/
def fallback? : Token → Option String
  | .plain _ => none
  | .leaf _ fallback _ | .nested _ fallback _ => fallback

/-- Whether the token is plain text. A nested token is classified even if all its children are
plain. -/
def isPlain : Token → Bool
  | .plain _ => true
  | _ => false

mutual
/-- The text that a token was cut from. For a nested token it is that of its children in a row,
since the token keeps no copy. -/
def literal : Token → String
  | .plain text | .leaf _ _ text => text
  | .nested _ _ children => literals children

/-- The text that a sequence of tokens was cut from, which is their texts in a row. -/
def literals : List Token → String
  | [] => ""
  | token :: tokens => literal token ++ literals tokens
end

mutual
/-- Number of characters of the text that a token was cut from, however deeply it was cut. -/
def textLength : Token → Nat
  | .plain text | .leaf _ _ text => text.length
  | .nested _ _ children => textLengths children

/-- Number of characters of the text that a sequence of tokens was cut from. -/
def textLengths : List Token → Nat
  | [] => 0
  | token :: tokens => textLength token + textLengths tokens
end

mutual
/-- Categories that occur in a token at any depth, in order and with repetitions. -/
def allCategories : Token → List String
  | .plain _ => []
  | .leaf category _ _ => [category]
  | .nested category _ children => category :: allCategoriesOf children

/-- Categories that occur in a sequence of tokens at any depth, token by token. -/
def allCategoriesOf : List Token → List String
  | [] => []
  | token :: tokens => allCategories token ++ allCategoriesOf tokens
end

end Token

end TextDecoration
