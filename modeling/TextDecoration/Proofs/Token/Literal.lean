import TextDecoration.Token.Basic

/-!
# Literal texts of tokens

The literal text of a sequence of tokens is the concatenation of the tokens' own literal texts, and
the counted length of a tree is the number of characters of its literal text. Both laws hold for
every tree, also for one that no grammar produced: empty texts and empty lists of children occur.
-/

namespace TextDecoration.Token

/-- A sequence of no tokens has the empty text. -/
@[simp] theorem literals_nil : literals [] = "" := by rw [literals]

/-- The text of a sequence begins with the text of its first token. -/
@[simp] theorem literals_cons (token : Token) (tokens : List Token) :
    literals (token :: tokens) = token.literal ++ literals tokens := by rw [literals]

/-- The text of a plain token is what it holds, since no rule had a part in it. -/
@[simp] theorem literal_plain (text : String) : (plain text).literal = text := by rw [literal]

/-- The text of a leaf is what it holds. Category and alias do not show in it. -/
@[simp] theorem literal_leaf (category : String) (fallback : Option String) (text : String) :
    (leaf category fallback text).literal = text := by rw [literal]

/-- The text of a nested token is the text of its children, so it is stored in one place only. -/
@[simp] theorem literal_nested (category : String) (fallback : Option String)
    (children : List Token) : (nested category fallback children).literal = literals children := by
  rw [literal]

/-- Sequences that follow each other have texts that follow each other, with nothing between
them. -/
@[simp] theorem literals_append (first second : List Token) :
    literals (first ++ second) = literals first ++ literals second := by
  induction first with
  | nil => simp
  | cons token tokens inductionHypothesis => simp [inductionHypothesis, String.append_assoc]

mutual
/-- The counted length of a token is the number of characters of its text, however deep its tree.
The length of a nested token is the sum over its children, as is the length of its text. -/
theorem textLength_eq : ∀ token : Token, token.textLength = token.literal.length
  | .plain text => by rw [textLength, literal]
  | .leaf _ _ text => by rw [textLength, literal]
  | .nested _ _ children => by rw [textLength, literal, textLengths_eq children]

/-- The counted length of a sequence is the number of characters of its text, counted without making
the text. -/
theorem textLengths_eq : ∀ tokens : List Token, textLengths tokens = (literals tokens).length
  | [] => by rw [textLengths, literals, String.length_empty]
  | token :: tokens => by
    rw [textLengths, literals, String.length_append, textLength_eq token, textLengths_eq tokens]
end

end TextDecoration.Token
