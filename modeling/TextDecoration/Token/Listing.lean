import TextDecoration.Text.Quoted
import TextDecoration.Token.Basic

/-!
# Listing tokens

A sequence of tokens is listed with one line for each token of its tree. A line shows the category,
the alias in parentheses and the quoted text of a leaf; a plain token shows its quoted text alone.
The children of a nested token follow it, indented by two blanks more.
-/

namespace TextDecoration.Token

/-- The head of a classified token's line: its category and, in parentheses, its alias. Neither is
quoted, so a name may hide where it ends. -/
def heading (category : String) (fallback : Option String) : String :=
  match fallback with
  | some name => category ++ " (" ++ name ++ ")"
  | none => category

/-- The blanks before a line at some depth, two for each level. -/
def indent (depth : Nat) : String := String.ofList (List.replicate (2 * depth) ' ')

mutual
/-- The lines of a token, each without its line feed. Only texts are quoted; a nested token's line
has none, and its children follow one level deeper. -/
def listingLines (depth : Nat) : Token → List String
  | .plain text => [indent depth ++ Text.quote text]
  | .leaf category fallback text =>
    [indent depth ++ heading category fallback ++ " " ++ Text.quote text]
  | .nested category fallback children =>
    (indent depth ++ heading category fallback) :: listingLinesOf (depth + 1) children

/-- The lines of a sequence of tokens that stand side by side at one depth. -/
def listingLinesOf (depth : Nat) : List Token → List String
  | [] => []
  | token :: tokens => listingLines depth token ++ listingLinesOf depth tokens
end

/-- The listing of a sequence of tokens; every line ends with a line feed. No tokens list as the
empty text. -/
def listing (tokens : List Token) : String :=
  String.join ((listingLinesOf 0 tokens).map (· ++ "\n"))

end TextDecoration.Token
