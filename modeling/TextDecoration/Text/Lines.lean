/-!
# Lines of a text

Every line feed ends a line, and a carriage return right before it belongs to the line's end. Text
behind the last line feed is a line too. A carriage return anywhere else is a character of its line.
-/

namespace TextDecoration.Text

/-- The lines of a text, without their ends. The empty text has none, and what follows the last end
is a line only if it is not empty. A carriage return ends a line only together with the line feed
behind it. -/
def lines : List Char → List (List Char)
  | [] => []
  | '\n' :: cs => [] :: lines cs
  | '\r' :: '\n' :: cs => [] :: lines cs
  | c :: cs =>
    match lines cs with
    | [] => [[c]]
    | line :: later => (c :: line) :: later

/-- A text that is not empty has a line, if only an empty one. -/
theorem lines_ne_nil {cs : List Char} (filled : cs ≠ []) : lines cs ≠ [] := by
  fun_cases lines cs with
  | case1 => exact absurd rfl filled
  | case2 => simp
  | case3 => simp
  | case4 => simp
  | case5 => simp

end TextDecoration.Text
