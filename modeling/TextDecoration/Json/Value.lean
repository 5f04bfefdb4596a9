import TextDecoration.Text.Quoted

/-!
# JSON values in print

Values as they are printed for a reader: every element and every member on a line of its own, two
blanks deeper than the brackets around it; an array or object without any is a pair of brackets.
In a string, a quotation mark, a backslash and the control characters are escaped, and nothing
else is.
-/

namespace TextDecoration.Json

/-- A value that can be printed. Numbers are natural numbers, and an object's members keep their
order; nothing else is ever printed. -/
inductive Value where
  | string (text : String)
  | number (n : Nat)
  | array (elements : List Value)
  | object (members : List (String × Value))

/-- A hexadecimal digit in lower case, as the escapes of control characters have it. -/
def hexDigit (n : Nat) : Char := Nat.digitChar n

/-- The written form of a character in a string. Quotation marks, backslashes and the control
characters before the blank are escaped; everything else stands for itself, beyond ASCII too. -/
def escapeChar (c : Char) : List Char :=
  if c = '"' then ['\\', '"']
  else if c = '\\' then ['\\', '\\']
  else if c = '\n' then ['\\', 'n']
  else if c = '\r' then ['\\', 'r']
  else if c = '\t' then ['\\', 't']
  else if c = '\x08' then ['\\', 'b']
  else if c = '\x0c' then ['\\', 'f']
  else if c.toNat < 32 then
    ['\\', 'u', '0', '0', hexDigit (c.toNat / 16), hexDigit (c.toNat % 16)]
  else [c]

/-- The written form of a string, quotation marks included. -/
def string (text : String) : String :=
  String.ofList ('"' :: text.toList.flatMap escapeChar ++ ['"'])

/-- A line feed and the blanks of a depth, two for each level. -/
def newline (depth : Nat) : String := String.ofList ('\n' :: List.replicate (2 * depth) ' ')

/-- Parts between brackets, one on a line; brackets alone if there are none. The closing bracket
stands one level less deep than the parts. -/
def bracketed (left right : String) (depth : Nat) (parts : List String) : String :=
  if parts.isEmpty then left ++ right
  else
    left ++ newline (depth + 1) ++ String.intercalate ("," ++ newline (depth + 1)) parts ++
      newline depth ++ right

mutual
/-- The printed form of a value at a depth. The depth matters only for what goes on a line of its
own. -/
def Value.print (depth : Nat) : Value → String
  | .string text => Json.string text
  | .number n => toString n
  | .array elements => bracketed "[" "]" depth (printElements (depth + 1) elements)
  | .object members => bracketed "\x7b" "\x7d" depth (printMembers (depth + 1) members)

/-- The printed forms of an array's elements, in order and still without the commas between them. -/
def Value.printElements (depth : Nat) : List Value → List String
  | [] => []
  | value :: values => Value.print depth value :: printElements depth values

/-- The printed forms of an object's members, in order and still without the commas between them. -/
def Value.printMembers (depth : Nat) : List (String × Value) → List String
  | [] => []
  | member :: members => printMember depth member :: printMembers depth members

/-- The printed form of a member: its name as a string, a colon, a blank and its value. -/
def Value.printMember (depth : Nat) : String × Value → String
  | (name, value) => Json.string name ++ ": " ++ Value.print depth value
end

/-- The printed form of a value that stands on its own. No line feed follows it. -/
def Value.pretty (value : Value) : String := value.print 0

end TextDecoration.Json
