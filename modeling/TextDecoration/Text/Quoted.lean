import TextDecoration.Unicode.Visible

/-!
# Quoted text

A text between quotation marks, on one line and without a character that cannot be seen. A quotation
mark and a backslash get a backslash before them; tabulator, line feed, carriage return and null
have letters of their own; every other character without a visible form is written by its code
point in braces. The written form determines the text.
-/

namespace TextDecoration.Text

/-- Lower-case hexadecimal digits of a number, without leading zeros. -/
def hexDigits (n : Nat) : List Char := Nat.toDigits 16 n

/-- The written form of a character inside quotation marks. Marks, backslashes and what cannot be
seen are escaped; everything else stands for itself. -/
def quoteChar (c : Char) : List Char :=
  if c = '"' then ['\\', '"']
  else if c = '\\' then ['\\', '\\']
  else if c = '\n' then ['\\', 'n']
  else if c = '\r' then ['\\', 'r']
  else if c = '\t' then ['\\', 't']
  else if c = '\x00' then ['\\', '0']
  else if Unicode.isVisible c then [c]
  else '\\' :: 'u' :: '\x7b' :: hexDigits c.toNat ++ ['\x7d']

/-- The written form of a text, quotation marks included, as characters. -/
def quoteChars (cs : List Char) : List Char := '"' :: cs.flatMap quoteChar ++ ['"']

/-- The written form of a text, quotation marks included. It never holds a line break, since one is
escaped. -/
def quote (text : String) : String := String.ofList (quoteChars text.toList)

end TextDecoration.Text
