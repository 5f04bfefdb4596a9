/-!
# Character and byte offsets

Positions in a text count characters. Where a position is reported in bytes, it counts the bytes of
the UTF-8 form of the characters before it.
-/

namespace TextDecoration.Text

/-- Bytes of the first `count` characters in the UTF-8 form. A count behind the end of the text
gives the bytes of all of it. -/
def byteOffset : List Char → (count : Nat) → Nat
  | _, 0 => 0
  | [], _ + 1 => 0
  | c :: cs, count + 1 => c.utf8Size + byteOffset cs count

/-- Number of characters in the first `bytes` bytes. A count inside a character has none, and so has
    one behind the end of the text. -/
def charOffset? : List Char → (bytes : Nat) → Option Nat
  | _, 0 => some 0
  | [], _ + 1 => none
  | c :: cs, bytes =>
    if c.utf8Size ≤ bytes then (charOffset? cs (bytes - c.utf8Size)).map (· + 1) else none

end TextDecoration.Text
