/-!
# Hexadecimal digits

Patterns, configurations and JSON all write code points in hexadecimal digits, in either case. Which
mark stands before the digits, and how many of them there are, is the business of each notation.
-/

namespace TextDecoration

/-- Value of a hexadecimal digit. Letters of both cases count, and nothing beyond ASCII does. -/
def hexValue? (c : Char) : Option Nat :=
  if '0' ≤ c && c ≤ '9' then some (c.toNat - '0'.toNat)
  else if 'a' ≤ c && c ≤ 'f' then some (c.toNat - 'a'.toNat + 10)
  else if 'A' ≤ c && c ≤ 'F' then some (c.toNat - 'A'.toNat + 10)
  else none

/-- Value of hexadecimal digits, if all characters are such digits. No digits at all write no
number, which is why an empty pair of braces is no code point. -/
def hexNumber? (digits : List Char) : Option Nat :=
  if digits.isEmpty then none
  else digits.foldl (fun value c => do return 16 * (← value) + (← hexValue? c)) (some 0)

/-- The character with a given code point, unless that is a surrogate or out of range. -/
def scalar? (point : Nat) : Option Char :=
  if point.isValidChar then some (Char.ofNat point) else none

/-- The character whose code point is written in exactly `count` hexadecimal digits, and the text
behind them. Further digits belong to that text. -/
def codePoint? (count : Nat) (cs : List Char) : Option (Char × List Char) := do
  let digits := cs.take count
  if digits.length < count then none
  else return (← scalar? (← hexNumber? digits), cs.drop count)

end TextDecoration
