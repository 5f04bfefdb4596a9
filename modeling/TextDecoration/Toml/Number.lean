import TextDecoration.Number.Hexadecimal

/-!
# Numbers of a TOML document

Integers have 64 bits with a sign; those that do not fit are no integers. Floating point numbers are
the nearest doubles. Single low lines may stand between digits.
-/

namespace TextDecoration.Toml

/-- Whether a character is a digit of a base up to sixteen. Letters count in either case. -/
def isDigitOf (base : Nat) (c : Char) : Bool := (hexValue? c).any (· < base)

/-- Digits of a base, with single low lines between them. A low line that no digit follows is left
to what comes behind. -/
def digits? (base : Nat) : List Char → Option (List Char × List Char)
  | c :: cs => if isDigitOf base c then some (more c cs) else none
  | [] => none
where
  /-- The digits from `c` on. -/
  more (c : Char) : List Char → List Char × List Char
    | '_' :: d :: cs =>
      if isDigitOf base d then
        let (digits, rest) := more d cs
        (c :: digits, rest)
      else ([c], '_' :: d :: cs)
    | d :: cs =>
      if isDigitOf base d then
        let (digits, rest) := more d cs
        (c :: digits, rest)
      else ([c], d :: cs)
    | [] => ([c], [])

/-- The number that digits of a base write, the first digit counting most. What is no digit counts
as zero and never comes here. -/
def ofDigits (base : Nat) (digits : List Char) : Nat :=
  digits.foldl (fun value c => base * value + (hexValue? c).getD 0) 0

/-- A sign, if there is one, and the text behind it. It is told whether the sign is a minus. -/
def sign : List Char → Bool × List Char
  | '-' :: cs => (true, cs)
  | '+' :: cs => (false, cs)
  | cs => (false, cs)

/-- Decimal digits without a leading zero, behind an optional sign. A single zero is a number. -/
def decimal? (cs : List Char) : Option ((Bool × List Char) × List Char) := do
  let (negative, cs) := sign cs
  match cs with
  | '0' :: rest => return ((negative, ['0']), rest)
  | _ =>
    let (digits, rest) ← digits? 10 cs
    return ((negative, digits), rest)

/-- The number, if 64 bits with a sign hold it. The negative numbers reach one further. -/
def word? (negative : Bool) (n : Nat) : Option Int :=
  let value : Int := if negative then -n else n
  if -0x8000000000000000 ≤ value ∧ value < 0x8000000000000000 then some value else none

/-- An integer: decimal with an optional sign, or hexadecimal, octal or binary without one. -/
def integer? : List Char → Option (Int × List Char)
  | '0' :: 'x' :: cs => based 16 cs
  | '0' :: 'o' :: cs => based 8 cs
  | '0' :: 'b' :: cs => based 2 cs
  | cs => do
    let ((negative, digits), rest) ← decimal? cs
    return (← word? negative (ofDigits 10 digits), rest)
where
  /-- Digits of a base, behind its mark. -/
  based (base : Nat) (cs : List Char) : Option (Int × List Char) := do
    let (digits, rest) ← digits? base cs
    return (← word? false (ofDigits base digits), rest)

/-- The double nearest to `digits * 10 ^ exponent`. Beyond the range of doubles lies infinity, and
    there is none for a positive number there. -/
def double? (negative : Bool) (digits : List Char) (exponent : Int) : Option Float :=
  let significant := digits.dropWhile (· = '0')
  let magnitude := significant.length + exponent
  let size : Float :=
    if significant.isEmpty || magnitude < -400 then 0.0
    else if 400 < magnitude then 1.0 / 0.0
    else Float.ofScientific (ofDigits 10 significant) (exponent < 0) exponent.natAbs
  if negative then some (-size) else if size.isInf then none else some size

/-- The digits behind a decimal point, if there is one. A point that no digit follows is no
fraction. -/
def fraction? : List Char → Option (List Char × List Char)
  | '.' :: cs => digits? 10 cs
  | _ => none

/-- The exponent behind its mark, if there is one. It may have a sign and leading zeros. -/
def exponent? : List Char → Option (Int × List Char)
  | c :: cs => do
    if c = 'e' || c = 'E' then
      let (negative, cs) := sign cs
      let (digits, rest) ← digits? 10 cs
      let n : Int := ofDigits 10 digits
      return (if negative then -n else n, rest)
    else none
  | [] => none

/-- The names of the values that are not finite. A sign before the second one is read and has no
effect. -/
def special? (negative : Bool) : List Char → Option (Float × List Char)
  | 'i' :: 'n' :: 'f' :: cs => some (if negative then -(1.0 / 0.0) else 1.0 / 0.0, cs)
  | 'n' :: 'a' :: 'n' :: cs => some (0.0 / 0.0, cs)
  | _ => none

/-- A number with a fraction, an exponent or both, or one of the special values. Digits alone are an
integer and not read here. -/
def float? (cs : List Char) : Option (Float × List Char) :=
  match decimal? cs with
  | some ((negative, whole), rest) =>
    match fraction? rest with
    | some (places, rest) =>
      let shift : Int := -places.length
      match exponent? rest with
      | some (exponent, rest) =>
        (double? negative (whole ++ places) (exponent + shift)).map (·, rest)
      | none => (double? negative (whole ++ places) shift).map (·, rest)
    | none =>
      match exponent? rest with
      | some (exponent, rest) => (double? negative whole exponent).map (·, rest)
      | none => none
  | none =>
    let (negative, rest) := sign cs
    special? negative rest

end TextDecoration.Toml
