/-!
# Shortest decimal form of a binary fraction

A finite double stands for the whole interval of reals that round to it. Its shortest decimal form
is the multiple of the greatest power of ten that lies in the interval; where two multiples do, the
nearer one. All of this is done in exact integers: the value is a whole number of quarters of its
last binary place, so both ends of the interval are whole numbers of the same unit.
-/

namespace TextDecoration.Number

/-- A decimal: `digits * 10 ^ exponent`. One number has many such forms, since digits may end in
zeros. -/
structure Decimal where
  digits : Nat
  exponent : Int

/-- The positive reals that round to a double, in units of `2 ^ scale`. Every decimal in this
interval reads back as the double. -/
structure Rounding where
  /-- Lower end. -/
  low : Nat
  /-- The double itself. -/
  value : Nat
  /-- Upper end. -/
  high : Nat
  /-- Whether the ends belong to the interval. They do for an even double, since halves round to
  even. -/
  closed : Bool
  scale : Int

/-- The interval of a positive double, from its stored exponent and fraction. Below a power of two
    the doubles lie twice as close. Ends round to an even neighbour. -/
def rounding (exponent fraction : Nat) : Rounding :=
  let mantissa := if exponent = 0 then fraction else fraction + (1 <<< 52)
  let narrow := fraction = 0 ∧ 1 < exponent
  { low := 4 * mantissa - (if narrow then 1 else 2)
    value := 4 * mantissa
    high := 4 * mantissa + 2
    closed := mantissa % 2 = 0
    scale := (max exponent 1 : Nat) - 1077 }

/-- `n * base ^ power` above and below the fraction bar, so that a negative power needs no rational
number. -/
def scaled (base n : Nat) (power : Int) : Nat × Nat :=
  (n * base.pow power.toNat, base.pow (-power).toNat)

/-- Whether a multiple of a power of ten lies in the interval. Both sides are compared as fractions,
without rounding. -/
def Rounding.contains (r : Rounding) (digits : Nat) (exponent : Int) : Bool :=
  let (above, below) := scaled 10 digits exponent
  let (unit, part) := scaled 2 1 r.scale
  let point := above * part
  let low := r.low * unit * below
  let high := r.high * unit * below
  if r.closed then low ≤ point && point ≤ high else low < point && point < high

/-- The multiple of a power of ten that lies in the interval, the nearer one if both neighbours of
    the value do. -/
def Rounding.multiple? (r : Rounding) (exponent : Int) : Option Nat :=
  let (ten, tenth) := scaled 10 1 exponent
  let (unit, part) := scaled 2 1 r.scale
  let value := r.value * unit * tenth
  let step := ten * part
  let lower := value / step
  match r.contains lower exponent, r.contains (lower + 1) exponent with
  | true, true =>
    let rest := 2 * (value % step)
    some (if rest < step || (rest = step && lower % 2 = 0) then lower else lower + 1)
  | true, false => some lower
  | false, true => some (lower + 1)
  | false, false => none

/-- The multiple of the greatest power of ten in the interval, trying `count` powers downwards. The
greatest power is what makes the digits fewest. -/
def Rounding.shortest (r : Rounding) : (count : Nat) → (exponent : Int) → Decimal
  | 0, exponent => ⟨r.value, exponent⟩
  | count + 1, exponent =>
    match r.multiple? exponent with
    | some digits => ⟨digits, exponent⟩
    | none => r.shortest count (exponent - 1)

/-- The decimal in positional notation, with a point and a digit behind it in any case. Zeros fill
up to the point on either side. -/
def Decimal.positional (d : Decimal) : String :=
  let digits := Nat.toDigits 10 d.digits
  if 0 ≤ d.exponent then
    String.ofList (digits ++ List.replicate d.exponent.toNat '0') ++ ".0"
  else
    let places := (-d.exponent).toNat
    let filled := List.replicate (places + 1 - digits.length) '0' ++ digits
    let whole := filled.length - places
    String.ofList (filled.take whole ++ '.' :: filled.drop whole)

/-- A double in positional notation with the fewest digits that read back, and the names of the
    values that are not finite. -/
def floatText (x : Float) : String :=
  let bits := x.toBits.toNat
  let exponent := (bits >>> 52) % 2048
  let fraction := bits % (1 <<< 52)
  let sign := if bits >>> 63 = 1 then "-" else ""
  if exponent = 2047 then
    if fraction = 0 then sign ++ "inf" else "NaN"
  else if exponent = 0 ∧ fraction = 0 then sign ++ "0.0"
  else sign ++ ((rounding exponent fraction).shortest 700 310).positional

end TextDecoration.Number
