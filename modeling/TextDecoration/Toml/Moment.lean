import TextDecoration.Toml.Number

/-!
# Dates and times of a TOML document

A moment is a date, a time of day, or both with or without a distance from universal time. Only its
written form is kept.
-/

namespace TextDecoration.Toml

/-- A number of exactly `count` digits between two bounds. It is read only to be checked, as moments
are kept as they are written. -/
def fixed? (count least most : Nat) (cs : List Char) : Option (Nat × List Char) :=
  let digits := cs.take count
  let n := ofDigits 10 digits
  if digits.length = count && digits.all (isDigitOf 10) && least ≤ n && n ≤ most then
    some (n, cs.drop count)
  else none

/-- The text behind a given character, which has to stand there. -/
def behind? (mark : Char) : List Char → Option (List Char)
  | c :: cs => if c = mark then some cs else none
  | [] => none

/-- Number of days of a month, with leap years by the rule of the Gregorian calendar. -/
def daysOf (year month : Nat) : Nat :=
  if month = 2 then
    if year % 4 = 0 ∧ (year % 100 ≠ 0 ∨ year % 400 = 0) then 29 else 28
  else if month = 4 ∨ month = 6 ∨ month = 9 ∨ month = 11 then 30
  else 31

/-- The text behind a date that exists: no month has more days than it has. -/
def skipDate? (cs : List Char) : Option (List Char) := do
  let (year, cs) ← fixed? 4 0 9999 cs
  let (month, cs) ← fixed? 2 1 12 (← behind? '-' cs)
  let (_, cs) ← fixed? 2 1 (daysOf year month) (← behind? '-' cs)
  return cs

/-- The text behind an hour and a minute, with a colon between them. -/
def skipMinute? (cs : List Char) : Option (List Char) := do
  let (_, cs) ← fixed? 2 0 23 cs
  let (_, cs) ← fixed? 2 0 59 (← behind? ':' cs)
  return cs

/-- The text behind a time of day, which has seconds and may have parts of one. A minute may have a
sixty-first second. -/
def skipTime? (cs : List Char) : Option (List Char) := do
  let (_, cs) ← fixed? 2 0 60 (← behind? ':' (← skipMinute? cs))
  match cs with
  | '.' :: c :: rest =>
    if isDigitOf 10 c then return rest.dropWhile (isDigitOf 10) else return cs
  | _ => return cs

/-- The text behind a distance from universal time, if there is one; none for a broken one. -/
def skipZone? : List Char → Option (List Char)
  | 'Z' :: cs => some cs
  | 'z' :: cs => some cs
  | '+' :: cs => skipMinute? cs
  | '-' :: cs => skipMinute? cs
  | cs => some cs

/-- The text behind a moment: a date, perhaps with a time of day and a zone, or a time alone. A time
alone has no zone. -/
def skipMoment? (cs : List Char) : Option (List Char) :=
  match skipDate? cs with
  | some rest =>
    match rest with
    | c :: timed =>
      if c = 'T' || c = 't' || c = ' ' then
        match skipTime? timed with
        | some rest => skipZone? rest
        | none => some rest
      else some rest
    | [] => some rest
  | none => skipTime? cs

end TextDecoration.Toml
