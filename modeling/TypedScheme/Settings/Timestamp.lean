import TypedScheme.Number.Numeral

/-!
# Spellings of a time

A date has four digits for the year and one or two for the month and the day. A time of day may follow
it, either behind the letter `T` and with a zone, or behind blanks and without one. The date and the
time must exist.
-/

set_option autoImplicit false

namespace TypedScheme.Timestamp

open Numeral

/-- A number of one or two digits, and what follows it. -/
def short? : List Char → Option (Nat × List Char)
  | a :: b :: rest =>
    if isDigit a then
      if isDigit b then some (value 10 [a, b], rest) else some (digitValue a, b :: rest)
    else none
  | [a] => if isDigit a then some (digitValue a, []) else none
  | [] => none

/-- What follows a character that must come first. -/
def expect? (mark : Char) : List Char → Option (List Char)
  | c :: rest => if c = mark then some rest else none
  | [] => none

/-- Whether a year has a leap day. -/
def isLeap (year : Nat) : Bool := year % 4 = 0 && (year % 100 ≠ 0 || year % 400 = 0)

/-- The number of days of a month. -/
def daysIn (year month : Nat) : Nat :=
  if month = 2 then if isLeap year then 29 else 28
  else if [4, 6, 9, 11].contains month then 30
  else 31

/-- What follows a date. -/
def afterDate? (cs : List Char) : Option (List Char) := do
  let digits := cs.takeWhile isDigit
  let year := value 10 digits
  let (month, rest) ← short? (← expect? '-' (cs.dropWhile isDigit))
  let (day, rest) ← short? (← expect? '-' rest)
  if digits.length = 4 && 1 ≤ month && month ≤ 12 && 1 ≤ day && day ≤ daysIn year month then
    some rest
  else none

/-- What follows a fraction of a second, which may be left out. -/
def afterFraction : List Char → List Char
  | mark :: d :: rest =>
    if (mark = '.' || mark = ',') && isDigit d then rest.dropWhile isDigit else mark :: d :: rest
  | cs => cs

/-- What follows a time of day. -/
def afterClock? (cs : List Char) : Option (List Char) := do
  let (hour, rest) ← short? cs
  let (minute, rest) ← short? (← expect? ':' rest)
  let (second, rest) ← short? (← expect? ':' rest)
  if hour < 24 && minute < 60 && second < 60 then some (afterFraction rest) else none

/-- Whether characters are a zone: the letter `Z`, or the distance in hours and minutes. -/
def isZone : List Char → Bool
  | ['Z'] => true
  | [sign, a, b, ':', c, d] =>
    (sign = '+' || sign = '-') && [a, b, c, d].all isDigit && value 10 [a, b] ≤ 24
      && value 10 [c, d] ≤ 60
  | _ => false

/-- Whether characters spell a time. -/
def isSpelling (cs : List Char) : Bool :=
  match afterDate? cs with
  | none => false
  | some [] => true
  | some (c :: rest) =>
    if c = 'T' || c = 't' then (afterClock? rest).any isZone
    else if c = ' ' then (afterClock? (rest.dropWhile (· = ' '))).any List.isEmpty
    else false

end TypedScheme.Timestamp
