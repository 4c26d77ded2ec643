import TypedScheme.Number.Binary64

/-!
# Numerals

The number that a numeral denotes: a decimal with an optional fraction and exponent, a hexadecimal
with a binary exponent, or the name of an infinity or of no number. Underscores may separate digits.
A numeral whose number is too large has no value.
-/

set_option autoImplicit false

namespace TypedScheme.Numeral

/-- The value of a digit, decimal or hexadecimal, in either case. -/
def digitValue (c : Char) : Nat :=
  if c ≤ '9' then c.toNat - 48 else if c ≤ 'F' then c.toNat - 55 else c.toNat - 87

/-- Whether a character is a decimal digit. -/
def isDigit (c : Char) : Bool := '0' ≤ c && c ≤ '9'

/-- Whether a character is a hexadecimal digit. -/
def isHexDigit (c : Char) : Bool :=
  isDigit c || ('a' ≤ c && c ≤ 'f') || ('A' ≤ c && c ≤ 'F')

/-- The natural number of a list of digits. -/
def value (base : Nat) (ds : List Char) : Nat := ds.foldl (fun n d => n * base + digitValue d) 0

/-- Whether every underscore stands between digits, where `prior` tells whether a digit, or the
mark of a base, comes before. -/
def separated (isDig : Char → Bool) : Bool → List Char → Bool
  | _, [] => true
  | prior, '_' :: rest =>
    match rest with
    | d :: _ => prior && isDig d && separated isDig false rest
    | [] => false
  | _, c :: rest => separated isDig (isDig c) rest

/-- An optional sign in front of text. -/
def splitSign : List Char → Bool × List Char
  | '-' :: rest => (true, rest)
  | '+' :: rest => (false, rest)
  | cs => (false, cs)

/-- An exponent: its mark in lower case, an optional sign and digits, and nothing after them. -/
def exponent? (mark : Char) : List Char → Option Int
  | c :: rest =>
    if c.toLower = mark then
      let (negative, ds) := splitSign rest
      if !ds.isEmpty && ds.all isDigit then
        some (if negative then -(value 10 ds : Int) else value 10 ds)
      else none
    else none
  | [] => none

/-- The digits before and after the point and what follows them, if there is a digit. -/
def mantissa? (isDig : Char → Bool) (cs : List Char) :
    Option (List Char × List Char × List Char) :=
  let whole := cs.takeWhile isDig
  let (part, rest) :=
    match cs.dropWhile isDig with
    | '.' :: more => (more.takeWhile isDig, more.dropWhile isDig)
    | more => ([], more)
  if whole.isEmpty && part.isEmpty then none else some (whole, part, rest)

/-- The value of a decimal. -/
def decimal? (negative : Bool) (cs : List Char) : Option Binary64 := do
  let (whole, part, rest) ← mantissa? isDigit cs
  let e ← if rest.isEmpty then some 0 else exponent? 'e' rest
  Binary64.ofDecimal? negative (value 10 (whole ++ part)) (e - part.length)

/-- The value of a hexadecimal after its mark. -/
def hexadecimal? (negative : Bool) (cs : List Char) : Option Binary64 := do
  let (whole, part, rest) ← mantissa? isHexDigit cs
  let e ← exponent? 'p' rest
  Binary64.ofBinary? negative (value 16 (whole ++ part)) (e - 4 * part.length)

/-- The value of a numeral. -/
def read? (text : String) : Option Binary64 :=
  let cs := text.toList
  let (negative, body) := splitSign cs
  let name := body.map Char.toLower
  if name = "inf".toList || name = "infinity".toList then some (.infinity negative)
  else if cs.map Char.toLower = "nan".toList then some .nan
  else
    let plain := body.filter (· ≠ '_')
    match body with
    | '0' :: x :: digits =>
      if x = 'x' || x = 'X' then
        if separated isHexDigit true digits then hexadecimal? negative (plain.drop 2) else none
      else if separated isDigit false body then decimal? negative plain
      else none
    | _ => if separated isDigit false body then decimal? negative plain else none

end TypedScheme.Numeral
