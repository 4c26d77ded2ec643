import TypedScheme.Number.Binary64

/-!
# Shortest decimals

A number is written with the fewest decimal digits that read back as the same number, and of those
decimals with the one nearest to it. `render` lays the digits out.
-/

set_option autoImplicit false

namespace TypedScheme

/-- The decimal `digits * 10 ^ exponent`. -/
structure Decimal where
  digits : Nat
  exponent : Int
  deriving DecidableEq, Repr

namespace Decimal

/-- How digits are laid out: positionally when the exponent of the leading digit is at least
`least` and below `bound`, with an exponent otherwise. -/
structure Layout where
  least : Int
  bound : Int

/-- Digits without the zeros at their end. -/
def trimZeros (ds : List Char) : List Char := (ds.reverse.dropWhile (· = '0')).reverse

/-- A run of zeros. -/
def zeros (n : Nat) : List Char := List.replicate n '0'

/-- Digits with a point after the first `whole` of them, filled up with zeros. -/
def positional (ds : List Char) (exponent : Int) : List Char :=
  if 0 ≤ exponent then
    let whole := exponent.toNat + 1
    let rest := ds.drop whole
    ds.take whole ++ zeros (whole - ds.length) ++ if rest.isEmpty then [] else '.' :: rest
  else '0' :: '.' :: zeros (-exponent - 1).toNat ++ ds

/-- Digits with a point after the first and an exponent of a sign and at least two digits. -/
def scientific (ds : List Char) (exponent : Int) : List Char :=
  let size := Nat.toDigits 10 exponent.natAbs
  ds.take 1 ++ (if (ds.drop 1).isEmpty then [] else '.' :: ds.drop 1)
    ++ ['e', if exponent < 0 then '-' else '+'] ++ zeros (2 - size.length) ++ size

/-- The decimal as text. -/
def render (layout : Layout) (d : Decimal) : List Char :=
  if d.digits = 0 then ['0']
  else
    let all := Nat.toDigits 10 d.digits
    let exponent := d.exponent + (all.length - 1 : Nat)
    let ds := trimZeros all
    if layout.least ≤ exponent && exponent < layout.bound then positional ds exponent
    else scientific ds exponent

end Decimal

namespace Binary64

-- Powers are those of the core library, whichever other ones are in scope.
attribute [local instance (2000)] instPowNat instNatPowNat

/-- The least power of ten that lifts `n` units to one, searched in `fuel` steps. -/
def liftToOne : Nat → Nat → Nat → Nat
  | 0, j, _ => j
  | fuel + 1, j, n => if unitsPerOne ≤ n then j else liftToOne fuel (j + 1) (10 * n)

/-- The exponent of the leading decimal digit of a magnitude in units. -/
def leadingExponent (n : Nat) : Int :=
  if unitsPerOne ≤ n then ((Nat.toDigits 10 (n / unitsPerOne)).length : Int) - 1
  else -(liftToOne 400 0 n : Int)

/-- The decimal with `count` digits next below or next above a number, whichever reads back; of two
that do, the nearer one, and in the middle the even one. -/
def shortestWith? (b : Binary64) (count : Nat) : Option Decimal :=
  let exponent := leadingExponent b.units - (count - 1 : Nat)
  let num := b.units * 10 ^ (-exponent).toNat
  let den := unitsPerOne * 10 ^ exponent.toNat
  let below := num / den
  let readsBack (digits : Nat) := ofDecimal? b.isNegative digits exponent = some b
  match decide (readsBack below), decide (readsBack (below + 1)) with
  | true, true => some ⟨roundDiv num den, exponent⟩
  | true, false => some ⟨below, exponent⟩
  | false, true => some ⟨below + 1, exponent⟩
  | false, false => none

/-- The shortest decimal of a finite number. Seventeen digits always suffice. -/
def shortest (b : Binary64) : Decimal :=
  if b.units = 0 then ⟨0, 0⟩
  else ((List.range 17).findSome? fun n => b.shortestWith? (n + 1)).getD ⟨0, 0⟩

/-- Numbers are positional from `0.0001` to below a million. -/
def layout : Decimal.Layout := ⟨-4, 6⟩

/-- A number as text. -/
def render (b : Binary64) : String :=
  if b.isNaN then "NaN"
  else if b.isInfinite then if b.isNegative then "-Inf" else "+Inf"
  else (if b.isNegative then "-" else "") ++ String.ofList (b.shortest.render layout)

/-- A number as text that shows whether it is whole: whole numbers with all their digits and one
decimal place, others as `render` writes them. -/
def renderExact (b : Binary64) : String :=
  if b.isNaN || b.isInfinite || b.units % unitsPerOne ≠ 0 then b.render
  else (if b.isNegative then "-" else "") ++ toString (b.units / unitsPerOne) ++ ".0"

end Binary64

end TypedScheme
