/-!
# Binary numbers of 64 bits

A number is its encoding: a sign, eleven exponent bits and 52 fraction bits. The magnitude of every
finite number is a natural multiple of the least positive one, so all arithmetic here is exact
arithmetic of natural numbers, and rounding happens in one place, `ofRatio?`.
-/

set_option autoImplicit false

namespace TypedScheme

/-- A number in the interchange format of 64 bits. -/
structure Binary64 where
  bits : UInt64
  deriving DecidableEq, Repr

namespace Binary64

-- Powers are those of the core library, whichever other ones are in scope.
attribute [local instance (2000)] instPowNat instNatPowNat

/-- The number of units in one: the least positive number is one unit. -/
def unitsPerOne : Nat := 2 ^ (1074 : Nat)

/-- The encoding without its sign. -/
def magnitudeBits (b : Binary64) : Nat := b.bits.toNat % 2 ^ (63 : Nat)

/-- Whether the sign bit is set. -/
def isNegative (b : Binary64) : Bool := 2 ^ (63 : Nat) ≤ b.bits.toNat

/-- The exponent bits. -/
def exponentField (b : Binary64) : Nat := b.magnitudeBits / 2 ^ (52 : Nat)

/-- The fraction bits. -/
def fraction (b : Binary64) : Nat := b.magnitudeBits % 2 ^ (52 : Nat)

/-- Whether the encoding is that of no number. -/
def isNaN (b : Binary64) : Bool := b.exponentField = 2047 && b.fraction ≠ 0

/-- Whether the encoding is that of an infinity. -/
def isInfinite (b : Binary64) : Bool := b.exponentField = 2047 && b.fraction = 0

/-- The magnitude of a finite number, in units. -/
def units (b : Binary64) : Nat :=
  if b.exponentField = 0 then b.fraction
  else (2 ^ (52 : Nat) + b.fraction) * 2 ^ (b.exponentField - 1)

/-- A number from its sign and the rest of its encoding. -/
def ofParts (negative : Bool) (magnitude : Nat) : Binary64 :=
  ⟨UInt64.ofNat (magnitude + if negative then 2 ^ (63 : Nat) else 0)⟩

/-- The infinity of a sign. -/
def infinity (negative : Bool) : Binary64 := ofParts negative (2047 * 2 ^ (52 : Nat))

/-- An encoding that is no number. -/
def nan : Binary64 := ofParts false (2047 * 2 ^ (52 : Nat) + 2 ^ (51 : Nat) + 1)

/-- The quotient rounded to the nearest natural number, and to the even one in the middle. -/
def roundDiv (num den : Nat) : Nat :=
  let quotient := num / den
  let twice := 2 * (num % den)
  if twice < den then quotient
  else if den < twice then quotient + 1
  else if quotient % 2 = 0 then quotient
  else quotient + 1

/-- The encoding nearest to `num / den` units. A quotient of 53 bits after division by `2 ^ shift`
fills the fraction, and a carry out of it moves to the exponent by itself. -/
def encodeRatio (num den : Nat) : Nat :=
  let shift := (num / den).log2 - 52
  shift * 2 ^ (52 : Nat) + roundDiv num (den * 2 ^ shift)

/-- The number nearest to `num / den` units, if it is finite. -/
def ofRatio? (negative : Bool) (num den : Nat) : Option Binary64 :=
  let magnitude := encodeRatio num den
  if magnitude < 2047 * 2 ^ (52 : Nat) then some (ofParts negative magnitude) else none

/-- The number nearest to `significand * base ^ exponent`, if it is finite. `span` bounds the
powers that matter: beyond it the result is an overflow or zero whatever the digits are. -/
def ofScaled? (base span : Nat) (negative : Bool) (significand : Nat) (exponent : Int) :
    Option Binary64 :=
  let size : Int := (Nat.toDigits base significand).length
  if significand = 0 then some (ofParts negative 0)
  else if exponent + size > span then none
  else if exponent + size < -(span : Int) then some (ofParts negative 0)
  else if 0 ≤ exponent then
    ofRatio? negative (significand * base ^ exponent.toNat * unitsPerOne) 1
  else ofRatio? negative (significand * unitsPerOne) (base ^ (-exponent).toNat)

/-- The number nearest to `significand * 10 ^ exponent`, if it is finite. -/
def ofDecimal? (negative : Bool) (significand : Nat) (exponent : Int) : Option Binary64 :=
  ofScaled? 10 400 negative significand exponent

/-- The number nearest to `significand * 2 ^ exponent`, if it is finite. -/
def ofBinary? (negative : Bool) (significand : Nat) (exponent : Int) : Option Binary64 :=
  ofScaled? 2 1200 negative significand exponent

end Binary64

end TypedScheme
