import TypedScheme.Text.Piece

/-!
# Text from bytes

Bytes are read as UTF-8. A byte that does not begin a well-formed sequence is a stray byte and is
passed over alone, so every list of bytes has a reading.
-/

set_option autoImplicit false

namespace TypedScheme.Text.Utf8

/-- Whether a byte continues a sequence. -/
def isTail (b : UInt8) : Bool := 0x80 ≤ b && b ≤ 0xBF

/-- The six low bits of a continuation byte. -/
def tailBits (b : UInt8) : Nat := b.toNat % 0x40

/-- Whether a lead byte admits this second byte: the first bound on the second byte rules out
overlong forms, surrogates and values above the last code point. -/
def admits (a b : UInt8) : Bool :=
  if a = 0xE0 then 0xA0 ≤ b && b ≤ 0xBF
  else if a = 0xED then 0x80 ≤ b && b ≤ 0x9F
  else if a = 0xF0 then 0x90 ≤ b && b ≤ 0xBF
  else if a = 0xF4 then 0x80 ≤ b && b ≤ 0x8F
  else isTail b

/-- The character that starts with byte `a`, and the number of continuation bytes it takes from
the bytes after `a`. -/
def leading? (a : UInt8) (after : List UInt8) : Option (Char × Nat) :=
  if a < 0x80 then some (Char.ofNat a.toNat, 0)
  else match after with
    | b :: more =>
      if 0xC2 ≤ a && a ≤ 0xDF && isTail b then
        some (Char.ofNat (a.toNat % 0x20 * 0x40 + tailBits b), 1)
      else match more with
        | c :: rest =>
          if 0xE0 ≤ a && a ≤ 0xEF && admits a b && isTail c then
            some (Char.ofNat ((a.toNat % 0x10 * 0x40 + tailBits b) * 0x40 + tailBits c), 2)
          else match rest with
            | d :: _ =>
              if 0xF0 ≤ a && a ≤ 0xF4 && admits a b && isTail c && isTail d then
                some (Char.ofNat (((a.toNat % 0x08 * 0x40 + tailBits b) * 0x40 + tailBits c) * 0x40
                  + tailBits d), 3)
              else none
            | [] => none
        | [] => none
    | [] => none

/-- The pieces of the bytes that remain after the first `skip`. -/
def piecesFrom : Nat → List UInt8 → Pieces
  | _, [] => []
  | skip + 1, _ :: rest => piecesFrom skip rest
  | 0, a :: rest =>
    match leading? a rest with
    | some (c, taken) => .char c :: piecesFrom taken rest
    | none => .byte a :: piecesFrom 0 rest

/-- The pieces of bytes. -/
def pieces (bytes : List UInt8) : Pieces := piecesFrom 0 bytes

/-- The text that bytes are shown as. -/
def decode (bytes : List UInt8) : String := (pieces bytes).text

end TypedScheme.Text.Utf8
