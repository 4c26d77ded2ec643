/-!
# Pieces of text

The value of a string literal need not be text, since escapes can give bytes that are part of no
character. Such a value is a list of pieces, each of them a character or a stray byte.
-/

set_option autoImplicit false

namespace TypedScheme.Text

/-- The character shown where bytes make no sense. -/
def replacement : Char := '�'

/-- A character, or a byte that is part of none. -/
inductive Piece where
  | char (c : Char)
  | byte (b : UInt8)
  deriving DecidableEq, Repr

/-- The character that a piece is shown as. -/
def Piece.shown : Piece → Char
  | char c => c
  | byte _ => replacement

/-- Characters and stray bytes in a row. -/
abbrev Pieces := List Piece

namespace Pieces

/-- Text without stray bytes. -/
def ofString (s : String) : Pieces := s.toList.map .char

/-- The text that pieces are shown as, with one replacement character for each stray byte. -/
def text (ps : Pieces) : String := String.ofList (ps.map Piece.shown)

end Pieces

end TypedScheme.Text
