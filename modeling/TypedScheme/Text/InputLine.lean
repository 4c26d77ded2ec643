import TypedScheme.Text.Lines
import TypedScheme.Text.Utf8

/-!
# Lines of input

Input is read by lines. A line is ended by a newline, with or without a carriage return before it,
and the last line need not be ended. A line is read through a buffer of limited size, so a line that
fills it comes in pieces, and what comes last is what is left when it ends. No piece but the last ends
in a carriage return, since that may belong to the end of the line.
-/

set_option autoImplicit false

namespace TypedScheme.Text

/-- A line up to its newline, and whether it has one. -/
structure InputLine where
  text : String
  ended : Bool
  deriving DecidableEq, Repr

namespace InputLine

/-- The number of bytes that the buffer holds. -/
def limit : Nat := 4096

/-- The lines between newlines: all but the last of these are ended, and a last one that is empty is
none. -/
def ofTexts : List String → List InputLine
  | [] => []
  | [text] => if text = "" then [] else [⟨text, false⟩]
  | text :: rest => ⟨text, true⟩ :: ofTexts rest

/-- The lines of a text. -/
def split (text : String) : List InputLine := ofTexts (lines text)

/-- The bytes of a line. -/
def bytes (l : InputLine) : List UInt8 := l.text.toUTF8.toList

/-- Whether a line goes through the buffer whole. -/
def fits (l : InputLine) : Bool := l.text.utf8ByteSize < limit

/-- Bytes without a carriage return at their end. -/
def withoutReturn (bytes : List UInt8) : List UInt8 :=
  if bytes.getLast? = some 13 then bytes.dropLast else bytes

/-- Bytes as the buffer gives them out, where `ended` tells whether a newline comes after them. -/
def buffered (ended : Bool) : Nat → List UInt8 → List (List UInt8)
  | 0, bytes => [bytes]
  | fuel + 1, bytes =>
    if limit ≤ bytes.length then
      let piece := withoutReturn (bytes.take limit)
      piece :: buffered ended fuel (bytes.drop piece.length)
    else if ended then [withoutReturn bytes]
    else if bytes.isEmpty then []
    else [bytes]

/-- The pieces of a line. -/
def pieces (l : InputLine) : List String :=
  (buffered l.ended (l.text.utf8ByteSize + 1) l.bytes).map Utf8.decode

/-- The pieces of all lines of a text. -/
def piecesOf (text : String) : List String := (split text).flatMap pieces

/-- The lines of a text up to the first that does not go through the buffer whole. -/
def wholeLines (text : String) : List String := ((split text).takeWhile fits).flatMap pieces

end InputLine

end TypedScheme.Text
