import TypedScheme.Text.Printable
import TypedScheme.Text.Utf8

/-!
# Quoted text

Text between quotes, with escapes for what cannot stand for itself. `encode` writes the inside of
the quotes, `decode?` reads a whole literal. Double quotes hold any text without a line feed, single
quotes hold at most one character, and grave accents hold text verbatim without its carriage returns.
-/

set_option autoImplicit false

namespace TypedScheme.Text.Quoted

/-- The digit of a value below sixteen, in lower case. -/
def hexDigit (n : Nat) : Char :=
  if n < 10 then Char.ofNat (48 + n) else Char.ofNat (87 + n)

/-- The last `width` hexadecimal digits of a number. -/
def hexDigits : Nat → Nat → List Char
  | 0, _ => []
  | width + 1, n => hexDigits width (n / 16) ++ [hexDigit (n % 16)]

/-- The letter that escapes a control character, for those that have one. -/
def controlLetter? (c : Char) : Option Char :=
  match c.toNat with
  | 7 => some 'a'
  | 8 => some 'b'
  | 9 => some 't'
  | 10 => some 'n'
  | 11 => some 'v'
  | 12 => some 'f'
  | 13 => some 'r'
  | _ => none

/-- One character as it is written between quotes of the given mark. -/
def encodeChar (mark c : Char) : List Char :=
  if c = mark || c = '\\' then ['\\', c]
  else if isPrintable c then [c]
  else match controlLetter? c with
    | some letter => ['\\', letter]
    | none =>
      if c.toNat < 0x20 || c.toNat = 0x7F then '\\' :: 'x' :: hexDigits 2 c.toNat
      else if c.toNat < 0x10000 then '\\' :: 'u' :: hexDigits 4 c.toNat
      else '\\' :: 'U' :: hexDigits 8 c.toNat

/-- One piece as it is written between quotes of the given mark. -/
def encodePiece (mark : Char) : Piece → List Char
  | .char c => encodeChar mark c
  | .byte b => '\\' :: 'x' :: hexDigits 2 b.toNat

/-- The inside of quoted pieces. -/
def encode (mark : Char) (ps : Pieces) : List Char := ps.flatMap (encodePiece mark)

/-- Pieces in double quotes. -/
def pieces (ps : Pieces) : String := String.ofList ('"' :: encode '"' ps ++ ['"'])

/-- Text in double quotes. -/
def text (s : String) : String := pieces (.ofString s)

/-- One character in single quotes. The end of the input is shown as the replacement character. -/
def char (c : Option Char) : String :=
  String.ofList ('\'' :: encodeChar '\'' (c.getD replacement) ++ ['\''])

/-- The value of a hexadecimal digit of either case. -/
def hexValue? (c : Char) : Option Nat :=
  if '0' ≤ c && c ≤ '9' then some (c.toNat - 48)
  else if 'a' ≤ c && c ≤ 'f' then some (c.toNat - 87)
  else if 'A' ≤ c && c ≤ 'F' then some (c.toNat - 55)
  else none

/-- The value of an octal digit. -/
def octalValue? (c : Char) : Option Nat :=
  if '0' ≤ c && c ≤ '7' then some (c.toNat - 48) else none

/-- The number written by digits of a base, if every one of them is a digit. -/
def numeral? (base : Nat) (value? : Char → Option Nat) (ds : List Char) : Option Nat :=
  ds.foldl (fun acc d => do pure ((← acc) * base + (← value? d))) (some 0)

/-- Pieces after the bytes `pending`, where bytes that stand together are read as encoded text. -/
def settleFrom : List UInt8 → Pieces → Pieces
  | pending, [] => Utf8.pieces pending
  | pending, .char c :: rest => Utf8.pieces pending ++ .char c :: settleFrom [] rest
  | pending, .byte b :: rest => settleFrom (pending ++ [b]) rest

/-- Pieces with the bytes that make up characters read as those. -/
def settle (ps : Pieces) : Pieces := settleFrom [] ps

/-- The character with a code point, unless it is a surrogate or too large. -/
def scalar? (n : Nat) : Option Char :=
  if n < 0xD800 || (0xE000 ≤ n && n < 0x110000) then some (Char.ofNat n) else none

/-- The escape of fixed width that a letter after the backslash announces: the number of digits,
and whether the value is a byte. -/
def wideEscape? (letter : Char) : Option (Nat × Bool) :=
  match letter with
  | 'x' => some (2, true)
  | 'u' => some (4, false)
  | 'U' => some (8, false)
  | _ => none

/-- The character that a single letter after the backslash stands for. -/
def letterEscape? (mark letter : Char) : Option Char :=
  match letter with
  | 'a' => some '\x07'
  | 'b' => some '\x08'
  | 'f' => some '\x0c'
  | 'n' => some '\n'
  | 'r' => some '\r'
  | 't' => some '\t'
  | 'v' => some '\x0b'
  | '\\' => some '\\'
  | c => if c = mark && (c = '\'' || c = '"') then some c else none

/-- The escape after a backslash, and the number of characters after its letter that it takes. -/
def escape? (mark letter : Char) (after : List Char) : Option (Piece × Nat) :=
  match wideEscape? letter with
  | some (width, isByte) =>
    if after.length < width then none
    else match numeral? 16 hexValue? (after.take width) with
      | some n =>
        if isByte then some (.byte n.toUInt8, width)
        else (scalar? n).map fun c => (.char c, width)
      | none => none
  | none =>
    match octalValue? letter with
    | some _ =>
      if after.length < 2 then none
      else match numeral? 8 octalValue? (letter :: after.take 2) with
        | some n => if n < 256 then some (.byte n.toUInt8, 2) else none
        | none => none
    | none => (letterEscape? mark letter).map fun c => (.char c, 0)

/-- The pieces up to the closing mark, which must end the text, after `skip` characters that
belong to the escape before them. An escape by number gives a byte. -/
def piecesFrom (mark : Char) : Nat → List Char → Option Pieces
  | _, [] => none
  | skip + 1, _ :: rest => piecesFrom mark skip rest
  | 0, c :: rest =>
    if c = mark then if rest.isEmpty then some [] else none
    else if c = '\n' then none
    else if c = '\\' then
      match rest with
      | [] => none
      | letter :: after =>
        match escape? mark letter after with
        | some (piece, width) => (piecesFrom mark width after).map (piece :: ·)
        | none => none
    else (piecesFrom mark 0 rest).map (.char c :: ·)

/-- The grave accent, which encloses text verbatim. -/
def grave : Char := '\x60'

/-- The value that a literal stands for. -/
def decode? (literal : String) : Option Pieces :=
  match literal.toList with
  | [] => none
  | mark :: rest =>
    if mark = '"' then (piecesFrom mark 0 rest).map settle
    else if mark = '\'' then
      (piecesFrom mark 0 rest).bind fun ps => if ps.length ≤ 1 then some (settle ps) else none
    else if mark = grave then
      if rest.getLast? = some grave && !rest.dropLast.contains grave then
        some ((rest.dropLast.filter (· ≠ '\r')).map .char)
      else none
    else none

end TypedScheme.Text.Quoted
