import TypedScheme.Text.Blank
import TypedScheme.Text.Identifier
import TypedScheme.Token.Basic

/-!
# From characters to tokens

`Lexeme.next` reads one lexeme off a text and returns it with the text after it; the characters that
lexemes cover, one after the other, are the text. A `Cursor` adds positions. At the end of the text
a cursor stays where it is and gives the end of the input again and again. Which characters make up a
symbol beside punctuation is left to the `IdentifierClasses`.
-/

set_option autoImplicit false

namespace TypedScheme

open Text

/-- What is wrong with the characters of an illegal token. -/
inductive LexicalFault where
  | inSymbol (found : Option Char)
  | inNumber (found : Option Char)
  | noFraction (found : Option Char)
  | unknownLiteral (text : String)
  | unknownEscape
  | unterminatedString
  | unexpected (found : Char)
  deriving DecidableEq, Repr

/-- The message that an illegal token carries. -/
def LexicalFault.message : LexicalFault → String
  | inSymbol c => s!"invalid character {Quoted.char c} in symbol"
  | inNumber c => s!"invalid character {Quoted.char c} in number"
  | noFraction c => s!"no digits after decimal point (found {Quoted.char c})"
  | unknownLiteral text => s!"unknown literal {Quoted.text text}"
  | unknownEscape => "unknown escape sequence"
  | unterminatedString => "unterminated string"
  | unexpected c => "unexpected character " ++ Quoted.char (some c)

/-- A lexeme: its kind, the characters it covers, and the fault that makes it illegal. The span of
a lexeme that `runsOut` reaches to the end of the input. -/
structure Lexeme where
  kind : Token.Kind
  covers : List Char
  fault : Option LexicalFault
  runsOut : Bool
  deriving DecidableEq, Repr

namespace Lexeme

/-- The punctuation that may stand anywhere in a symbol. -/
def symbolPunctuation : List Char := "+-*/<>=!?&%$^~_".toList

/-- Whether a character may start a symbol. -/
def startsSymbol [IdentifierClasses] (c : Char) : Bool :=
  IdentifierClasses.starts c || symbolPunctuation.contains c

/-- Whether a character may continue a symbol. -/
def continuesSymbol [IdentifierClasses] (c : Char) : Bool :=
  IdentifierClasses.continues c || symbolPunctuation.contains c

/-- Whether a character is a decimal digit. -/
def isDigit (c : Char) : Bool := '0' ≤ c && c ≤ '9'

/-- Whether a character ends an atom. -/
def isDelimiter (c : Char) : Bool :=
  c = '(' || c = ')' || c = '\'' || c = '"' || c = ';' || c = ':' || isBlank c

/-- Whether an atom may end in front of this text. -/
def atBoundary : List Char → Bool
  | [] => true
  | c :: _ => isDelimiter c

/-- A lexeme without fault. -/
def sound (kind : Token.Kind) (covers : List Char) : Lexeme := ⟨kind, covers, none, false⟩

/-- A malformed atom: it takes all characters up to the next delimiter. -/
def malformed (fault : LexicalFault) (covers rest : List Char) : Lexeme × List Char :=
  (⟨.illegal, covers ++ rest.takeWhile (!isDelimiter ·), some fault, false⟩,
    rest.dropWhile (!isDelimiter ·))

/-- An atom that must end in front of `rest`. -/
def atom (kind : Token.Kind) (fault : Option Char → LexicalFault) (covers rest : List Char) :
    Lexeme × List Char :=
  if atBoundary rest then (sound kind covers, rest) else malformed (fault rest.head?) covers rest

/-- A maximal run of characters of a class. -/
def run (kind : Token.Kind) (p : Char → Bool) (cs : List Char) : Lexeme × List Char :=
  (sound kind (cs.takeWhile p), cs.dropWhile p)

/-- A symbol from its first character and the text after it. -/
def symbol [IdentifierClasses] (c : Char) (rest : List Char) : Lexeme × List Char :=
  atom .symbol .inSymbol (c :: rest.takeWhile continuesSymbol) (rest.dropWhile continuesSymbol)

/-- A number from its sign and the text after it: digits and, behind a point, more digits. -/
def number (sign rest : List Char) : Lexeme × List Char :=
  let whole := sign ++ rest.takeWhile isDigit
  match rest.dropWhile isDigit with
  | '.' :: more =>
    let covers := whole ++ '.' :: more.takeWhile isDigit
    let after := more.dropWhile isDigit
    if (more.takeWhile isDigit).isEmpty then malformed (.noFraction after.head?) covers after
    else atom .number .inNumber covers after
  | after => atom .number .inNumber whole after

/-- A literal that starts with a hash sign. -/
def hash [IdentifierClasses] (rest : List Char) : Lexeme × List Char :=
  let covers := '#' :: rest.takeWhile continuesSymbol
  let after := rest.dropWhile continuesSymbol
  if (Token.booleans.lookup (String.ofList covers)).isSome && atBoundary after then
    (sound .boolean covers, after)
  else
    let whole := covers ++ after.takeWhile (!isDelimiter ·)
    (⟨.illegal, whole, some (.unknownLiteral (String.ofList whole)), false⟩,
      after.dropWhile (!isDelimiter ·))

/-- Whether a character may follow a backslash in a string. -/
def isEscapable (c : Char) : Bool := c = 'n' || c = 't' || c = 'r' || c = '\\' || c = '"'

/-- The rest of a string after its opening quote: the characters up to and with the closing quote,
whether there is one, whether all escapes are known, and the text after it. -/
structure StringTail where
  covers : List Char
  closed : Bool
  wellEscaped : Bool
  rest : List Char

/-- The rest of a string after its opening quote. -/
def stringTail : List Char → StringTail
  | [] => ⟨[], false, true, []⟩
  | '\\' :: c :: rest =>
    let t := stringTail rest
    ⟨'\\' :: c :: t.covers, t.closed, isEscapable c && t.wellEscaped, t.rest⟩
  | '"' :: rest => ⟨['"'], true, true, rest⟩
  | c :: rest =>
    let t := stringTail rest
    ⟨c :: t.covers, t.closed, t.wellEscaped, t.rest⟩

/-- A string from the text after its opening quote. -/
def string (rest : List Char) : Lexeme × List Char :=
  let t := stringTail rest
  if !t.closed then
    (⟨.illegal, '"' :: t.covers, some .unterminatedString, true⟩, t.rest)
  else if !t.wellEscaped then (⟨.illegal, '"' :: t.covers, some .unknownEscape, false⟩, t.rest)
  else (sound .string ('"' :: t.covers), t.rest)

/-- The kind of a character that is a token by itself. -/
def punctuation? (c : Char) : Option Token.Kind :=
  match c with
  | '(' => some .leftParen
  | ')' => some .rightParen
  | '\'' => some .quote
  | '.' => some .period
  | ':' => some .colon
  | _ => none

/-- Whether text starts with a digit. -/
def startsWithDigit : List Char → Bool
  | [] => false
  | c :: _ => isDigit c

/-- The first lexeme of a text, and the text after it. -/
def next [IdentifierClasses] : List Char → Lexeme × List Char
  | [] => (sound .endOfInput [], [])
  | c :: rest =>
    if isBlank c then run .whitespace isBlank (c :: rest)
    else if c = ';' then run .comment (· ≠ '\n') (c :: rest)
    else if c = '"' then string rest
    else if c = '#' then hash rest
    else if isDigit c then number [] (c :: rest)
    else if (c = '+' || c = '-') && startsWithDigit rest then number [c] rest
    else if startsSymbol c then symbol c rest
    else match punctuation? c with
      | some kind => (sound kind [c], rest)
      | none => (⟨.illegal, [c], some (.unexpected c), false⟩, rest)

/-- Whether the characters of a lexeme are the text of its token. -/
def showsText : Token.Kind → Bool
  | .number => true
  | .boolean => true
  | .string => true
  | .symbol => true
  | .whitespace => true
  | .comment => true
  | _ => false

/-- The text that the token of a lexeme carries. -/
def text (l : Lexeme) : String :=
  match l.fault with
  | some f => f.message
  | none => if showsText l.kind then String.ofList l.covers else ""

/-- The span of a lexeme that starts at a position. -/
def span (l : Lexeme) (p : Position) : Span :=
  ⟨p, p.after (if l.runsOut then l.covers else l.covers.dropLast)⟩

/-- The token of a lexeme that starts at a position. -/
def token (l : Lexeme) (p : Position) : Token := ⟨l.kind, l.span p, l.text⟩

end Lexeme

/-- A place in a text with the text that remains. -/
structure Cursor where
  position : Position
  rest : List Char
  deriving DecidableEq, Repr

namespace Cursor

/-- The cursor at the start of a text. -/
def ofSource (source : String) : Cursor := ⟨.start, source.toList⟩

/-- The token at a cursor, layout included, and the cursor after it. -/
def next [IdentifierClasses] (c : Cursor) : Token × Cursor :=
  let (l, rest) := Lexeme.next c.rest
  (l.token c.position, ⟨c.position.after l.covers, rest⟩)

/-- The tokens from a cursor to the end of the input, at most `fuel` before the end. -/
def tokensWithin [IdentifierClasses] : Nat → Cursor → List Token × Cursor
  | 0, c => let (t, c') := c.next; ([t], c')
  | fuel + 1, c =>
    let (t, c') := c.next
    if t.kind = .endOfInput then ([t], c')
    else
      let (ts, last) := tokensWithin fuel c'
      (t :: ts, last)

/-- The tokens from a cursor to the end of the input, which is the last of them, and the cursor
there. Every token before the end covers a character, so their number is bounded by the text. -/
def tokens [IdentifierClasses] (c : Cursor) : List Token × Cursor := tokensWithin c.rest.length c

end Cursor

namespace Token

/-- All tokens of a text, layout included, up to the end of the input. -/
def scan [IdentifierClasses] (source : String) : List Token := (Cursor.ofSource source).tokens.1

/-- The significant tokens of a text with the layout in front of them. -/
def scanSpaced [IdentifierClasses] (source : String) : List Spaced := Spaced.group (scan source)

/-- The significant tokens of a text before the end of the input. -/
def significant [IdentifierClasses] (source : String) : List Token :=
  (scan source).filter fun t => !t.kind.isLayout && t.kind ≠ .endOfInput

end Token

end TypedScheme
