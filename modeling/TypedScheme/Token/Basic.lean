import TypedScheme.Span
import TypedScheme.Text.Quoted

/-!
# Tokens

A token is a kind, a place and a text. Punctuation and the end of the input carry no text, and an
illegal token carries the message that explains it. White space and comments are tokens too; they
are the layout in front of the next significant token.
-/

set_option autoImplicit false

namespace TypedScheme

namespace Token

/-- The kinds of token. Codes that name none of them are kept as they are. -/
inductive Kind where
  | endOfInput
  | leftParen
  | rightParen
  | quote
  | period
  | colon
  | number
  | boolean
  | string
  | symbol
  | whitespace
  | comment
  | illegal
  | unknown (code : Int)
  deriving DecidableEq, Repr

namespace Kind

/-- The named kinds in the order of their codes. -/
def named : List Kind :=
  [endOfInput, leftParen, rightParen, quote, period, colon, number, boolean, string, symbol,
    whitespace, comment, illegal]

/-- The code of a kind. -/
def code : Kind → Int
  | endOfInput => 0
  | leftParen => 1
  | rightParen => 2
  | quote => 3
  | period => 4
  | colon => 5
  | number => 6
  | boolean => 7
  | string => 8
  | symbol => 9
  | whitespace => 10
  | comment => 11
  | illegal => 12
  | unknown n => n

/-- The kind with a code. -/
def ofCode (n : Int) : Kind := (named.find? fun k => k.code = n).getD (unknown n)

/-- The name of a kind. -/
def name : Kind → String
  | endOfInput => "EOF"
  | leftParen => "LeftParen"
  | rightParen => "RightParen"
  | quote => "Quote"
  | period => "Period"
  | colon => "Colon"
  | number => "Number"
  | boolean => "Boolean"
  | string => "String"
  | symbol => "Symbol"
  | whitespace => "Whitespace"
  | comment => "Comment"
  | illegal => "Illegal"
  | unknown n => s!"TokenType({n})"

/-- The kind with a name. A name that belongs to no kind has code `-1`. -/
def ofName (s : String) : Kind := (named.find? fun k => k.name = s).getD (unknown (-1))

/-- Whether a kind is layout: white space or a comment. -/
def isLayout : Kind → Bool
  | whitespace => true
  | comment => true
  | _ => false

end Kind

end Token

/-- A token of a source text. -/
structure Token where
  kind : Token.Kind
  span : Span
  text : String
  deriving DecidableEq, Repr

namespace Token

/-- The token of a kind at the end of the input, or anywhere else, that carries no text. -/
def bare (kind : Kind) (span : Span) : Token := ⟨kind, span, ""⟩

/-- A token as text: its place, its kind and, if it has one, its text in quotes. -/
def render (t : Token) : String :=
  let head := s!"{t.span.render}:{t.kind.name}"
  if t.text = "" then head else s!"{head} {Text.Quoted.text t.text}"

/-- Whether a token is the symbol of a name. -/
def isSymbol (t : Token) (name : String) : Bool := t.kind = .symbol && t.text = name

/-- A significant token with the layout in front of it. -/
structure Spaced where
  layout : List Token
  token : Token
  deriving DecidableEq, Repr

/-- Tokens grouped so that layout goes with the significant token after it, where `layout` is what
has been passed over already. -/
def Spaced.groupFrom (layout : List Token) : List Token → List Spaced
  | [] => []
  | t :: rest =>
    if t.kind.isLayout then groupFrom (layout ++ [t]) rest
    else ⟨layout, t⟩ :: groupFrom [] rest

/-- Tokens grouped so that layout goes with the significant token after it. -/
def Spaced.group (tokens : List Token) : List Spaced := groupFrom [] tokens

/-- The texts of the boolean literals and what they mean. -/
def booleans : List (String × Bool) :=
  [("#t", true), ("#true", true), ("#f", false), ("#false", false)]

/-- The meaning of a boolean literal. Any other text counts as false. -/
def booleanValue (text : String) : Bool := (booleans.lookup text).getD false

end Token

end TypedScheme
