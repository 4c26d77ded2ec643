import TypedScheme.Token.Basic

/-!
# Data

A datum is the shape of a parenthesized text before any form is recognized in it: an atom, a datum
behind a quote, or a list, whose last part may follow a dot. A datum keeps its tokens, so that
`flatten` gives back exactly the tokens it was read from.
-/

set_option autoImplicit false

namespace TypedScheme

/-- A parenthesized text. -/
inductive Datum where
  | atom (token : Token)
  | quoted (mark : Token) (datum : Datum)
  | list (left : Token) (elements : List Datum) (right : Token)
  | dotted (left : Token) (elements : List Datum) (dot : Token) (tail : Datum) (right : Token)

namespace Datum

/-- The place of a datum. -/
def span : Datum → Span
  | atom t => t.span
  | quoted mark d => mark.span.cover d.span
  | list left _ right => left.span.cover right.span
  | dotted left _ _ _ right => left.span.cover right.span

mutual

/-- The tokens of a datum. -/
def flatten : Datum → List Token
  | atom t => [t]
  | quoted mark d => mark :: flatten d
  | list left ds right => left :: (flattenAll ds ++ [right])
  | dotted left ds dot tail right => left :: (flattenAll ds ++ dot :: (flatten tail ++ [right]))

/-- The tokens of data in a row. -/
def flattenAll : List Datum → List Token
  | [] => []
  | d :: ds => flatten d ++ flattenAll ds

end

/-- Whether a datum is the symbol of a name. -/
def isSymbol (d : Datum) (name : String) : Bool :=
  match d with
  | atom t => t.isSymbol name
  | _ => false

/-- Whether a datum is a colon. -/
def isColon (d : Datum) : Bool :=
  match d with
  | atom t => t.kind = .colon
  | _ => false

end Datum

end TypedScheme
