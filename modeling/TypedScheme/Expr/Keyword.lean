/-!
# Keywords and primitive names

The names with a meaning of their own: keywords, which start special forms and cannot be bound, and
the names of primitive operators, which always mean the operator.
-/

set_option autoImplicit false

namespace TypedScheme

/-- The keywords of the special forms. -/
inductive Keyword where
  | cond
  | lambda
  | letin
  | letrec
  | define
  | quote
  deriving DecidableEq, Repr

namespace Keyword

/-- All keywords. -/
def all : List Keyword := [cond, lambda, letin, letrec, define, quote]

/-- The name of a keyword. -/
def name : Keyword → String
  | cond => "if"
  | lambda => "lambda"
  | letin => "let"
  | letrec => "letrec"
  | define => "define"
  | quote => "quote"

/-- The keyword with a name. -/
def ofName? (s : String) : Option Keyword := all.find? fun k => k.name = s

end Keyword

/-- The names of the primitive operators. -/
def primitiveNames : List String :=
  ["+", "-", "*", "/", ">", "<", "=", "and", "or", "not", "number?", "boolean?", "string?", "list?",
    "pair?", "symbol?", "eq?", "string=?", "display", "newline", "cons", "car", "cdr"]

/-- Whether a name is that of a primitive operator. -/
def isPrimitive (name : String) : Bool := primitiveNames.contains name

/-- The head of a form that holds a whole program. -/
def programHead : String := "L5"

end TypedScheme
