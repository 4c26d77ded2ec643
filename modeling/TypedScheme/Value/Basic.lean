import TypedScheme.Number.Shortest
import TypedScheme.Text.Quoted

/-!
# Quoted values

A value is what a quoted datum stands for: a number, a boolean, a string, a symbol, the empty list or
a pair. A value that was never given is kept as `missing`.
-/

set_option autoImplicit false

namespace TypedScheme

/-- A quoted value. -/
inductive Value where
  | missing
  | number (n : Binary64)
  | boolean (b : Bool)
  | string (s : Text.Pieces)
  | symbol (name : String)
  | empty
  | pair (car cdr : Value)
  deriving DecidableEq, Repr

namespace Value

/-- The list of values that ends in a tail. -/
def onto (values : List Value) (tail : Value) : Value := values.foldr pair tail

/-- The proper list of values. -/
def ofList (values : List Value) : Value := onto values empty

/-- The concrete form of a boolean. -/
def renderBoolean (b : Bool) : String := if b then "#t" else "#f"

mutual

/-- The concrete form of a value. -/
def render : Value → String
  | missing => ""
  | number n => n.render
  | boolean b => renderBoolean b
  | string s => Text.Quoted.pieces s
  | symbol name => name
  | empty => "()"
  | pair a d => "(" ++ render a ++ renderTail d

/-- The rest of a list after an element, up to its closing parenthesis. -/
def renderTail : Value → String
  | missing => " . )"
  | number n => " . " ++ n.render ++ ")"
  | boolean b => " . " ++ renderBoolean b ++ ")"
  | string s => " . " ++ Text.Quoted.pieces s ++ ")"
  | symbol name => " . " ++ name ++ ")"
  | empty => ")"
  | pair a d => " " ++ render a ++ renderTail d

end

end Value

end TypedScheme
