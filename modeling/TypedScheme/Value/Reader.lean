import TypedScheme.Datum.Basic
import TypedScheme.Number.Numeral
import TypedScheme.SyntaxError
import TypedScheme.Value.Basic

/-!
# From data to quoted values

Every datum is a value, except for atoms that are neither literals nor names. A quote inside quoted
data is the list of the symbol `quote` and the value, and a colon is a symbol.
-/

set_option autoImplicit false

namespace TypedScheme

/-- The number of a number token. -/
def Token.numberValue (t : Token) : Except SyntaxError Binary64 :=
  match Numeral.read? t.text with
  | some n => .ok n
  | none => .error ⟨.invalidNumber t.text, t.span⟩

/-- The value of a string token. -/
def Token.stringValue (t : Token) : Except SyntaxError Text.Pieces :=
  match Text.Quoted.decode? t.text with
  | some s => .ok s
  | none => .error ⟨.invalidString t.text, t.span⟩

namespace Value

/-- The value of an atom. -/
def ofToken (t : Token) : Except SyntaxError Value :=
  match t.kind with
  | .number => do pure (.number (← t.numberValue))
  | .boolean => pure (.boolean (Token.booleanValue t.text))
  | .string => do pure (.string (← t.stringValue))
  | .symbol => pure (.symbol t.text)
  | .colon => pure (.symbol ":")
  | kind => .error ⟨.strayDatum kind, t.span⟩

mutual

/-- The value of a datum. The tail of a dotted list is read before its elements. -/
def ofDatum : Datum → Except SyntaxError Value
  | .atom t => ofToken t
  | .quoted _ d => do
    let v ← ofDatum d
    pure (ofList [.symbol "quote", v])
  | .list _ ds _ => do
    let vs ← ofData ds
    pure (ofList vs)
  | .dotted _ ds _ tail _ => do
    let last ← ofDatum tail
    let vs ← ofData ds
    pure (onto vs last)

/-- The values of data in a row. -/
def ofData : List Datum → Except SyntaxError (List Value)
  | [] => pure []
  | d :: ds => do
    let v ← ofDatum d
    let vs ← ofData ds
    pure (v :: vs)

end

end Value

end TypedScheme
