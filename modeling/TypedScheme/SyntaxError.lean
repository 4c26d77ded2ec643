import TypedScheme.Token.Basic

/-!
# Syntax errors

What can be wrong with a text, from unbalanced parentheses to a misplaced keyword. Every cause has
one message. A cause is incomplete when the text could go on so that the fault disappears.
-/

set_option autoImplicit false

namespace TypedScheme

open Text

/-- What is wrong with a text. -/
inductive SyntaxFault where
  -- data
  | datumExpected
  | unexpectedClose
  | unexpectedDot
  | illegal (message : String)
  | unclosed
  | closeExpected
  -- type expressions
  | invalidType (text : String)
  | reservedInType (name : String)
  | dottedType
  | emptyType
  | pairArity
  | arrowMissing
  | arrowMisplaced
  | starExpected
  | parameterExpected
  | quotedType
  | typeCount (found : Nat)
  -- expressions
  | expressionExpected
  | extraForm
  | invalidNumber (text : String)
  | invalidString (text : String)
  | strayKeyword (name : String)
  | strayColon
  | strayToken (kind : Token.Kind)
  | dottedExpression
  | emptyCombination
  | malformedIf
  | malformedLambda
  | parametersExpected
  | returnTypeExpected
  | duplicateParameter (name : String)
  | bindingsMissing (keyword : String)
  | bindingsExpected (keyword : String)
  | duplicateBinding (name : String)
  | bindingExpected
  | malformedBinding
  | malformedDefine
  | untypedName (name : String)
  | malformedDeclaration
  | colonExpected (name : String)
  | nameExpected
  | boundKeyword (name : String)
  | malformedQuote
  | strayDatum (kind : Token.Kind)
  deriving DecidableEq, Repr

namespace SyntaxFault

/-- The message for a fault. -/
def message : SyntaxFault → String
  | datumExpected => "expected datum after quote"
  | unexpectedClose => "unexpected ')'"
  | unexpectedDot => "unexpected '.'"
  | illegal m => m
  | unclosed => "unclosed '('"
  | closeExpected => "expected ')' after dotted tail"
  | invalidType text => s!"invalid type expression {Quoted.text text}"
  | reservedInType name => s!"unexpected {Quoted.text name} in type expression"
  | dottedType => "dotted list in type expression"
  | emptyType => "empty type expression"
  | pairArity => "Pair takes exactly two types"
  | arrowMissing => "expected '->' in procedure type"
  | arrowMisplaced => "expected '->' before the return type"
  | starExpected => "expected '*' between parameter types"
  | parameterExpected => "expected parameter type after '*'"
  | quotedType => "invalid type expression"
  | typeCount found => s!"expected exactly one type expression, found {found}"
  | expressionExpected => "expected an expression"
  | extraForm => "unexpected form after expression"
  | invalidNumber text => s!"invalid number {Quoted.text text}"
  | invalidString text => s!"invalid string literal {text}"
  | strayKeyword name => s!"unexpected keyword {Quoted.text name}"
  | strayColon => "unexpected ':' outside of a type annotation"
  | strayToken kind => s!"unexpected token {kind.name}"
  | dottedExpression => "dotted list is not an expression"
  | emptyCombination => "empty combination"
  | malformedIf => "if takes exactly a test, a consequent and an alternative"
  | malformedLambda => "lambda requires a parameter list and a return type"
  | parametersExpected => "expected parameter list"
  | returnTypeExpected => "expected ':' and a return type after the parameter list"
  | duplicateParameter name => s!"duplicate parameter {Quoted.text name}"
  | bindingsMissing keyword => s!"{keyword} requires a binding list"
  | bindingsExpected keyword => s!"expected {keyword} binding list"
  | duplicateBinding name => s!"duplicate binding {Quoted.text name}"
  | bindingExpected => "expected binding"
  | malformedBinding => "malformed binding"
  | malformedDefine => "define requires a typed name and a value"
  | untypedName name => s!"missing type annotation for {Quoted.text name}"
  | malformedDeclaration => "expected (name : type)"
  | colonExpected name => s!"expected ':' after {Quoted.text name}"
  | nameExpected => "expected a variable name"
  | boundKeyword name => s!"cannot bind keyword {Quoted.text name}"
  | malformedQuote => "quote takes exactly one datum"
  | strayDatum kind => s!"unexpected token {kind.name} in quoted datum"

/-- Whether more text could mend a fault: the text ended inside a form or before any. -/
def isIncomplete : SyntaxFault → Bool
  | datumExpected => true
  | unclosed => true
  | expressionExpected => true
  | _ => false

end SyntaxFault

/-- A fault with its place. -/
structure SyntaxError where
  fault : SyntaxFault
  span : Span
  deriving DecidableEq, Repr

namespace SyntaxError

/-- The message without its place. -/
def message (e : SyntaxError) : String := e.fault.message

/-- The message behind its place. -/
def render (e : SyntaxError) : String := e.span.label e.message

/-- Whether more text could mend the fault. -/
def isIncomplete (e : SyntaxError) : Bool := e.fault.isIncomplete

end SyntaxError

end TypedScheme
