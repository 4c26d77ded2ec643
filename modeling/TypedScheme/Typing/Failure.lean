import TypedScheme.Expr.Printer

/-!
# Type errors

What can be wrong with an expression that parses. Every fault belongs to a kind and has one message,
which shows the expression it arose in.
-/

set_option autoImplicit false

namespace TypedScheme

/-- The kinds of type error. Codes that name none of them are kept as they are. -/
inductive FaultKind where
  | unboundIdentifier
  | typeMismatch
  | arityMismatch
  | notProcedure
  | unsupported
  | structural
  | unknown (code : Int)
  deriving DecidableEq, Repr

namespace FaultKind

/-- The kind with a code. -/
def ofCode (n : Int) : FaultKind :=
  match n with
  | 1 => unboundIdentifier
  | 2 => typeMismatch
  | 3 => arityMismatch
  | 4 => notProcedure
  | 5 => unsupported
  | 6 => structural
  | n => unknown n

/-- The words for a kind. -/
def title : FaultKind → String
  | unboundIdentifier => "unbound identifier"
  | typeMismatch => "type mismatch"
  | arityMismatch => "arity mismatch"
  | notProcedure => "not a procedure"
  | unsupported => "unsupported"
  | structural => "structural"
  | unknown n => s!"Kind({n})"

end FaultKind

/-- What is wrong with an expression. -/
inductive TypeFault where
  | unbound (name : String)
  | mismatch (expected found : Ty) (inside : Expr)
  | notProcedure (operator : Expr) (found : Ty) (whole : Expr)
  | arity (operator : Ty) (expected found : Nat) (whole : Expr)
  | unknownPrimitive (name : String)
  | missingValue
  | missingForm
  | nestedDefine (form : Expr)
  | letrecValue (value : Expr)
  | emptyBody (form : Expr)
  | emptyProgram

namespace TypeFault

/-- The kind of a fault. -/
def kind : TypeFault → FaultKind
  | unbound _ => .unboundIdentifier
  | mismatch _ _ _ => .typeMismatch
  | notProcedure _ _ _ => .notProcedure
  | arity _ _ _ _ => .arityMismatch
  | unknownPrimitive _ => .unsupported
  | missingValue => .unsupported
  | missingForm => .unsupported
  | nestedDefine _ => .unsupported
  | letrecValue _ => .unsupported
  | emptyBody _ => .structural
  | emptyProgram => .structural

/-- The message for a fault. -/
def message : TypeFault → String
  | unbound name => s!"unbound identifier: {name}"
  | mismatch expected found inside =>
    s!"type mismatch: expected {expected.render}, got {found.render} in {inside.render}"
  | notProcedure operator found whole =>
    s!"application of non-procedure {operator.render} of type {found.render} in {whole.render}"
  | arity operator expected found whole =>
    s!"wrong parameter numbers: {operator.render} expects {expected}, got {found} in {whole.render}"
  | unknownPrimitive name => s!"primitive not implemented: {name}"
  | missingValue => "unexpected quoted form"
  | missingForm => s!"unknown type: {Expr.missing.render}"
  | nestedDefine form => s!"define is only allowed at top level: {form.render}"
  | letrecValue value => s!"letrec only supports procedure bindings: {value.render}"
  | emptyBody form => s!"empty body in {form.render}"
  | emptyProgram => "program must contain at least one expression"

end TypeFault

/-- A fault with its place. -/
structure TypeError where
  fault : TypeFault
  span : Span

namespace TypeError

/-- The kind of an error. -/
def kind (e : TypeError) : FaultKind := e.fault.kind

/-- The message without its place. -/
def message (e : TypeError) : String := e.fault.message

/-- The message behind its place. -/
def render (e : TypeError) : String := e.span.label e.message

end TypeError

end TypedScheme
