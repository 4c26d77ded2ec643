import TypedScheme.Span
import TypedScheme.Token.Basic
import TypedScheme.Ty.Basic
import TypedScheme.Value.Basic

/-!
# Expressions

The forms of the language after parsing. Literals and names keep their token, and compound forms keep
the place of their parentheses. A form that is not there at all is `missing`; the parser makes none.
-/

set_option autoImplicit false

namespace TypedScheme

/-- A parameter of a procedure with its type. -/
structure Param where
  token : Token
  ty : Ty
  span : Span
  deriving DecidableEq, Repr

/-- A name that a form binds, with its declared type if it has one. -/
structure Decl where
  token : Token
  ty? : Option Ty
  span : Span
  deriving DecidableEq, Repr

/-- The name of a parameter. -/
def Param.name (p : Param) : String := p.token.text

/-- A parameter as a declaration. -/
def Param.decl (p : Param) : Decl := ⟨p.token, some p.ty, p.span⟩

/-- The name that a declaration binds. -/
def Decl.name (d : Decl) : String := d.token.text

/-- The type that a name has by its declaration alone. -/
def Decl.boundType (d : Decl) : Ty := d.ty?.getD .absent

/-- An expression, a definition or a program. -/
inductive Expr where
  | missing
  | number (literal : Token) (value : Binary64)
  | boolean (literal : Token) (value : Bool)
  | string (literal : Token) (value : Text.Pieces)
  | quoted (mark : Token) (value : Value) (span : Span)
  | primitive (token : Token)
  | var (token : Token)
  | cond (span : Span) (test consequent alternative : Expr)
  | lambda (span : Span) (params : List Param) (result : Ty) (body : List Expr)
  | app (span : Span) (operator : Expr) (operands : List Expr)
  | letin (span : Span) (bindings : List (Decl × Expr)) (body : List Expr)
  | letrec (span : Span) (bindings : List (Decl × Expr)) (body : List Expr)
  | define (span : Span) (decl : Decl) (value : Expr)
  | program (forms : List Expr)

namespace Expr

mutual

/-- The place of an expression. A program has the place of its forms. -/
def span : Expr → Span
  | missing => .absent
  | number t _ => t.span
  | boolean t _ => t.span
  | string t _ => t.span
  | quoted _ _ s => s
  | primitive t => t.span
  | var t => t.span
  | cond s _ _ _ => s
  | lambda s _ _ _ => s
  | app s _ _ => s
  | letin s _ _ => s
  | letrec s _ _ => s
  | define s _ _ => s
  | program forms => (firstSpan forms).cover (lastSpan forms)

/-- The place of the first form. -/
def firstSpan : List Expr → Span
  | [] => .absent
  | e :: _ => span e

/-- The place of the last form. -/
def lastSpan : List Expr → Span
  | [] => .absent
  | [e] => span e
  | _ :: es => lastSpan es

end

/-- The type that a procedure declares. -/
def procType (params : List Param) (result : Ty) : Ty := .proc (params.map (·.ty)) result

end Expr

end TypedScheme
