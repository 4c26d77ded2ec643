import TypedScheme.Expr.Basic

/-!
# Expressions as text

The concrete form of an expression on one line. Quoted data are written behind a quote mark, inline
declarations as `(name : type)`, and the forms of a program one under the other.
-/

set_option autoImplicit false

namespace TypedScheme

/-- The concrete form of a declaration. -/
def Decl.render (d : Decl) : String :=
  match d.ty? with
  | none => d.name
  | some t => "(" ++ d.name ++ " : " ++ t.render ++ ")"

/-- The concrete form of parameters, separated by blanks. -/
def Param.renderAll (params : List Param) : String :=
  String.intercalate " " (params.map fun p => p.decl.render)

namespace Expr

mutual

/-- The concrete form of an expression. -/
def render : Expr → String
  | missing => "<nil>"
  | number _ n => n.render
  | boolean _ b => Value.renderBoolean b
  | string _ s => Text.Quoted.pieces s
  | quoted _ v _ => "'" ++ v.render
  | primitive t => t.text
  | var t => t.text
  | cond _ test consequent alternative =>
    "(if " ++ render test ++ " " ++ render consequent ++ " " ++ render alternative ++ ")"
  | lambda _ params result body =>
    "(lambda (" ++ Param.renderAll params ++ ") : " ++ result.render ++ renderRest body ++ ")"
  | app _ operator operands => "(" ++ render operator ++ renderRest operands ++ ")"
  | letin _ bindings body => "(let (" ++ renderBindings bindings ++ ")" ++ renderRest body ++ ")"
  | letrec _ bindings body =>
    "(letrec (" ++ renderBindings bindings ++ ")" ++ renderRest body ++ ")"
  | define _ decl value => "(define " ++ decl.render ++ " " ++ render value ++ ")"
  | program forms => renderLines forms

/-- The concrete forms of expressions, each behind a blank. -/
def renderRest : List Expr → String
  | [] => ""
  | e :: es => " " ++ render e ++ renderRest es

/-- The concrete forms of expressions, separated by line feeds. -/
def renderLines : List Expr → String
  | [] => ""
  | [e] => render e
  | e :: es => render e ++ "\n" ++ renderLines es

/-- The concrete forms of bindings, separated by blanks. -/
def renderBindings : List (Decl × Expr) → String
  | [] => ""
  | [(decl, value)] => "(" ++ decl.render ++ " " ++ render value ++ ")"
  | (decl, value) :: rest =>
    "(" ++ decl.render ++ " " ++ render value ++ ") " ++ renderBindings rest

end

end Expr

end TypedScheme
