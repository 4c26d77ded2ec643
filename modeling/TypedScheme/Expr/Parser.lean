import TypedScheme.Datum.Reader
import TypedScheme.Expr.Basic
import TypedScheme.Expr.Keyword
import TypedScheme.Ty.Reader
import TypedScheme.Value.Reader

/-!
# From data to expressions

A list whose head is a keyword is a special form, and any other list applies its first element to
the others. The variables of a type annotation belong to one declaration; only the parameters and
the result of a procedure share theirs.
-/

set_option autoImplicit false

namespace TypedScheme

/-- The top-level forms of a text. -/
structure Program where
  forms : List Expr

/-- A program as an expression. -/
def Program.expr (p : Program) : Expr := .program p.forms

namespace Expr

/-- The name that a datum declares. Keywords cannot be declared. -/
def nameOf : Datum → Parse Token
  | .atom t =>
    if t.kind = .symbol then
      match Keyword.ofName? t.text with
      | some _ => Parse.fault (.boundKeyword t.text) t.span
      | none => pure t
    else Parse.fault .nameExpected t.span
  | d => Parse.fault .nameExpected d.span

/-- A name, a colon and a type; `stop` is where the declaration ends. -/
def typedName (name colon ty : Datum) (stop : Span) : Parse Param := do
  let token ← nameOf name
  if colon.isColon then
    let t ← Ty.ofDatum ty
    pure ⟨token, t, token.span.cover stop⟩
  else Parse.fault (.colonExpected token.text) colon.span

/-- The declaration `(name : type)`. -/
def paramOf : Datum → Parse Param
  | .list _ [name, colon, ty] right => typedName name colon ty right.span
  | .atom t => do
    let token ← nameOf (.atom t)
    Parse.fault (.untypedName token.text) token.span
  | d => Parse.fault .malformedDeclaration d.span

/-- The parameters of a procedure, which must differ from each other and from the names `seen`. -/
def paramsOf (seen : List String) : List Datum → Parse (List Param)
  | [] => pure []
  | d :: ds => do
    let p ← paramOf d
    if seen.contains p.name then Parse.fault (.duplicateParameter p.name) p.span
    else
      let ps ← paramsOf (p.name :: seen) ds
      pure (p :: ps)

/-- The declaration of a binding with type variables of its own. A bare name will do where types
may be left out. -/
def declOf (untyped : Bool) (d : Datum) : Parse Decl := do
  Parse.forgetNames
  match untyped, d with
  | true, .atom t => do
    let token ← nameOf (.atom t)
    pure ⟨token, none, token.span⟩
  | _, d => do
    let p ← paramOf d
    pure p.decl

/-- The declaration of a binding that is written without parentheses. -/
def inlineDeclOf (name colon ty : Datum) : Parse Decl := do
  Parse.forgetNames
  let p ← typedName name colon ty ty.span
  pure p.decl

/-- The expression of an atom. -/
def ofToken (t : Token) : Parse Expr :=
  match t.kind with
  | .number => do
    let n ← (t.numberValue : Except SyntaxError Binary64)
    pure (.number t n)
  | .boolean => pure (.boolean t (Token.booleanValue t.text))
  | .string => do
    let s ← (t.stringValue : Except SyntaxError Text.Pieces)
    pure (.string t s)
  | .symbol =>
    if isPrimitive t.text then pure (.primitive t)
    else match Keyword.ofName? t.text with
      | some _ => Parse.fault (.strayKeyword t.text) t.span
      | none => pure (.var t)
  | .colon => Parse.fault .strayColon t.span
  | kind => Parse.fault (.strayToken kind) t.span

/-- The literal of a quoted datum that ends at `stop`. -/
def quoteOf (mark : Token) (d : Datum) (stop : Span) : Parse Expr := do
  let v ← (Value.ofDatum d : Except SyntaxError Value)
  pure (.quoted mark v (mark.span.cover stop))

/-- The literal of a quote form that ends at `stop`. -/
def quoteFormOf (whole stop : Span) : List Datum → Parse Expr
  | [.atom mark, d] => quoteOf mark d stop
  | _ => Parse.fault .malformedQuote whole

/-- The keyword at the head of a list. -/
def headKeyword? : List Datum → Option Keyword
  | .atom t :: _ => if t.kind = .symbol then Keyword.ofName? t.text else none
  | _ => none

/-- The keyword of a binding form. -/
def keywordOf (recursive : Bool) : Keyword := if recursive then .letrec else .letin

mutual

/-- The expression of a datum. -/
def ofDatum : Datum → Parse Expr
  | .atom t => ofToken t
  | .quoted mark d => quoteOf mark d d.span
  | .dotted left ds dot tail right =>
    Parse.fault .dottedExpression (Datum.dotted left ds dot tail right).span
  | .list left ds right =>
    let whole := left.span.cover right.span
    match headKeyword? ds with
    | some .cond => condOf whole ds
    | some .lambda => lambdaOf whole ds
    | some .letin => letOf whole false ds
    | some .letrec => letOf whole true ds
    | some .define => defineOf whole ds
    | some .quote => quoteFormOf whole right.span ds
    | none => appOf whole ds

/-- The expressions of data in a row. -/
def ofData : List Datum → Parse (List Expr)
  | [] => pure []
  | d :: ds => do
    let e ← ofDatum d
    let es ← ofData ds
    pure (e :: es)

/-- A conditional from the elements of its list. -/
def condOf (whole : Span) : List Datum → Parse Expr
  | [_, test, consequent, alternative] => do
    let a ← ofDatum test
    let b ← ofDatum consequent
    let c ← ofDatum alternative
    pure (.cond whole a b c)
  | _ => Parse.fault .malformedIf whole

/-- A procedure from the elements of its list. -/
def lambdaOf (whole : Span) : List Datum → Parse Expr
  | _ :: params :: colon :: result :: body =>
    match params with
    | .list _ ds _ =>
      if colon.isColon then do
        Parse.forgetNames
        let ps ← paramsOf [] ds
        let r ← Ty.ofDatum result
        let es ← ofData body
        pure (.lambda whole ps r es)
      else Parse.fault .returnTypeExpected colon.span
    | d => Parse.fault .parametersExpected d.span
  | _ => Parse.fault .malformedLambda whole

/-- An application from the elements of its list. -/
def appOf (whole : Span) : List Datum → Parse Expr
  | [] => Parse.fault .emptyCombination whole
  | operator :: operands => do
    let f ← ofDatum operator
    let es ← ofData operands
    pure (.app whole f es)

/-- A binding form from the elements of its list. -/
def letOf (whole : Span) (recursive : Bool) : List Datum → Parse Expr
  | _ :: bindings :: body =>
    match bindings with
    | .list _ ds _ => do
      let bs ← bindingsOf recursive [] ds
      let es ← ofData body
      pure (if recursive then .letrec whole bs es else .letin whole bs es)
    | d => Parse.fault (.bindingsExpected (keywordOf recursive).name) d.span
  | _ => Parse.fault (.bindingsMissing (keywordOf recursive).name) whole

/-- The bindings of a form, whose names must differ from each other and from the names `seen`. -/
def bindingsOf (recursive : Bool) (seen : List String) : List Datum → Parse (List (Decl × Expr))
  | [] => pure []
  | d :: ds => do
    let (decl, value) ← bindingOf recursive d
    if seen.contains decl.name then Parse.fault (.duplicateBinding decl.name) decl.span
    else
      let rest ← bindingsOf recursive (decl.name :: seen) ds
      pure ((decl, value) :: rest)

/-- A declaration and its value. -/
def bindingOf (recursive : Bool) : Datum → Parse (Decl × Expr)
  | .list _ [name, value] _ => do
    let decl ← declOf recursive name
    let e ← ofDatum value
    pure (decl, e)
  | .list _ [name, colon, ty, value] _ => do
    let decl ← inlineDeclOf name colon ty
    let e ← ofDatum value
    pure (decl, e)
  | .list left ds right => Parse.fault .malformedBinding (Datum.list left ds right).span
  | d => Parse.fault .bindingExpected d.span

/-- A definition from the elements of its list. -/
def defineOf (whole : Span) : List Datum → Parse Expr
  | [_, name, value] => do
    let decl ← declOf false name
    let e ← ofDatum value
    pure (.define whole decl e)
  | [_, name, colon, ty, value] => do
    let decl ← inlineDeclOf name colon ty
    let e ← ofDatum value
    pure (.define whole decl e)
  | _ => Parse.fault .malformedDefine whole

end

/-- The expression of a text that must hold exactly one. -/
def parse (source : String) : Parse Expr := do
  match ← (Datum.readAll source : Except SyntaxError (List Datum)) with
  | [] => Parse.fault .expressionExpected .absent
  | [d] => ofDatum d
  | _ :: d :: _ => Parse.fault .extraForm d.span

end Expr

namespace Program

/-- The data of the top-level forms: a lone list with the head of a program holds them. -/
def unwrap : List Datum → List Datum
  | [.list left (head :: rest) right] =>
    if head.isSymbol programHead then rest else [.list left (head :: rest) right]
  | ds => ds

/-- The program of data in a row. -/
def ofData (ds : List Datum) : Parse Program := do
  let es ← Expr.ofData (unwrap ds)
  pure ⟨es⟩

/-- The program of a text. -/
def parse (source : String) : Parse Program := do
  let ds ← (Datum.readAll source : Except SyntaxError (List Datum))
  ofData ds

end Program

end TypedScheme
