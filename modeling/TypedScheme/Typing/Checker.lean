import TypedScheme.Expr.Parser
import TypedScheme.Scope
import TypedScheme.Typing.Primitive
import TypedScheme.Typing.Quotation

/-!
# Types of expressions

The type of an expression in a scope. Checking gives out numbers for type variables and, if it is
traced, notes every expression it comes to with its depth; both stay when it fails, so the notes of a
failed run end at the expression that was at fault or had the fault inside.
-/

set_option autoImplicit false

namespace TypedScheme

/-- An expression that checking came to, and how deep it lies. -/
structure Note where
  depth : Nat
  expr : Expr

/-- A note as a line of text, indented by its depth. -/
def Note.render (n : Note) : String :=
  String.ofList (List.replicate (2 * n.depth) ' ') ++ n.expr.render ++ "\n"

/-- The last number given out, whether expressions are noted, and the notes so far. -/
structure CheckState where
  last : Nat
  tracing : Bool
  notes : List Note

/-- Checking that may fail; numbers and notes stay when it fails. -/
abbrev Check := ExceptT TypeError (StateM CheckState)

namespace Check

/-- A failure at a place. -/
def fault {α : Type} (f : TypeFault) (span : Span) : Check α := throw ⟨f, span⟩

/-- Notes an expression if the check is traced. -/
def note (depth : Nat) (e : Expr) : Check Unit :=
  modify fun s => if s.tracing then { s with notes := s.notes ++ [⟨depth, e⟩] } else s

/-- What is made with new variables, numbered after the last one. -/
def numbered {α : Type} (make : Nat → α × Nat) : Check α := do
  let s ← get
  set ({ s with last := (make s.last).2 } : CheckState)
  pure (make s.last).1

/-- Requires that two types agree; a mismatch is the fault of `inside`. -/
def require (expected found : Ty) (inside : Expr) : Check Unit :=
  if expected.agrees found then pure ()
  else fault (.mismatch expected found inside) inside.span

/-- The type of a name in a scope. -/
def lookup (scope : Scope) (name : String) (span : Span) : Check Ty :=
  match scope.lookup name with
  | some t => pure t
  | none => fault (.unbound name) span

end Check

/-- The bindings of the parameters of a procedure. -/
def Param.bindings (params : List Param) : List (String × Ty) := params.map fun p => (p.name, p.ty)

namespace Expr

/-- The name and type of a recursive binding, whose value must be a procedure that agrees with the
declared type. -/
def recursiveBinding : Decl × Expr → Check (String × Ty)
  | (decl, .lambda span params result body) => do
    let t := procType params result
    match decl.ty? with
    | some declared => Check.require declared t (.lambda span params result body)
    | none => pure ()
    pure (decl.name, t)
  | (_, value) => Check.fault (.letrecValue value) value.span

/-- The names and types of recursive bindings. -/
def recursiveBindings : List (Decl × Expr) → Check (List (String × Ty))
  | [] => pure []
  | b :: bs => do
    let first ← recursiveBinding b
    let rest ← recursiveBindings bs
    pure (first :: rest)

mutual

/-- The type of an expression in a scope. A definition has none, since it may only stand among the
forms of a program. -/
def typeOf (scope : Scope) (depth : Nat) (e : Expr) : Check Ty := do
  Check.note depth e
  match e with
  | missing => Check.fault .missingForm .absent
  | number _ _ => pure (.base .number)
  | boolean _ _ => pure (.base .boolean)
  | string _ _ => pure (.base .string)
  | quoted _ v span =>
    match v.typeOf true with
    | .ok t => pure t
    | .error f => Check.fault f span
  | primitive t =>
    match Primitive.signature? t.text with
    | some signature => Check.numbered fun last => Primitive.instantiate last signature
    | none => Check.fault (.unknownPrimitive t.text) t.span
  | var t => Check.lookup scope t.text t.span
  | cond _ test consequent alternative => do
    let testType ← typeOf scope (depth + 1) test
    Check.require (.base .boolean) testType test
    let consequentType ← typeOf scope (depth + 1) consequent
    let alternativeType ← typeOf scope (depth + 1) alternative
    Check.require consequentType alternativeType alternative
    pure consequentType
  | lambda _ params result body => do
    let bodyType ← typeOfBody (scope.extend (Param.bindings params)) (depth + 1) e body
    Check.require result bodyType e
    pure (procType params result)
  | app span operator operands => do
    match ← typeOf scope (depth + 1) operator with
    | .proc params result =>
      if params.length = operands.length then do
        let fresh ← Check.numbered fun last => (Ty.proc params result).freshVars last
        let s ← matchOperands scope (depth + 1) [] (Ty.bindAll fresh params) operands
        pure (s.apply (result.bind fresh))
      else
        Check.fault (.arity (.proc params result) params.length operands.length e) span
    | t => Check.fault (.notProcedure operator t e) operator.span
  | letin _ bindings body => do
    let bs ← typeOfBindings scope (depth + 1) bindings
    typeOfBody (scope.extend bs) (depth + 1) e body
  | letrec _ bindings body => do
    let bs ← recursiveBindings bindings
    checkProcedures (scope.extend bs) (depth + 1) bindings
    typeOfBody (scope.extend bs) (depth + 1) e body
  | define span _ _ => Check.fault (.nestedDefine e) span
  | program forms => do
    let (t, _) ← typeOfForms scope (depth + 1) forms
    pure t

/-- The type of the last form of a body, all of whose forms must have one. -/
def typeOfBody (scope : Scope) (depth : Nat) (owner : Expr) : List Expr → Check Ty
  | [] => Check.fault (.emptyBody owner) owner.span
  | [e] => typeOf scope depth e
  | e :: es => do
    let _ ← typeOf scope depth e
    typeOfBody scope depth owner es

/-- The bindings that make the parameter types of an operator equal to the types of its operands,
after the bindings `s`. -/
def matchOperands (scope : Scope) (depth : Nat) (s : Substitution) :
    List Ty → List Expr → Check Substitution
  | param :: params, e :: es => do
    let t ← typeOf scope depth e
    let (ok, s') := s.unify param t
    if ok then matchOperands scope depth s' params es
    else Check.fault (.mismatch (s'.apply param) (s'.apply t) e) e.span
  | _, _ => pure s

/-- The names and types of bindings, whose values are typed outside of them. -/
def typeOfBindings (scope : Scope) (depth : Nat) :
    List (Decl × Expr) → Check (List (String × Ty))
  | [] => pure []
  | (decl, value) :: rest => do
    let valueType ← typeOf scope depth value
    Check.require decl.boundType valueType value
    let bs ← typeOfBindings scope depth rest
    pure ((decl.name, decl.boundType) :: bs)

/-- Checks the bodies of procedures that are bound recursively. -/
def checkProcedures (scope : Scope) (depth : Nat) : List (Decl × Expr) → Check Unit
  | [] => pure ()
  | (_, .lambda span params result body) :: rest => do
    let owner := lambda span params result body
    let bodyType ← typeOfBody (scope.extend (Param.bindings params)) depth owner body
    Check.require result bodyType owner
    checkProcedures scope depth rest
  | _ :: rest => checkProcedures scope depth rest

/-- The type of the last form of a program, and the scope after its definitions. -/
def typeOfForms (scope : Scope) (depth : Nat) : List Expr → Check (Ty × Scope)
  | [] => Check.fault .emptyProgram .absent
  | .define span decl value :: rest => do
    Check.note depth (.define span decl value)
    let valueType ← typeOf scope (depth + 1) value
    Check.require decl.boundType valueType value
    let scope := scope.extend [(decl.name, decl.boundType)]
    match rest with
    | [] => pure (.base .void, scope)
    | _ => typeOfForms scope depth rest
  | e :: rest => do
    let t ← typeOf scope depth e
    match rest with
    | [] => pure (t, scope)
    | _ => typeOfForms scope depth rest

end

/-- The type of an expression or a definition in a scope. -/
def check (scope : Scope) (e : Expr) : Check Ty := do
  let (t, _) ← typeOfForms scope 0 [e]
  pure t

end Expr

/-- The type of the last form of a program, and the scope after its definitions. -/
def Program.check (scope : Scope) (p : Program) : Check (Ty × Scope) :=
  Expr.typeOfForms scope 0 p.forms

/-- The outcome of a check: its result, the last number given out, and the notes. -/
structure Check.Outcome (α : Type) where
  result : Except TypeError α
  last : Nat
  notes : List Note

/-- The outcome of a check after the numbers up to `last`, traced or not. -/
def Check.runFrom {α : Type} (c : Check α) (last : Nat) (tracing : Bool) : Check.Outcome α :=
  let (result, s) := c.run ⟨last, tracing, []⟩
  ⟨result, s.last, s.notes⟩

/-- The notes of a check as text. -/
def Note.renderAll (notes : List Note) : String := String.join (notes.map Note.render)

end TypedScheme
