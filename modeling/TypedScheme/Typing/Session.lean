import TypedScheme.Typing.Checker

/-!
# Sessions

A session keeps the top-level scope between submissions, so that a definition is visible to all that
is submitted after it. A submission with an error anywhere leaves the scope as it was, but the
numbers of type variables go on.
-/

set_option autoImplicit false

namespace TypedScheme

/-- Why a text has no type. -/
inductive SourceError where
  | malformed (error : SyntaxError)
  | illTyped (error : TypeError)

/-- The message of an error behind its place. -/
def SourceError.render : SourceError → String
  | malformed e => e.render
  | illTyped e => e.render

/-- Whether more text could mend an error. -/
def SourceError.isIncomplete : SourceError → Bool
  | malformed e => e.isIncomplete
  | illTyped _ => false

/-- The answer to a submission, and the notes of its check. -/
structure Reply where
  result : Except SourceError Ty
  notes : List Note

/-- The scope of the definitions so far, the last number given out, and whether checks are traced. -/
structure Session where
  scope : Scope
  last : Nat
  tracing : Bool

namespace Session

/-- The session before any submission, after the numbers up to `last`. -/
def startFrom (last : Nat) (tracing : Bool) : Session := ⟨.empty, last, tracing⟩

/-- The session before any submission. -/
def start : Session := startFrom 0 false

/-- The session after the numbers up to `last`. -/
def after (s : Session) (last : Nat) : Session := { s with last }

/-- The answer to a text that does not parse. -/
def refuse (s : Session) (e : SyntaxError) (last : Nat) : Reply × Session :=
  (⟨.error (.malformed e), []⟩, s.after last)

/-- Checks a program. The scope changes only if all of it is well typed. -/
def check (s : Session) (p : Program) : Reply × Session :=
  let outcome := (p.check s.scope).runFrom s.last s.tracing
  match outcome.result with
  | .ok (t, scope) => (⟨.ok t, outcome.notes⟩, { s with scope, last := outcome.last })
  | .error e => (⟨.error (.illTyped e), outcome.notes⟩, s.after outcome.last)

/-- Parses and checks a program. -/
def submit (s : Session) (source : String) : Reply × Session :=
  match (Program.parse source).runFrom s.last with
  | (.ok p, last) => (s.after last).check p
  | (.error e, last) => s.refuse e last

/-- The answer of a check that leaves the scope as it is. -/
def ask (s : Session) (c : Check Ty) : Reply × Session :=
  let outcome := c.runFrom s.last s.tracing
  match outcome.result with
  | .ok t => (⟨.ok t, outcome.notes⟩, s.after outcome.last)
  | .error e => (⟨.error (.illTyped e), outcome.notes⟩, s.after outcome.last)

/-- The type of an expression; a definition has none. -/
def typeOf (s : Session) (source : String) : Reply × Session :=
  match (Expr.parse source).runFrom s.last with
  | (.ok e, last) => (s.after last).ask (e.typeOf s.scope 0)
  | (.error e, last) => s.refuse e last

/-- The type of an expression or of a definition, which is not kept. -/
def evaluate (s : Session) (source : String) : Reply × Session :=
  match (Expr.parse source).runFrom s.last with
  | (.ok e, last) => (s.after last).ask (e.check s.scope)
  | (.error e, last) => s.refuse e last

/-- The type of a name. -/
def lookup (s : Session) (name : String) : Except TypeError Ty :=
  match s.scope.lookup name with
  | some t => .ok t
  | none => .error ⟨.unbound name, .absent⟩

end Session

end TypedScheme
