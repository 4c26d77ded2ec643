import TypedScheme.Command.Check

/-!
# The type of a text

The type of one expression, or of a whole program, that is given on the command line or on the input.
-/

set_option autoImplicit false

namespace TypedScheme.Query

/-- What is printed for the reply to a text, and whether the text has a type. -/
def answer (s : Settings) (source : String) (e? : Option Expr) (r : Reply) : List Chunk × Bool :=
  let before := (e?.map s.listing).getD [] ++ Note.chunks r.notes
  match r.result with
  | .ok t => (before ++ [.outLine t.render], true)
  | .error e => (before ++ [.errLine ((Diagnostic.ofSourceError e).render "" source s.color)], false)

/-- What is printed for a text as a program. -/
def ofProgram (s : Settings) (source : String) : List Chunk × Bool :=
  let session := Session.startFrom 0 s.trace
  let parsed := ((Program.parse source).runFrom 0).1.toOption
  answer s source (parsed.map Program.expr) (session.submit source).1

/-- What is printed for a text as one expression. -/
def ofExpression (s : Settings) (source : String) : List Chunk × Bool :=
  let session := Session.startFrom 0 s.trace
  let parsed := ((Expr.parse source).runFrom 0).1.toOption
  answer s source parsed (session.evaluate source).1

end TypedScheme.Query
