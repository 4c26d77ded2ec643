import TypedScheme.Text.Lines
import TypedScheme.Typing.Session

/-!
# Diagnostics

An error as a reader sees it: a heading, its place, the lines of the source around it, and carets
under the text that is at fault. An error without a place is one line.
-/

set_option autoImplicit false

namespace TypedScheme

/-- An error to be shown: what to call it, where it is, what it says, and its text on one line. An
error without a heading has no place. -/
structure Diagnostic where
  heading? : Option String
  span : Span
  message : String
  text : String
  deriving DecidableEq, Repr

namespace Diagnostic

/-- The heading of syntax errors. -/
def malformedHeading : String := "syntax error"

/-- The diagnostic of a syntax error. -/
def ofSyntaxError (e : SyntaxError) : Diagnostic :=
  ⟨some malformedHeading, e.span, e.message, e.render⟩

/-- The diagnostic of a type error. -/
def ofTypeError (e : TypeError) : Diagnostic := ⟨some e.kind.title, e.span, e.message, e.render⟩

/-- The diagnostic of an error in a source text. -/
def ofSourceError : SourceError → Diagnostic
  | .malformed e => ofSyntaxError e
  | .illTyped e => ofTypeError e

/-- The diagnostic of an error that has nothing to do with a source text. -/
def plain (text : String) : Diagnostic := ⟨none, .absent, text, text⟩

/-- A diagnostic whose text tells what was being done. -/
def within (d : Diagnostic) (context : String) : Diagnostic :=
  { d with text := context ++ ": " ++ d.text }

/-- Text in red on a terminal. -/
def red (s : String) : String := "\x1b[31m" ++ s ++ "\x1b[0m"

/-- Text in green on a terminal. -/
def green (s : String) : String := "\x1b[32m" ++ s ++ "\x1b[0m"

/-- A number in a field of four characters at least. -/
def gutter (n : Nat) : String :=
  let digits := toString n
  String.ofList (List.replicate (4 - digits.length) ' ') ++ digits

/-- A numbered line of the source. -/
def sourceLine (n : Nat) (line : String) : String := gutter n ++ " | " ++ line ++ "\n"

/-- The line under a source line, with carets from a column on. -/
def caretLine (column width : Nat) : String :=
  "     | " ++ String.ofList (List.replicate (column - 1) ' ' ++ List.replicate width '^') ++ "\n"

/-- The line that a span is shown at, of a source with `count` lines. -/
def lineOf (s : Span) (count : Nat) : Nat :=
  if s.first.line < 1 then 1
  else if (count : Int) < s.first.line then count
  else s.first.line.toNat

/-- The column that a span is shown at. -/
def columnOf (s : Span) : Nat := if s.first.column < 1 then 1 else s.first.column.toNat

/-- The number of carets under a span: its width if it ends where it starts, on one line. -/
def widthOf (s : Span) : Nat :=
  if s.last.line = s.first.line && s.first.column < s.last.column then
    (s.last.column - s.first.column + 1).toNat
  else 1

/-- A diagnostic with a place: the heading, the line before, the line, the carets and the line
after. -/
def located (d : Diagnostic) (heading name source : String) (color : Bool) : String :=
  let lines := Text.lines source
  let line := lineOf d.span lines.length
  let column := columnOf d.span
  let title := if color then red heading else heading
  let owner := if name = "" then "" else " in " ++ name
  title ++ owner ++ s!" at {line}:{column}: {d.message}\n\n"
    ++ (if 1 < line then sourceLine (line - 1) (lines.getD (line - 2) "") else "")
    ++ sourceLine line (lines.getD (line - 1) "")
    ++ caretLine column (widthOf d.span)
    ++ (if line < lines.length then sourceLine (line + 1) (lines.getD line "") else "")

/-- A diagnostic as text, for a source with a name, which may be empty. -/
def render (d : Diagnostic) (name source : String) (color : Bool) : String :=
  match d.heading? with
  | some heading =>
    if d.span.isAbsent then if name = "" then d.text else name ++ ": " ++ d.text
    else d.located heading name source color
  | none => if name = "" then d.text else name ++ ": " ++ d.text

end Diagnostic

end TypedScheme
