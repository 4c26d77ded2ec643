/-!
# Documents of settings

A settings file is a YAML document: scalars, lists and mappings, in blocks that are held together by
their indentation or in brackets. A node keeps the line it starts at, since messages name it.
-/

set_option autoImplicit false

namespace TypedScheme.Document

/-- A place in a document: its line and its column, both counted from zero. -/
structure Place where
  line : Nat
  column : Nat
  deriving DecidableEq, Repr

/-- The place after a character on the same line. -/
def Place.next (p : Place) : Place := ⟨p.line, p.column + 1⟩

/-- The start of the next line. -/
def Place.nextLine (p : Place) : Place := ⟨p.line + 1, 0⟩

/-- A node of a document, and the number of the line it starts at. -/
inductive Node where
  | scalar (line : Nat) (text : String) (quoted : Bool)
  | list (line : Nat) (items : List Node)
  | mapping (line : Nat) (entries : List (Node × Node))

/-- The line of a node. -/
def Node.line : Node → Nat
  | scalar line _ _ => line
  | list line _ => line
  | mapping line _ => line

/-- What is wrong with a document. -/
inductive Problem where
  | controlCharacter
  | strayCharacter
  | tabIndentation
  | unclosedQuote
  | markerInQuote
  | unknownEscape
  | badHexadecimal
  | badCodePoint
  | colonExpected
  | strayItem
  | strayKey
  | strayValue
  | nodeExpected
  | itemExpected
  | keyExpected
  | listEndExpected
  | mappingEndExpected
  deriving DecidableEq, Repr

/-- The words for a problem. -/
def Problem.message : Problem → String
  | controlCharacter => "control characters are not allowed"
  | strayCharacter => "found character that cannot start any token"
  | tabIndentation => "found a tab character that violates indentation"
  | unclosedQuote => "found unexpected end of stream"
  | markerInQuote => "found unexpected document indicator"
  | unknownEscape => "found unknown escape character"
  | badHexadecimal => "did not find expected hexdecimal number"
  | badCodePoint => "found invalid Unicode character escape code"
  | colonExpected => "could not find expected ':'"
  | strayItem => "block sequence entries are not allowed in this context"
  | strayKey => "mapping keys are not allowed in this context"
  | strayValue => "mapping values are not allowed in this context"
  | nodeExpected => "did not find expected node content"
  | itemExpected => "did not find expected '-' indicator"
  | keyExpected => "did not find expected key"
  | listEndExpected => "did not find expected ',' or ']'"
  | mappingEndExpected => "did not find expected ',' or '\x7d'"

/-- A problem, and the number of the line that the message names; zero if it names none. -/
structure Unreadable where
  problem : Problem
  line : Nat
  deriving DecidableEq, Repr

/-- A problem of spelling. The line named is the one where the part at fault began, or else, if that
is the first line of all, the one where the fault was found, unless it is the first too. -/
def Unreadable.spelling (problem : Problem) (start found : Place) : Unreadable :=
  ⟨problem, if start.line ≠ 0 then start.line + 1 else if found.line ≠ 0 then found.line + 1 else 0⟩

/-- A problem of structure. The line named is chosen as for a problem of spelling, but it is the one
before. -/
def Unreadable.structural (problem : Problem) (start found : Place) : Unreadable :=
  ⟨problem, if start.line ≠ 0 then start.line else found.line⟩

/-- The message for an unreadable document. -/
def Unreadable.message (u : Unreadable) : String :=
  (if u.line = 0 then "yaml: " else s!"yaml: line {u.line}: ") ++ u.problem.message

end TypedScheme.Document
