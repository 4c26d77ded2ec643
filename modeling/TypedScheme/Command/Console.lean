/-!
# What a command prints

A command writes to two streams, the output and the log, and ends with a status. What it writes is
kept in the order in which it is written, so that both streams can be told apart and put together.
-/

set_option autoImplicit false

namespace TypedScheme

/-- A piece of text on one of the two streams. -/
inductive Chunk where
  | out (text : String)
  | err (text : String)
  deriving DecidableEq, Repr

namespace Chunk

/-- A line on the output. -/
def outLine (text : String) : Chunk := out (text ++ "\n")

/-- A line on the log. -/
def errLine (text : String) : Chunk := err (text ++ "\n")

/-- The name of the program. -/
def programName : String := "l5"

/-- A line on the log behind the name of the program. A text that ends its line itself is not given
another end. -/
def log (text : String) : Chunk :=
  let line := programName ++ ": " ++ text
  if line.toList.getLast? = some '\n' then err line else errLine line

/-- What of a piece of text is on the output. -/
def outText : Chunk → String
  | out text => text
  | err _ => ""

/-- What of a piece of text is on the log. -/
def errText : Chunk → String
  | out _ => ""
  | err text => text

/-- The whole output. -/
def output (chunks : List Chunk) : String := String.join (chunks.map outText)

/-- The whole log. -/
def logged (chunks : List Chunk) : String := String.join (chunks.map errText)

end Chunk

/-- The version of the program. -/
def version : String := "0.1.0"

end TypedScheme
