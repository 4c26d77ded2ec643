import TypedScheme.Command.Check
import TypedScheme.Text.InputLine

/-!
# The dialogue

The dialogue reads lines until they make a complete text, and answers it: a text that starts with a
colon is a request about the dialogue itself, any other is submitted to a session. A text is parsed
once for every line of it, to see whether it is complete, and once more to check it.
-/

set_option autoImplicit false

namespace TypedScheme

/-- Texts that were submitted, the oldest first. A text that repeats the one before is not added,
and the oldest are dropped above a limit. -/
abbrev History := List String

namespace History

/-- The number of texts that are kept. -/
def limit : Nat := 1000

/-- The last texts, up to the limit. -/
def trimmed (h : History) : History := h.drop (h.length - limit)

/-- A history with one more text. -/
def add (h : History) (text : String) : History :=
  if h.getLast? = some text then h else trimmed (h ++ [text])

/-- The history that a file holds, up to the first line that is too long. -/
def ofFile (text : String) : History := trimmed (Text.InputLine.wholeLines text)

/-- The contents of the file of a history. -/
def toFile (h : History) : String := String.join (h.map fun text => text ++ "\n")

/-- The file of a history. -/
def path (home name : String) : String := if Path.isAbsolute name then name else Path.join home name

end History

/-- The state of the dialogue: the settings, the session, the history, and the lines of a text that
is not complete yet. The text of no line is empty. -/
structure Repl where
  settings : Settings
  session : Session
  history : History
  pending : String

namespace Repl

/-- What is printed first. -/
def banner : String :=
  s!"L5 {version}\nCtrl+C cancels input, Ctrl+D exits. Type :help for commands.\n"

/-- What is printed on request. -/
def help : String :=
  "REPL commands:\n  :env     Show the top-level bindings\n  :help    Show this message\n"
    ++ "  :quit    Exit the REPL\n"

/-- The dialogue before any line. -/
def start (s : Settings) (h : History) : Repl := ⟨s, .startFrom 0 s.trace, h, ""⟩

/-- What asks for the next line. -/
def prompt (r : Repl) : String := if r.pending = "" then "l5> " else "... "

/-- The dialogue after a text is dealt with. -/
def settled (r : Repl) : Repl := { r with pending := "" }

/-- Whether a text could be completed by more lines, and the last number given out by reading it. -/
def isOpen (text : String) (last : Nat) : Bool × Nat :=
  match (Program.parse text).runFrom last with
  | (.ok _, last) => (false, last)
  | (.error e, last) => (e.isIncomplete, last)

/-- The text of a type, in green if colors are on. -/
def showType (s : Settings) (t : Ty) : String :=
  if s.color then Diagnostic.green t.render else t.render

/-- Submits a complete text. -/
def submit (r : Repl) (text : String) : Repl × List Chunk :=
  let s := r.settings
  let spaced := String.ofList (text.toList.map fun c => if c = '\n' then ' ' else c)
  let parsed := ((Program.parse text).runFrom r.session.last).1.toOption
  let (reply, session) := r.session.submit text
  let before := (parsed.map fun p => s.listing p.expr).getD [] ++ Note.chunks reply.notes
  let result :=
    match reply.result with
    | .ok t => Chunk.outLine (showType s t)
    | .error e => Chunk.errLine ((Diagnostic.ofSourceError e).render "" text s.color)
  ({ r with session, history := r.history.add spaced, pending := "" }, before ++ [result])

/-- The answer to a complete text; there is no dialogue after the request to quit. -/
def answer (r : Repl) (text : String) : Option Repl × List Chunk :=
  let request := Text.trim text
  if request = "" then (some r.settled, [])
  else if request.toList.head? = some ':' then
    match request with
    | ":quit" => (none, [])
    | ":env" => (some r.settled, [.out r.session.scope.render])
    | ":help" => (some r.settled, [.out help])
    | _ => (some r.settled, [.outLine "unknown command. Type :help for commands."])
  else
    let (r, chunks) := r.submit text
    (some r, chunks)

/-- The dialogue after one more line. -/
def step (r : Repl) (line : String) : Option Repl × List Chunk :=
  let text := if r.pending = "" then line else r.pending ++ "\n" ++ line
  let (isOpen, last) := isOpen text r.session.last
  let r := { r with session := r.session.after last }
  if isOpen then (some { r with pending := text }, []) else r.answer text

/-- What is printed at the end of the input. -/
def farewell : Chunk := .out "\n"

/-- The dialogue over lines up to its end: the history by then, and what is printed. -/
def run (r : Repl) : List String → History × List Chunk
  | [] => (r.history, [.out r.prompt, farewell])
  | line :: rest =>
    match r.step line with
    | (none, chunks) => (r.history, .out r.prompt :: chunks)
    | (some next, chunks) =>
      let (history, others) := run next rest
      (history, .out r.prompt :: (chunks ++ others))

end Repl

end TypedScheme
