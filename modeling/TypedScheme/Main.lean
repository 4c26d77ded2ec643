import TypedScheme.Command.Run

/-!
# The program

The outer layer of the command line. It copies what a command may ask of the disk into a file tree,
carries the command out on that, and prints what comes of it. Only the dialogue is carried out line by
line.
-/

set_option autoImplicit false

namespace TypedScheme.Terminal

/-- Prints a piece of text on its stream. -/
def put (c : Chunk) : IO Unit := do
  let stream ← match c with
    | .out _ => IO.getStdout
    | .err _ => IO.getStderr
  stream.putStr (c.outText ++ c.errText)
  stream.flush

/-- Whether a path is a directory, if there is anything. -/
def probe (path : String) : IO (Option Bool) := do
  try
    let place ← IO.FS.realPath path
    if ← place.isDir then pure (some true)
    else if ← place.pathExists then pure (some false)
    else pure none
  catch _ => pure none

/-- A tree with a copy of a file. -/
def copyFile (t : FileTree) (path : String) : IO FileTree := do
  try
    let bytes ← IO.FS.readBinFile path
    pure { t with files := (path, Text.Utf8.decode bytes.toList) :: t.files }
  catch _ => pure { t with files := (path, "") :: t.files, denied := path :: t.denied }

/-- A tree with a copy of what a directory holds itself. -/
def copyDirectory (t : FileTree) (path : String) : IO FileTree := do
  let mut t := { t with directories := path :: t.directories }
  try
    for entry in ← (← IO.FS.realPath path).readDir do
      let inside := Path.join path entry.fileName
      match ← probe inside with
      | some true => t := { t with directories := inside :: t.directories }
      | some false => if Path.extension inside = sourceExtension then t ← copyFile t inside
      | none => pure ()
    pure t
  catch _ => pure { t with denied := path :: t.denied }

/-- A tree with a copy of what is at a path, and of what lies on the way there. -/
def copyPlace (t : FileTree) (dir name : String) : IO FileTree := do
  let path := Path.clean (dir ++ "/" ++ name)
  let mut t := t
  for place in FileTree.stages dir do
    match ← probe place with
    | some true => t := { t with directories := place :: t.directories }
    | some false => t ← copyFile t place
    | none => pure ()
  match ← probe path with
  | some true => copyDirectory t path
  | some false => copyFile t path
  | none => pure t

/-- A tree with the settings file that flags name. -/
def copySettings (fs : Flags) : IO FileTree := do
  let (dir, name, _) := fs.settingsFile
  copyPlace (.ofFiles []) dir name

/-- A tree with all that a command may ask. -/
def copyFor : Command → IO FileTree
  | .check fs args => do
    let mut t ← copySettings fs
    match fs.settings t.diskAt with
    | .ok s =>
      for path in FileCheck.pathsOf s args do
        let (dir, name) := Path.locate path
        t ← copyPlace t dir name
      pure t
    | .error _ => pure t
  | .type fs _ => copySettings fs
  | .repl fs => copySettings fs
  | _ => pure (.ofFiles [])

/-- The bytes of a stream up to its end, after those that were read before. -/
partial def readBytes (stream : IO.FS.Stream) (before : ByteArray) : IO ByteArray := do
  let bytes ← stream.read 65536
  if bytes.isEmpty then pure before else readBytes stream (before ++ bytes)

/-- The whole input. -/
def readInput : IO String := do
  pure (Text.Utf8.decode (← readBytes (← IO.getStdin) .empty).toList)

/-- One step of the dialogue for every piece of a line. -/
def converseOver (r : Repl) : List String → IO (Option Repl × History)
  | [] => pure (some r, r.history)
  | piece :: rest => do
    let (next?, chunks) := r.step piece
    chunks.forM put
    match next? with
    | none => pure (none, r.history)
    | some next =>
      if !rest.isEmpty then put (.out next.prompt)
      converseOver next rest

/-- The dialogue up to its end, and the history by then. -/
partial def converse (r : Repl) : IO History := do
  put (.out r.prompt)
  let line ← (← IO.getStdin).getLine
  if line.isEmpty then
    put Repl.farewell
    pure r.history
  else
    match ← converseOver r (Text.InputLine.piecesOf line) with
    | (none, history) => pure history
    | (some next, _) => converse next

/-- Holds the dialogue at the terminal. -/
def hold (s : Settings) : IO Unit := do
  put (.out Repl.banner)
  let path := History.path ((← IO.getEnv "HOME").getD "") s.history
  let saved ← try pure (History.ofFile (← IO.FS.readFile path)) catch _ => pure []
  let history ← converse (Repl.start s saved)
  try IO.FS.writeFile path history.toFile catch _ => pure ()

/-- Carries out a command. -/
def perform (c : Command) : IO Nat := do
  let t ← copyFor c
  let ask (input : String) : Surroundings := ⟨t.diskAt, "", fun _ => none, input⟩
  let finish (o : Outcome) : IO Nat := do
    o.chunks.forM put
    pure o.status
  match c with
  | .repl fs =>
    match fs.settings t.diskAt with
    | .ok s => do
      hold s
      pure 0
    | .error _ => finish (c.run (ask ""))
  | .type _ words =>
    if String.intercalate " " words = "" then finish (c.run (ask (← readInput)))
    else finish (c.run (ask ""))
  | _ => finish (c.run (ask ""))

end TypedScheme.Terminal

/-- The command line. -/
def main (args : List String) : IO UInt32 := do
  pure (UInt32.ofNat (← TypedScheme.Terminal.perform (.ofArgs args)))
