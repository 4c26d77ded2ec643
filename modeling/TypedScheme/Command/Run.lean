import TypedScheme.Command.Flags
import TypedScheme.Command.Query
import TypedScheme.Command.Repl

/-!
# The command line

The arguments name a command, which is carried out in surroundings that it can only ask: a disk, the
history and the input. The outcome is what it prints, its status and the file that it saves.
-/

set_option autoImplicit false

namespace TypedScheme

/-- A command that the arguments ask for. -/
inductive Command where
  | overview (status : Nat)
  | showVersion
  | unknown (name : String)
  | misused (name : String) (known : List Flag) (error : FlagError)
  | check (flags : Flags) (paths : List String)
  | type (flags : Flags) (words : List String)
  | repl (flags : Flags)
  deriving DecidableEq, Repr

/-- What a command can ask: the volume of every directory, the directory of the user's own files,
the contents of a file there, and the input. -/
structure Surroundings where
  disk : String → Volume
  home : String
  remembered : String → Option String
  input : String

/-- What a command does: what it prints, its status, and the file it saves. -/
structure Outcome where
  chunks : List Chunk
  status : Nat
  save? : Option (String × String)
  deriving DecidableEq, Repr

/-- An outcome that saves nothing. -/
def Outcome.printed (chunks : List Chunk) (status : Nat) : Outcome := ⟨chunks, status, none⟩

/-- The flags that were set take precedence over the settings. -/
def Settings.override (s : Settings) (fs : Flags) : Settings :=
  { s with
    trace := fs.trace?.getD s.trace
    dump := fs.dump?.getD s.dump
    color := fs.color?.getD s.color }

/-- The settings file that the flags name: its directory, its name there, and whether it may be
missing. -/
def Flags.settingsFile (fs : Flags) : String × String × Bool :=
  if fs.config = "" then (".", Settings.defaultFile, true)
  else
    let (dir, name) := Path.split fs.config
    (Path.directory dir, name, false)

/-- The settings under flags. -/
def Flags.settings (fs : Flags) (disk : String → Volume) : Except SettingsError Settings :=
  let (dir, name, optional) := fs.settingsFile
  (Settings.load (disk dir) name optional).map fun s => s.override fs

namespace Command

/-- The explanation of the commands. -/
def explanation : String :=
  s!"L5 type checker {version}\n\nUsage:\n"
    ++ "  l5 check [-config file] [-trace] [-dump] [-color] [path ...]   "
    ++ "Type check files or directories (default \".\")\n"
    ++ "  l5 type [-config file] [-trace] [-program] [source]           "
    ++ "Print the type of an expression (stdin if omitted)\n"
    ++ "  l5 repl [-config file]                                        Start the REPL\n"
    ++ "  l5 version                                                    Print the version\n\n"

/-- The flags of the command that types a text, in the order of their names. -/
def typeFlags : List Flag := [.color, .config, .dump, .program, .trace]

/-- A command with flags. -/
def withFlags (name : String) (known : List Flag) (args : List String)
    (make : Flags → List String → Command) : Command :=
  match Flags.parse known args with
  | .ok (fs, rest) => make fs rest
  | .error e => .misused name known e

/-- The command that arguments ask for. -/
def ofArgs : List String → Command
  | [] => .overview 2
  | name :: args =>
    match name with
    | "check" => withFlags name Flag.common args .check
    | "type" => withFlags name typeFlags args .type
    | "repl" => withFlags name Flag.common args fun fs _ => .repl fs
    | "version" => .showVersion
    | "-h" => .overview 0
    | "--help" => .overview 0
    | "help" => .overview 0
    | _ => .unknown name

/-- An outcome under the settings of flags. -/
def underSettings (w : Surroundings) (fs : Flags) (act : Settings → Outcome) : Outcome :=
  match fs.settings w.disk with
  | .ok s => act s
  | .error e => .printed [.log e.message] 1

/-- Checks files. -/
def runCheck (w : Surroundings) (args : List String) (s : Settings) : Outcome :=
  let progress := FileCheck.checkPaths s w.disk (FileCheck.pathsOf s args) 0
  .printed progress.chunks (if progress.failed then 1 else 0)

/-- Types a text: the words, or else the input as a program. -/
def runType (w : Surroundings) (words : List String) (asProgram : Bool) (s : Settings) : Outcome :=
  let source := String.intercalate " " words
  let (chunks, ok) :=
    if source = "" then Query.ofProgram s w.input
    else if asProgram then Query.ofProgram s source
    else Query.ofExpression s source
  .printed chunks (if ok then 0 else 1)

/-- Holds the dialogue and saves its history. -/
def runRepl (w : Surroundings) (s : Settings) : Outcome :=
  let path := History.path w.home s.history
  let start := Repl.start s (((w.remembered path).map History.ofFile).getD [])
  let (history, chunks) := start.run (Text.InputLine.piecesOf w.input)
  ⟨.out Repl.banner :: chunks, 0, some (path, history.toFile)⟩

/-- Carries out a command. -/
def run (w : Surroundings) : Command → Outcome
  | .overview status => .printed [.out explanation] status
  | .showVersion => .printed [.outLine version] 0
  | .unknown name =>
    .printed [.log s!"unknown command {Text.Quoted.text name}", .out explanation] 2
  | .misused name known e => .printed (Flags.complaint name known e) 2
  | .check fs paths => underSettings w fs (runCheck w paths)
  | .type fs words => underSettings w fs (runType w words (fs.program?.getD false))
  | .repl fs => underSettings w fs (runRepl w)

end Command

end TypedScheme
