import TypedScheme.Command.Console
import TypedScheme.Diagnostic
import TypedScheme.Expr.Listing
import TypedScheme.Files.Library
import TypedScheme.Settings.Basic

/-!
# Checking files

Every path is loaded from the directory it lies in. Each file that parses gives one report, its type
or a diagnostic, and a path that could not be loaded to its end gives one more. A failure never keeps
later files or paths from being reported.
-/

set_option autoImplicit false

namespace TypedScheme

/-- The syntax tree of an expression on the output, if the settings ask for it. -/
def Settings.listing (s : Settings) (e : Expr) : List Chunk :=
  if s.dump then [.outLine e.listing.render] else []

/-- The notes of a check on the log. -/
def Note.chunks (notes : List Note) : List Chunk :=
  if notes.isEmpty then [] else [.err (Note.renderAll notes)]

/-- The directory that a path lies in, and its name there. -/
def Path.locate (path : String) : String × String :=
  let (dir, name) := Path.split (Path.clean path)
  (Path.directory dir, name)

namespace FileCheck

/-- What was printed, whether anything failed, and the last number given out. -/
structure Progress where
  chunks : List Chunk
  failed : Bool
  last : Nat
  deriving DecidableEq, Repr

/-- Checks a program of a file that is shown under a name. -/
def checkProgram (s : Settings) (shown source : String) (p : Program) (last : Nat) : Progress :=
  let outcome := (p.check .empty).runFrom last s.trace
  let before := s.listing p.expr ++ Note.chunks outcome.notes
  match outcome.result with
  | .ok (t, _) => ⟨before ++ [.outLine (shown ++ ": " ++ t.render)], false, outcome.last⟩
  | .error e =>
    ⟨before ++ [.errLine ((Diagnostic.ofTypeError e).render shown source s.color)], true,
      outcome.last⟩

/-- Checks a file. A file that does not parse is reported with the error of its path. -/
def checkFile (s : Settings) (dir : String) (f : SourceFile) (last : Nat) : Progress :=
  match f.program? with
  | none => ⟨[], false, last⟩
  | some p => checkProgram s (Path.join dir f.name) f.source p last

/-- Checks files in order. -/
def checkFiles (s : Settings) (dir : String) : List SourceFile → Nat → Progress
  | [], last => ⟨[], false, last⟩
  | f :: rest, last =>
    let first := checkFile s dir f last
    let others := checkFiles s dir rest first.last
    ⟨first.chunks ++ others.chunks, first.failed || others.failed, others.last⟩

/-- The diagnostic of a load error. -/
def diagnosticOf : LoadError → Diagnostic
  | .malformed e => Diagnostic.ofSyntaxError e
  | e => .plain e.render

/-- The report of a load error: a diagnostic of the last file if that one does not parse, and a
line on the log otherwise. -/
def reportError (s : Settings) (dir : String) (files : List SourceFile) (e : LoadError) : Chunk :=
  match files.getLast? with
  | some f =>
    match f.program? with
    | none => .errLine ((diagnosticOf e).render (Path.join dir f.name) f.source s.color)
    | some _ => .log e.render
  | none => .log e.render

/-- Checks what a path denotes, on a disk that shows a volume for every directory. -/
def checkPath (s : Settings) (disk : String → Volume) (path : String) (last : Nat) : Progress :=
  let (dir, name) := Path.locate path
  let (loaded, library) := (Library.startFrom last).load (disk dir) name
  let files := checkFiles s dir loaded.files library.last
  match loaded.error? with
  | none => files
  | some e => ⟨files.chunks ++ [reportError s dir loaded.files e], true, files.last⟩

/-- Checks paths in order. -/
def checkPaths (s : Settings) (disk : String → Volume) : List String → Nat → Progress
  | [], last => ⟨[], false, last⟩
  | p :: rest, last =>
    let first := checkPath s disk p last
    let others := checkPaths s disk rest first.last
    ⟨first.chunks ++ others.chunks, first.failed || others.failed, others.last⟩

/-- The paths to check: the arguments, or else those of the settings, or else the current
directory. -/
def pathsOf (s : Settings) (args : List String) : List String :=
  if args.isEmpty then if s.paths.isEmpty then ["."] else s.paths else args

end FileCheck

end TypedScheme
