import TypedScheme.Expr.Parser
import TypedScheme.Files.Volume

/-!
# Source files

A library loads source files from a volume and keeps the ones that parse, so that a name that has
been loaded once gives the same file ever after. A directory stands for the source files in it, in
the order of their names, up to the first that fails.
-/

set_option autoImplicit false

namespace TypedScheme

/-- The extension of source files. -/
def sourceExtension : String := ".l5"

/-- A source file that could be read. Its stamp is the number of files read before it, so two
readings of one name differ. It has a program if its source parses. -/
structure SourceFile where
  stamp : Nat
  name : String
  source : String
  program? : Option Program

/-- Why a file or directory could not be loaded. -/
inductive LoadError where
  | refused (error : FileError)
  | wrongExtension (found : String)
  | noSources (directory : String)
  | malformed (error : SyntaxError)

/-- The message for a load error. -/
def LoadError.render : LoadError → String
  | refused e => e.render
  | wrongExtension found =>
    s!"invalid file extension {Text.Quoted.text found}, "
      ++ s!"expected {Text.Quoted.text sourceExtension}"
  | noSources directory => s!"no {sourceExtension} files found in {directory}"
  | malformed e => e.render

/-- The files that came of a request, and the error that ended it. A file that was read but does not
parse comes with its error. -/
structure Loaded where
  files : List SourceFile
  error? : Option LoadError

/-- The files kept so far, the number of files read so far, and the last number given out. -/
structure Library where
  cache : List (String × SourceFile)
  stamps : Nat
  last : Nat

namespace Library

/-- The library before any request, after the numbers up to `last`. -/
def startFrom (last : Nat) : Library := ⟨[], 0, last⟩

/-- The names of the files that are kept, in ascending order. -/
def names (l : Library) : List String := (l.cache.map (·.1)).mergeSort fun a b => decide (a ≤ b)

/-- A request that is refused. -/
def refuse (l : Library) (e : LoadError) : Loaded × Library := (⟨[], some e⟩, l)

/-- Reads and parses a file without looking at the files that are kept. The extension is judged
before the file is opened. -/
def parseFile (v : Volume) (name : String) (l : Library) : Loaded × Library :=
  if Path.extension name = sourceExtension then
    match v.read name with
    | .error e => l.refuse (.refused e)
    | .ok source =>
      match (Program.parse source).runFrom l.last with
      | (.ok p, last) =>
        (⟨[⟨l.stamps, name, source, some p⟩], none⟩, ⟨l.cache, l.stamps + 1, last⟩)
      | (.error e, last) =>
        (⟨[⟨l.stamps, name, source, none⟩], some (.malformed e)⟩, ⟨l.cache, l.stamps + 1, last⟩)
  else l.refuse (.wrongExtension (Path.extension name))

/-- Keeps the files of a request that did not fail. -/
def keep (name : String) (r : Loaded × Library) : Loaded × Library :=
  match r.1.error?, r.1.files with
  | none, f :: _ => (r.1, ⟨(name, f) :: r.2.cache, r.2.stamps, r.2.last⟩)
  | _, _ => r

/-- Loads a file, from the files that are kept if it is among them. -/
def loadFile (v : Volume) (name : String) (l : Library) : Loaded × Library :=
  match l.cache.lookup name with
  | some f => (⟨[f], none⟩, l)
  | none => keep name (l.parseFile v name)

/-- Loads files in order, up to the first that fails. -/
def loadFiles (v : Volume) : List String → Library → Loaded × Library
  | [], l => (⟨[], none⟩, l)
  | name :: rest, l =>
    let (first, l) := loadFile v name l
    match first.error? with
    | some e => (⟨first.files, some e⟩, l)
    | none =>
      let (others, l) := loadFiles v rest l
      (⟨first.files ++ others.files, others.error?⟩, l)

/-- The paths of the source files directly in a directory, in ascending order. -/
def sourcesIn (dir : String) (entries : List DirectoryEntry) : List String :=
  ((entries.filter fun e => !e.isDirectory && Path.extension e.name = sourceExtension).map
    fun e => Path.join dir e.name).mergeSort fun a b => decide (a ≤ b)

/-- Loads the source files directly in a directory. -/
def loadDirectory (v : Volume) (dir : String) (l : Library) : Loaded × Library :=
  match v.list dir with
  | .error e => l.refuse (.refused e)
  | .ok entries =>
    match sourcesIn dir entries with
    | [] => l.refuse (.noSources dir)
    | names => loadFiles v names l

/-- Loads a directory or a file, whichever the name denotes. -/
def load (v : Volume) (name : String) (l : Library) : Loaded × Library :=
  match v.isDirectory name with
  | .error e => l.refuse (.refused e)
  | .ok true => loadDirectory v name l
  | .ok false => loadFile v name l

end Library

end TypedScheme
