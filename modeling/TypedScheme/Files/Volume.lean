import TypedScheme.Files.Path

/-!
# Volumes

A volume answers three questions about paths: what is there, what a directory holds, and what a file
contains. A file tree is a list of files with their contents; the directories above a file need not be
listed. A tree gives a volume in two ways: by itself, and as a disk seen from one of its directories,
which words its refusals differently.
-/

set_option autoImplicit false

namespace TypedScheme

/-- What was being done with a path. -/
inductive FileVerb where
  | stat
  | opening
  | reading
  | listing
  deriving DecidableEq, Repr

/-- Why it was refused. -/
inductive FileReason where
  | nothingThere
  | noSuchEntry
  | notDirectory
  | isDirectory
  | denied
  | invalid
  | unsupported
  deriving DecidableEq, Repr

/-- The word for what was being done. -/
def FileVerb.name : FileVerb → String
  | stat => "stat"
  | opening => "open"
  | reading => "read"
  | listing => "readdir"

/-- The words for a reason. -/
def FileReason.message : FileReason → String
  | nothingThere => "file does not exist"
  | noSuchEntry => "no such file or directory"
  | notDirectory => "not a directory"
  | isDirectory => "is a directory"
  | denied => "permission denied"
  | invalid => "invalid argument"
  | unsupported => "not implemented"

/-- Whether a reason says that nothing is there. -/
def FileReason.isAbsence : FileReason → Bool
  | nothingThere => true
  | noSuchEntry => true
  | _ => false

/-- A refusal to do something with a path. -/
structure FileError where
  verb : FileVerb
  path : String
  reason : FileReason
  deriving DecidableEq, Repr

/-- A refusal as text. -/
def FileError.render (e : FileError) : String :=
  e.verb.name ++ " " ++ e.path ++ ": " ++ e.reason.message

/-- What a directory holds under a name. -/
structure DirectoryEntry where
  name : String
  isDirectory : Bool
  deriving DecidableEq, Repr

/-- A file system that can be asked about paths below its root. -/
structure Volume where
  /-- Whether a path is a directory. -/
  isDirectory : String → Except FileError Bool
  /-- What a directory holds. -/
  list : String → Except FileError (List DirectoryEntry)
  /-- What a file contains. -/
  read : String → Except FileError String

/-- Files by their paths, directories that may be empty, and the paths that cannot be opened. -/
structure FileTree where
  files : List (String × String)
  directories : List String
  denied : List String

/-- What a tree has at a path. -/
inductive TreeEntry where
  | file (contents : String)
  | directory
  deriving DecidableEq, Repr

namespace FileTree

/-- The part of a path below a directory, if it lies there. -/
def below? (dir path : String) : Option String :=
  if dir = "." then some path
  else
    let stem := (dir ++ "/").toList
    if stem.isPrefixOf path.toList then some (String.ofList (path.toList.drop stem.length))
    else none

/-- The tree of files alone. -/
def ofFiles (files : List (String × String)) : FileTree := ⟨files, [], []⟩

/-- Whether a clean path is a directory. -/
def hasDirectory (t : FileTree) (path : String) : Bool :=
  path = "." || t.directories.contains path || t.files.any fun f => (below? path f.1).isSome

/-- What is at a clean path. -/
def entry? (t : FileTree) (path : String) : Option TreeEntry :=
  match t.files.lookup path with
  | some contents => some (.file contents)
  | none => if t.hasDirectory path then some .directory else none

/-- The entry of a directory that leads to something below it. -/
def leading (isDirectory : Bool) (rest : String) : DirectoryEntry :=
  let name := rest.toList.takeWhile (· ≠ '/')
  ⟨String.ofList name, isDirectory || name.length < rest.length⟩

/-- What a directory holds, in the order of names. -/
def entries (t : FileTree) (dir : String) : List DirectoryEntry :=
  let files := t.files.filterMap fun f => (below? dir f.1).map (leading false)
  let directories := t.directories.filterMap fun d => (below? dir d).map (leading true)
  ((files ++ directories).eraseDups).mergeSort fun a b => decide (a.name ≤ b.name)

/-- What is at a path that must be valid and may be opened. -/
def access (t : FileTree) (path : String) : Except FileError TreeEntry :=
  if t.denied.contains path then .error ⟨.opening, path, .denied⟩
  else if Path.isValid path then
    match t.entry? path with
    | some e => .ok e
    | none => .error ⟨.opening, path, .nothingThere⟩
  else .error ⟨.opening, path, .nothingThere⟩

/-- A tree as a volume. -/
def volume (t : FileTree) : Volume where
  isDirectory path := do pure ((← t.access path) = .directory)
  list path := do
    match ← t.access path with
    | .directory => pure (t.entries path)
    | .file _ => throw ⟨.listing, path, .unsupported⟩
  read path := do
    match ← t.access path with
    | .directory => throw ⟨.reading, path, .invalid⟩
    | .file contents => pure contents

/-- The places that a path leads through, each by its clean path. -/
def stages (dir : String) : List String :=
  let es := Path.elements dir.toList
  (List.range es.length).map fun n => Path.clean (String.ofList (Path.unite (es.take (n + 1))))

/-- Whether a clean path is the root of the disk or lies above the current directory. -/
def isAbove (path : String) : Bool :=
  path = "/" || (Path.elements path.toList).all fun e => e = ['.', '.']

/-- Why a disk cannot be walked along places that should all be directories. -/
def obstacle? (t : FileTree) : List String → Option FileReason
  | [] => none
  | place :: rest =>
    if isAbove place then obstacle? t rest
    else match t.entry? place with
      | some .directory => obstacle? t rest
      | some (.file _) => some .notDirectory
      | none => some .noSuchEntry

/-- What a disk has at a name below one of its directories. The way to the directory is walked step
by step, so every place on it must be a directory, even if the way turns back from it. -/
def reach (t : FileTree) (verb : FileVerb) (dir name : String) : Except FileError TreeEntry :=
  if Path.isValid name then
    let path := Path.clean (dir ++ "/" ++ name)
    match t.obstacle? (stages dir), t.entry? path with
    | some reason, _ => .error ⟨verb, name, reason⟩
    | none, some e =>
      if verb = .opening && t.denied.contains path then .error ⟨verb, name, .denied⟩ else .ok e
    | none, none => .error ⟨verb, name, .noSuchEntry⟩
  else .error ⟨verb, name, .invalid⟩

/-- A tree as a disk seen from one of its directories. -/
def diskAt (t : FileTree) (dir : String) : Volume where
  isDirectory name := do pure ((← t.reach .stat dir name) = .directory)
  list name := do
    match ← t.reach .opening dir name with
    | .directory => pure (t.entries (Path.clean (dir ++ "/" ++ name)))
    | .file _ => throw ⟨.listing, name, .notDirectory⟩
  read name := do
    match ← t.reach .opening dir name with
    | .directory => throw ⟨.reading, Path.under dir name, .isDirectory⟩
    | .file contents => pure contents

/-- A tree with a file written at a clean path. Nothing is written below a missing directory or
over a directory. -/
def write (t : FileTree) (path contents : String) : FileTree :=
  let parent := Path.clean (Path.directory (Path.split path).1)
  if t.entry? path = some .directory || t.entry? parent ≠ some .directory then t
  else { t with files := (path, contents) :: t.files.filter fun f => f.1 ≠ path }

end FileTree

end TypedScheme
