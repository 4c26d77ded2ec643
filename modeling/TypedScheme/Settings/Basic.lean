import TypedScheme.Files.Volume
import TypedScheme.Settings.Document.Reader
import TypedScheme.Settings.Scalar
import TypedScheme.Text.Blank

/-!
# Settings

The settings of the command line, which a file may give. Whatever the file does not mention keeps its
default. All that is wrong with the file is collected before it is refused.
-/

set_option autoImplicit false

namespace TypedScheme

open Text Document

/-- The settings of the command line. -/
structure Settings where
  trace : Bool
  dump : Bool
  color : Bool
  history : String
  paths : List String
  deriving DecidableEq, Repr

/-- What a setting takes. -/
inductive SettingType where
  | boolean
  | string
  | strings
  | settings
  deriving DecidableEq, Repr

/-- The name of what a setting takes, in messages. -/
def SettingType.name : SettingType → String
  | boolean => "bool"
  | string => "string"
  | strings => "[]string"
  | settings => "main.Config"

/-- What is wrong with an entry. -/
inductive DecodeIssue where
  | repeatedKey (line : Nat) (name : String) (first : Nat)
  | unknownField (line : Nat) (name : String)
  | unsuited (line : Nat) (tag : Document.Tag) (text : String) (wanted : SettingType)
  deriving DecidableEq, Repr

/-- What is wrong with settings that could be read. -/
inductive SettingsIssue where
  | emptyHistory
  | emptyPath (index : Nat)
  deriving DecidableEq, Repr

/-- Why a file could not be read as settings. -/
inductive ParseProblem where
  | input (error : FileError)
  | unreadable (error : Document.Unreadable)
  | unmergeable
  | undecodable (issues : List DecodeIssue)
  deriving DecidableEq, Repr

/-- Why there are no settings. -/
inductive SettingsError where
  | refused (name : String) (error : FileError)
  | unparsable (name : String) (problem : ParseProblem)
  | invalid (issues : List SettingsIssue)
  deriving DecidableEq, Repr

namespace DecodeIssue

/-- A scalar in a message: in grave accents, and cut if it has more than ten bytes. -/
def excerpt (text : String) : String :=
  let bytes := text.toUTF8.toList
  let shown := if 10 < bytes.length then Utf8.decode (bytes.take 7) ++ "..." else text
  " " ++ Quoted.grave.toString ++ shown ++ Quoted.grave.toString

/-- The message for an issue. -/
def message : DecodeIssue → String
  | repeatedKey line name first =>
    s!"line {line}: mapping key {Quoted.text name} already defined at line {first}"
  | unknownField line name =>
    s!"line {line}: field {name} not found in type {SettingType.settings.name}"
  | unsuited line tag text wanted =>
    let value := if tag = .list || tag = .mapping then "" else excerpt text
    s!"line {line}: cannot unmarshal {tag.name}{value} into {wanted.name}"

end DecodeIssue

/-- The message for an issue. -/
def SettingsIssue.message : SettingsIssue → String
  | emptyHistory => "history must be a non-empty file name"
  | emptyPath index => s!"paths[{index}] must be a non-empty string"

/-- The message for a problem. -/
def ParseProblem.message : ParseProblem → String
  | input e => s!"yaml: input error: {e.render}"
  | unreadable u => u.message
  | unmergeable => "yaml: map merge requires map or sequence of maps as the value"
  | undecodable issues =>
    "yaml: unmarshal errors:" ++ String.join (issues.map fun i => "\n  " ++ i.message)

/-- The message for an error. -/
def SettingsError.message : SettingsError → String
  | refused name e => s!"config: open {name}: {e.render}"
  | unparsable name problem => s!"config: parse {name}: {problem.message}"
  | invalid issues =>
    "config validation failed:" ++ String.join (issues.map fun i => "\n- " ++ i.message)

namespace Settings

/-- The file that is read if no other is named. -/
def defaultFile : String := "l5.yml"

/-- The settings without a file. -/
def defaults : Settings := ⟨false, false, false, ".l5_history", []⟩

/-- The text that a key is compared by, and the name of its kind. A key that is no scalar has no
text. -/
def keyOf : Document.Node → Nat × String
  | .scalar _ text _ => (0, text)
  | .list _ _ => (1, "")
  | .mapping _ _ => (2, "")

/-- The issues of keys that an earlier entry has already. -/
def repeatedKeys : List Document.Node → List DecodeIssue
  | [] => []
  | key :: rest =>
    (rest.filter fun k => keyOf k = keyOf key).map
        (fun k => .repeatedKey k.line (keyOf k).2 key.line)
      ++ repeatedKeys rest

/-- The issues of a node that does not suit a setting. No value suits all of them. -/
def unsuited (node : Document.Node) (wanted : SettingType) : List DecodeIssue :=
  match node with
  | .scalar line text quoted =>
    let tag := Tag.ofScalar text quoted
    if tag = .null then [] else [.unsuited line tag text wanted]
  | .list line _ => [.unsuited line .list "" wanted]
  | .mapping line entries =>
    match repeatedKeys (entries.map (·.1)) with
    | [] => [.unsuited line .mapping "" wanted]
    | issues => issues

/-- The truth value that a node denotes. -/
def booleanOf? : Document.Node → Option Bool
  | .scalar _ text quoted =>
    match Tag.ofScalar text quoted with
    | .boolean => some (trueNames.contains text)
    | .string =>
      if yesWords.contains text then some true
      else if noWords.contains text then some false
      else none
    | _ => none
  | _ => none

/-- The string that a node denotes. Any scalar but no value will do. -/
def stringOf? : Document.Node → Option String
  | .scalar _ text quoted => if Tag.ofScalar text quoted = .null then none else some text
  | _ => none

/-- A setting with a new value, or as it is, with the issues of the node. -/
def updated {α : Type} (found : Option α) (node : Document.Node) (wanted : SettingType)
    (set : α → Settings) (s : Settings) : Settings × List DecodeIssue :=
  match found with
  | some value => (set value, [])
  | none => (s, unsuited node wanted)

/-- The settings after the paths of a node. Items that are no strings are left out. -/
def updatePaths (s : Settings) (node : Document.Node) : Settings × List DecodeIssue :=
  match node with
  | .list _ items =>
    ({ s with paths := items.filterMap stringOf? },
      items.flatMap fun i => if (stringOf? i).isSome then [] else unsuited i .string)
  | .scalar _ text quoted =>
    if Tag.ofScalar text quoted = .null then ({ s with paths := [] }, [])
    else (s, unsuited node .strings)
  | .mapping _ _ => (s, unsuited node .strings)

/-- The settings after an entry. A key that has no name leaves them as they are. -/
def update (s : Settings) (key node : Document.Node) : Settings × List DecodeIssue :=
  match stringOf? key with
  | none => (s, unsuited key .string)
  | some "trace" => updated (booleanOf? node) node .boolean (fun b => { s with trace := b }) s
  | some "dump" => updated (booleanOf? node) node .boolean (fun b => { s with dump := b }) s
  | some "color" => updated (booleanOf? node) node .boolean (fun b => { s with color := b }) s
  | some "history" => updated (stringOf? node) node .string (fun h => { s with history := h }) s
  | some "paths" => s.updatePaths node
  | some name => (s, [.unknownField key.line name])

/-- The settings after entries in order, and the issues of all of them. -/
def updateAll (s : Settings) :
    List (Document.Node × Document.Node) → Settings × List DecodeIssue
  | [] => (s, [])
  | (key, node) :: rest =>
    let (s, issues) := s.update key node
    let (s, others) := updateAll s rest
    (s, issues ++ others)

/-- Whether a key merges its value into the mapping around it. -/
def isMerge : Document.Node → Bool
  | .scalar _ text quoted => Tag.ofScalar text quoted = .merge
  | _ => false

/-- The mappings that a value merges, if it is one or a list of them. -/
def merged? : Document.Node → Option (List (List (Document.Node × Document.Node)))
  | .scalar _ _ _ => none
  | .list _ items => items.mapM fun i =>
    match i with
    | .mapping _ entries => some entries
    | _ => none
  | .mapping _ entries => some [entries]

/-- The settings after mappings, each of which gives only what is not given yet. Names count as given
once they were mentioned. -/
def mergeAll (s : Settings) (given : List (Nat × String)) :
    List (List (Document.Node × Document.Node)) → Settings × List DecodeIssue
  | [] => (s, [])
  | entries :: rest =>
    match repeatedKeys (entries.map (·.1)) with
    | [] =>
      let (s, issues) := s.updateAll (entries.filter fun e => !given.contains (keyOf e.1))
      let (s, others) := mergeAll s (given ++ entries.map fun e => keyOf e.1) rest
      (s, issues ++ others)
    | issues =>
      let (s, others) := mergeAll s given rest
      (s, issues ++ others)

/-- The settings of the entries of a document. What they merge comes after all else. -/
def decodeEntries (entries : List (Document.Node × Document.Node)) :
    Except ParseProblem (Settings × List DecodeIssue) :=
  let (s, issues) := updateAll defaults (entries.filter fun e => !isMerge e.1)
  match entries.find? fun e => isMerge e.1 with
  | none => .ok (s, issues)
  | some (_, value) =>
    match merged? value with
    | none => .error .unmergeable
    | some mappings =>
      let (s, others) := mergeAll s (entries.map fun e => keyOf e.1) mappings
      .ok (s, issues ++ others)

/-- The settings of a document. -/
def decode (node : Document.Node) : Except ParseProblem Settings := do
  let (s, issues) ←
    match node with
    | .mapping _ entries =>
      match repeatedKeys (entries.map (·.1)) with
      | [] => decodeEntries entries
      | issues => pure (defaults, issues)
    | _ => pure (defaults, unsuited node .settings)
  if issues.isEmpty then pure s else throw (.undecodable issues)

/-- What is wrong with settings. -/
def issues (s : Settings) : List SettingsIssue :=
  (if trim s.history = "" then [.emptyHistory] else [])
    ++ s.paths.zipIdx.filterMap fun (p, index) => if trim p = "" then some (.emptyPath index) else none

/-- Settings that have nothing wrong. -/
def validate (s : Settings) : Except SettingsError Settings :=
  match s.issues with
  | [] => .ok s
  | issues => .error (.invalid issues)

/-- The settings that a text spells. -/
def parse (name source : String) : Except SettingsError Settings :=
  match Document.parse source with
  | .error u => .error (.unparsable name (.unreadable u))
  | .ok none => .ok defaults
  | .ok (some node) =>
    match decode node with
    | .ok s => s.validate
    | .error problem => .error (.unparsable name problem)

/-- The settings of a file. A missing file gives the defaults if it is optional. -/
def load (v : Volume) (name : String) (optional : Bool) : Except SettingsError Settings :=
  match v.read name with
  | .ok source => parse name source
  | .error e =>
    if e.verb = .reading then .error (.unparsable name (.input e))
    else if optional && e.reason.isAbsence then .ok defaults
    else .error (.refused name e)

end Settings

end TypedScheme
