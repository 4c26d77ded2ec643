import TypedScheme.Command.Console
import TypedScheme.Text.Quoted

/-!
# Flags

A flag is a word with one or two dashes in front, and its value may follow an equals sign. A flag for
a truth value needs no value; a flag for a text takes the next word if it has none. Flags end at the
first word that is none, or after two dashes that stand alone.
-/

set_option autoImplicit false

namespace TypedScheme

open Text

/-- The flags of the commands. -/
inductive Flag where
  | color
  | config
  | dump
  | program
  | trace
  deriving DecidableEq, Repr

namespace Flag

/-- The name of a flag. -/
def name : Flag → String
  | color => "color"
  | config => "config"
  | dump => "dump"
  | program => "program"
  | trace => "trace"

/-- What a flag does. -/
def purpose : Flag → String
  | color => "highlight diagnostics"
  | config => "config file (default l5.yml if present)"
  | dump => "print the syntax tree of every program"
  | program => "treat the source as a whole program"
  | trace => "print every typing judgment to stderr"

/-- Whether a flag takes a text. -/
def takesText : Flag → Bool
  | config => true
  | _ => false

/-- The flags of every command, in the order of their names. -/
def common : List Flag := [color, config, dump, trace]

/-- The lines that explain a flag. -/
def usage (f : Flag) : String :=
  "  -" ++ f.name ++ (if f.takesText then " string" else "") ++ "\n    \t" ++ f.purpose ++ "\n"

end Flag

/-- The flags that were set. -/
structure Flags where
  config : String
  color? : Option Bool
  dump? : Option Bool
  program? : Option Bool
  trace? : Option Bool
  deriving DecidableEq, Repr

/-- Why arguments were not understood. -/
inductive FlagError where
  | helpAsked
  | badSyntax (word : String)
  | undefined (name : String)
  | valueMissing (name : String)
  | badBoolean (value name : String)
  deriving DecidableEq, Repr

/-- The line that tells what is wrong; asking for help is not wrong. -/
def FlagError.message? : FlagError → Option String
  | helpAsked => none
  | badSyntax word => some s!"bad flag syntax: {word}"
  | undefined name => some s!"flag provided but not defined: -{name}"
  | valueMissing name => some s!"flag needs an argument: -{name}"
  | badBoolean value name =>
    some s!"invalid boolean value {Quoted.text value} for -{name}: parse error"

namespace Flags

/-- No flag is set. -/
def none : Flags := ⟨"", .none, .none, .none, .none⟩

/-- The flags with one more that has a truth value. -/
def setBoolean (fs : Flags) (f : Flag) (value : Bool) : Flags :=
  match f with
  | .color => { fs with color? := some value }
  | .dump => { fs with dump? := some value }
  | .program => { fs with program? := some value }
  | .trace => { fs with trace? := some value }
  | .config => fs

/-- The truth value that a text spells. -/
def boolean? (text : String) : Option Bool :=
  if ["1", "t", "T", "true", "TRUE", "True"].contains text then some true
  else if ["0", "f", "F", "false", "FALSE", "False"].contains text then some false
  else .none

/-- A word of the arguments, by its outline. -/
inductive Word where
  | plain
  | terminator
  | malformed
  | flag (name : String) (value? : Option String)
  deriving DecidableEq, Repr

/-- The name and the value of a flag without its dashes. An equals sign in front divides nothing. -/
def divide (body : List Char) : Word :=
  match body with
  | [] => .malformed
  | first :: rest =>
    if first = '-' || first = '=' then .malformed
    else
      let name := String.ofList (first :: rest.takeWhile (· ≠ '='))
      match rest.dropWhile (· ≠ '=') with
      | [] => .flag name .none
      | _ :: value => .flag name (some (String.ofList value))

/-- The outline of a word. -/
def classify (word : String) : Word :=
  match word.toList with
  | ['-', '-'] => .terminator
  | '-' :: '-' :: body => divide body
  | '-' :: c :: body => divide (c :: body)
  | _ => .plain

/-- The flags at the start of the arguments, and the arguments after them, where `awaiting` names a
flag whose text is still to come. -/
def parseFrom (known : List Flag) :
    Option String → Flags → List String → Except FlagError (Flags × List String)
  | some name, _, [] => .error (.valueMissing name)
  | some _, fs, value :: rest => parseFrom known .none { fs with config := value } rest
  | .none, fs, [] => .ok (fs, [])
  | .none, fs, word :: rest =>
    match classify word with
    | .plain => .ok (fs, word :: rest)
    | .terminator => .ok (fs, rest)
    | .malformed => .error (.badSyntax word)
    | .flag name value? =>
      match known.find? fun f => f.name = name with
      | .none =>
        if name = "help" || name = "h" then .error .helpAsked else .error (.undefined name)
      | some f =>
        match f.takesText, value? with
        | true, some value => parseFrom known .none { fs with config := value } rest
        | true, .none => parseFrom known (some name) fs rest
        | false, .none => parseFrom known .none (fs.setBoolean f true) rest
        | false, some text =>
          match boolean? text with
          | some value => parseFrom known .none (fs.setBoolean f value) rest
          | .none => .error (.badBoolean text name)

/-- The flags at the start of the arguments, and the arguments after them. -/
def parse (known : List Flag) (args : List String) : Except FlagError (Flags × List String) :=
  parseFrom known .none none args

/-- The explanation of the flags of a command. -/
def usage (command : String) (known : List Flag) : String :=
  "Usage of " ++ command ++ ":\n" ++ String.join (known.map Flag.usage)

/-- What is logged when arguments were not understood. -/
def complaint (command : String) (known : List Flag) (e : FlagError) : List Chunk :=
  (e.message?.map Chunk.errLine).toList ++ [.err (usage command known)]

end Flags

end TypedScheme
