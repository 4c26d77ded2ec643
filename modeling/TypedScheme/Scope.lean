import TypedScheme.Text.Columns
import TypedScheme.Ty.Basic

/-!
# Scopes

A scope is a stack of frames, the innermost first, over a frame without any name. A name means what
the innermost frame that has it says, and in one frame the last binding of a name counts.
-/

set_option autoImplicit false

namespace TypedScheme

/-- The bindings of one form, the last one first. -/
abbrev Frame := List (String × Ty)

/-- Frames, the innermost first. -/
abbrev Scope := List Frame

namespace Frame

/-- The frame with bindings in the order in which they are made. -/
def ofBindings (bindings : List (String × Ty)) : Frame := bindings.reverse

/-- The names of a frame, each once, in ascending order. -/
def names (f : Frame) : List String :=
  ((f.map (·.1)).eraseDups).mergeSort fun a b => decide (a ≤ b)

/-- A frame as text, each name in a cell before its type. -/
def table (f : Frame) : String :=
  if f.isEmpty then "(empty)\n"
  else String.join (f.names.map fun name =>
    name ++ ":\t" ++ ((f.lookup name).map Ty.render).getD "" ++ "\n")

end Frame

namespace Scope

/-- The scope without any name. -/
def empty : Scope := []

/-- A scope with one more frame. -/
def extend (s : Scope) (bindings : List (String × Ty)) : Scope := Frame.ofBindings bindings :: s

/-- The message for a call that gives names and types of different numbers. -/
def unequalMessage (names types : Nat) : String :=
  s!"types: extend with {names} names and {types} types"

/-- A scope with one more frame that pairs names and types, whose numbers must be equal. -/
def extendZip (s : Scope) (names : List String) (types : List Ty) : Except String Scope :=
  if names.length = types.length then .ok (s.extend (names.zip types))
  else .error (unequalMessage names.length types.length)

/-- The type of a name in the innermost frame. -/
def lookupLocal (s : Scope) (name : String) : Option Ty :=
  match s with
  | [] => none
  | f :: _ => f.lookup name

/-- The type of a name. -/
def lookup : Scope → String → Option Ty
  | [], _ => none
  | f :: s, name =>
    match f.lookup name with
    | some t => some t
    | none => lookup s name

/-- The frames of a scope as text, the outermost first. -/
def table : Scope → String
  | [] => "(empty)\n"
  | f :: s => table s ++ "↑\n" ++ f.table

/-- A scope as text, with its types aligned. -/
def render (s : Scope) : String := Text.Columns.render s.table

end Scope

end TypedScheme
