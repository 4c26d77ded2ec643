import TypedScheme.Ty.Substitution

/-!
# Types of primitive operators

The signature of every primitive operator. Its variables are numbered from one, the variables of the
result first, and every use of an operator gets variables of its own.
-/

set_option autoImplicit false

namespace TypedScheme.Primitive

/-- The type of numbers. -/
def number : Ty := .base .number

/-- The type of truth values. -/
def boolean : Ty := .base .boolean

/-- The signature of a primitive operator. -/
def signature? (name : String) : Option Ty :=
  match name with
  | "+" | "-" | "*" | "/" => some (.proc [number, number] number)
  | ">" | "<" | "=" => some (.proc [number, number] boolean)
  | "and" | "or" => some (.proc [boolean, boolean] boolean)
  | "not" => some (.proc [boolean] boolean)
  | "number?" | "boolean?" | "string?" | "list?" | "pair?" | "symbol?" =>
    some (.proc [.var 1] boolean)
  | "eq?" | "string=?" => some (.proc [.var 1, .var 2] boolean)
  | "display" => some (.proc [.var 1] (.base .void))
  | "newline" => some (.proc [] (.base .void))
  | "cons" => some (.proc [.var 1, .var 2] (.pair (.var 1) (.var 2)))
  | "car" => some (.proc [.pair (.var 1) (.var 2)] (.var 1))
  | "cdr" => some (.proc [.pair (.var 2) (.var 1)] (.var 1))
  | _ => none

/-- A signature with variables numbered after `last`, and the last number in use then. -/
def instantiate (last : Nat) (t : Ty) : Ty × Nat :=
  (t.bind fun x => .var (last + x), last + t.distinctVars.length)

end TypedScheme.Primitive
