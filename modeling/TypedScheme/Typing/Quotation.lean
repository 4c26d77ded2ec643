import TypedScheme.Typing.Failure

/-!
# Types of quoted values

A number, a boolean or a string at the top of a quoted value is opaque, of type `literal`; inside a
pair it keeps its own type. A symbol is always opaque.
-/

set_option autoImplicit false

namespace TypedScheme.Value

/-- The type of a scalar. -/
def scalarType (top : Bool) (b : Base) : Ty := .base (if top then .literal else b)

/-- The type of a value, where `top` tells whether it stands alone and not in a pair. -/
def typeOf (top : Bool) : Value → Except TypeFault Ty
  | missing => .error .missingValue
  | number _ => .ok (scalarType top .number)
  | boolean _ => .ok (scalarType top .boolean)
  | string _ => .ok (scalarType top .string)
  | symbol _ => .ok (.base .literal)
  | empty => .ok (.base .empty)
  | pair a d => do
    let car ← typeOf false a
    let cdr ← typeOf false d
    pure (.pair car cdr)

end TypedScheme.Value
