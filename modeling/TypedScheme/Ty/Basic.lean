/-!
# Types

A type is a base type, a variable, a pair type or a procedure type. Variables are numbered, and
`bind` replaces all of them at once. `render` is the concrete form of a type. A name that is declared
without a type has the type `absent`, which no type expression denotes.
-/

set_option autoImplicit false

namespace TypedScheme

/-- The types without parts. -/
inductive Base where
  | number
  | boolean
  | string
  | void
  | literal
  | empty
  deriving DecidableEq, Repr

namespace Base

/-- The base types in the order of their codes. -/
def all : List Base := [number, boolean, string, void, literal, empty]

/-- The code of a base type. -/
def code : Base → Nat
  | number => 0
  | boolean => 1
  | string => 2
  | void => 3
  | literal => 4
  | empty => 5

/-- The base type with a code. -/
def ofCode? (n : Int) : Option Base := all.find? fun b => (b.code : Int) = n

/-- The name of a base type. -/
def name : Base → String
  | number => "number"
  | boolean => "boolean"
  | string => "string"
  | void => "void"
  | literal => "literal"
  | empty => "Empty"

/-- The base type with a name. -/
def ofName? (s : String) : Option Base := all.find? fun b => b.name = s

end Base

/-- A type. The type `absent` stands where none was given: a variable may be bound to it, but it
matches nothing else, not even itself. -/
inductive Ty where
  | absent
  | base (b : Base)
  | var (id : Nat)
  | pair (car cdr : Ty)
  | proc (params : List Ty) (result : Ty)
  deriving Repr

namespace Ty

mutual

/-- A type with every variable replaced by a type. -/
def bind (f : Nat → Ty) : Ty → Ty
  | absent => absent
  | base b => base b
  | var x => f x
  | pair a d => pair (bind f a) (bind f d)
  | proc ps r => proc (bindAll f ps) (bind f r)

/-- Types with every variable replaced by a type. -/
def bindAll (f : Nat → Ty) : List Ty → List Ty
  | [] => []
  | t :: ts => bind f t :: bindAll f ts

end

mutual

/-- The variables of a type from left to right, with repetitions. -/
def vars : Ty → List Nat
  | absent => []
  | base _ => []
  | var x => [x]
  | pair a d => vars a ++ vars d
  | proc ps r => varsAll ps ++ vars r

/-- The variables of types from left to right, with repetitions. -/
def varsAll : List Ty → List Nat
  | [] => []
  | t :: ts => vars t ++ varsAll ts

end

mutual

/-- The number of constructors in a type. -/
def size : Ty → Nat
  | absent => 1
  | base _ => 1
  | var _ => 1
  | pair a d => 1 + size a + size d
  | proc ps r => 1 + sizeAll ps + size r

/-- The number of constructors in types. -/
def sizeAll : List Ty → Nat
  | [] => 0
  | t :: ts => size t + sizeAll ts

end

mutual

/-- Whether a type can be written out by itself. The parameters of a procedure are written out one by
one, and that cannot be done for an absent type. -/
def isWritable : Ty → Bool
  | absent => false
  | base _ => true
  | var _ => true
  | pair _ _ => true
  | proc ps _ => areWritable ps

/-- Whether types can each be written out by themselves. -/
def areWritable : List Ty → Bool
  | [] => true
  | t :: ts => isWritable t && areWritable ts

end

/-- Why a type cannot be written out. -/
def unwritable : String := "runtime error: invalid memory address or nil pointer dereference"

mutual

/-- The concrete form of a type. An absent type has a mark in place of a form, and so has a procedure
type that cannot be written out. -/
def render : Ty → String
  | absent => "%!s(<nil>)"
  | base b => b.name
  | var x => s!"T_{x}"
  | pair a d => "(Pair " ++ render a ++ " " ++ render d ++ ")"
  | proc [] r => "(Empty -> " ++ render r ++ ")"
  | proc (p :: ps) r =>
    if isWritable p && areWritable ps then
      "(" ++ render p ++ renderRest ps ++ " -> " ++ render r ++ ")"
    else "%!s(PANIC=String method: " ++ unwritable ++ ")"

/-- The parameter types after the first, each behind a star. -/
def renderRest : List Ty → String
  | [] => ""
  | t :: ts => " * " ++ render t ++ renderRest ts

end

mutual

/-- Equality of types, decided. -/
def decEq : (a b : Ty) → Decidable (a = b)
  | absent, absent => isTrue rfl
  | base a, base b =>
    if h : a = b then isTrue (by rw [h]) else isFalse (by intro e; injection e; contradiction)
  | var a, var b =>
    if h : a = b then isTrue (by rw [h]) else isFalse (by intro e; injection e; contradiction)
  | pair a b, pair c d =>
    match decEq a c, decEq b d with
    | isTrue h, isTrue h' => isTrue (by rw [h, h'])
    | isFalse h, _ => isFalse (by intro e; injection e; contradiction)
    | _, isFalse h => isFalse (by intro e; injection e; contradiction)
  | proc ps r, proc qs s =>
    match decEqAll ps qs, decEq r s with
    | isTrue h, isTrue h' => isTrue (by rw [h, h'])
    | isFalse h, _ => isFalse (by intro e; injection e; contradiction)
    | _, isFalse h => isFalse (by intro e; injection e; contradiction)
  | absent, base _ => isFalse (by intro e; injection e)
  | absent, var _ => isFalse (by intro e; injection e)
  | absent, pair _ _ => isFalse (by intro e; injection e)
  | absent, proc _ _ => isFalse (by intro e; injection e)
  | base _, absent => isFalse (by intro e; injection e)
  | base _, var _ => isFalse (by intro e; injection e)
  | base _, pair _ _ => isFalse (by intro e; injection e)
  | base _, proc _ _ => isFalse (by intro e; injection e)
  | var _, absent => isFalse (by intro e; injection e)
  | var _, base _ => isFalse (by intro e; injection e)
  | var _, pair _ _ => isFalse (by intro e; injection e)
  | var _, proc _ _ => isFalse (by intro e; injection e)
  | pair _ _, absent => isFalse (by intro e; injection e)
  | pair _ _, base _ => isFalse (by intro e; injection e)
  | pair _ _, var _ => isFalse (by intro e; injection e)
  | pair _ _, proc _ _ => isFalse (by intro e; injection e)
  | proc _ _, absent => isFalse (by intro e; injection e)
  | proc _ _, base _ => isFalse (by intro e; injection e)
  | proc _ _, var _ => isFalse (by intro e; injection e)
  | proc _ _, pair _ _ => isFalse (by intro e; injection e)

/-- Equality of lists of types, decided. -/
def decEqAll : (as bs : List Ty) → Decidable (as = bs)
  | [], [] => isTrue rfl
  | a :: as, b :: bs =>
    match decEq a b, decEqAll as bs with
    | isTrue h, isTrue h' => isTrue (by rw [h, h'])
    | isFalse h, _ => isFalse (by intro e; injection e; contradiction)
    | _, isFalse h => isFalse (by intro e; injection e; contradiction)
  | [], _ :: _ => isFalse (by intro e; injection e)
  | _ :: _, [] => isFalse (by intro e; injection e)

end

instance : DecidableEq Ty := decEq

/-- Whether a type has a variable. -/
def mentions (t : Ty) (x : Nat) : Bool := t.vars.contains x

end Ty

end TypedScheme
