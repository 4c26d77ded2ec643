import TypedScheme.SyntaxError
import TypedScheme.Ty.Basic

/-!
# Numbering of type variables

Type variables are numbered in the order in which they are met, and a number is never given out
twice, also when the text that used it turns out to be wrong. So reading a text takes the last
number given out and returns the last number given out by then, whether it fails or not.
-/

set_option autoImplicit false

namespace TypedScheme

/-- The last number given out, and the numbers of the names in the type expression at hand. -/
structure Numbering where
  last : Nat
  names : List (String × Nat)
  deriving DecidableEq, Repr

/-- Reading that gives out numbers and may fail; the numbers stay given out when it fails. -/
abbrev Parse := ExceptT SyntaxError (StateM Numbering)

namespace Parse

/-- A failure at a place. -/
def fault {α : Type} (f : SyntaxFault) (span : Span) : Parse α := throw ⟨f, span⟩

/-- The result of reading after the numbers up to `last`, and the last number given out then. -/
def runFrom {α : Type} (p : Parse α) (last : Nat) : Except SyntaxError α × Nat :=
  let (result, numbering) := p.run ⟨last, []⟩
  (result, numbering.last)

/-- Forgets the names, as at the start of a type expression with variables of its own. -/
def forgetNames : Parse Unit := modify fun n => ⟨n.last, []⟩

/-- The variable of a name, which is new at the name's first use. -/
def numbered (name : String) : Parse Ty := do
  let n ← get
  match n.names.lookup name with
  | some id => pure (.var id)
  | none =>
    set (⟨n.last + 1, (name, n.last + 1) :: n.names⟩ : Numbering)
    pure (.var (n.last + 1))

end Parse

end TypedScheme
