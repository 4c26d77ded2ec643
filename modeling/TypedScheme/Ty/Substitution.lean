import TypedScheme.Ty.Basic

/-!
# Substitutions and matching

A substitution is a list of bindings, the newest first. The type of a binding may hold variables that
are bound themselves, before or after it, and `apply` resolves all of them. Matching makes two types
equal by binding variables of either; a variable is never bound to a type that holds it. An absent
type matches variables only.
-/

set_option autoImplicit false

namespace TypedScheme

/-- Bindings of type variables, the newest first. -/
abbrev Substitution := List (Nat × Ty)

namespace Substitution

/-- A type with the bindings of variables resolved at its head. -/
def walk : Substitution → Ty → Ty
  | [], t => t
  | (x, bound) :: s, t =>
    match walk s t with
    | .var y => if y = x then bound else .var y
    | r => r

/-- A type with all bindings resolved: the newest binding acts on what the others leave. -/
def apply : Substitution → Ty → Ty
  | [], t => t
  | (x, bound) :: s, t => (apply s t).bind fun y => if y = x then apply s bound else .var y

/-- Whether a variable occurs in a type once the bindings are resolved. -/
def occurs (s : Substitution) (x : Nat) (t : Ty) : Bool := (s.apply t).mentions x

/-- Binds a variable to a type, unless the type is or holds that variable. The flag tells whether
the two are equal from then on. -/
def bindVar (s : Substitution) (x : Nat) (t : Ty) : Bool × Substitution :=
  if t = .var x then (true, s)
  else if s.occurs x t then (false, s)
  else (true, (x, t) :: s)

/-- A second match after a first one that succeeded. -/
def andThen (first : Bool × Substitution) (second : Substitution → Bool × Substitution) :
    Bool × Substitution :=
  if first.1 then second first.2 else first

/-- Types matched in order by a matching of two types, up to the first that fails. -/
def matchLists (one : Substitution → Ty → Ty → Bool × Substitution) :
    Substitution → List Ty → List Ty → Bool × Substitution
  | s, a :: as, b :: bs => andThen (one s a b) fun s => matchLists one s as bs
  | s, [], [] => (true, s)
  | s, _, _ => (false, s)

/-- Matching to a depth of `fuel`. -/
def matchWithin : Nat → Substitution → Ty → Ty → Bool × Substitution
  | 0, s, _, _ => (false, s)
  | fuel + 1, s, a, b =>
    match s.walk a, s.walk b with
    | .var x, t => s.bindVar x t
    | t, .var x => s.bindVar x t
    | .base p, .base q => (p = q, s)
    | .pair a d, .pair a' d' =>
      andThen (matchWithin fuel s a a') fun s => matchWithin fuel s d d'
    | .proc ps r, .proc qs r' =>
      if ps.length = qs.length then
        andThen (matchLists (matchWithin fuel) s ps qs) fun s => matchWithin fuel s r r'
      else (false, s)
    | _, _ => (false, s)

/-- A depth that no matching exceeds: a path down a type passes every variable at most once, and
between two variables it stays inside one of the types at hand. -/
def depthBound (s : Substitution) (a b : Ty) : Nat :=
  let types := a :: b :: s.map (·.2)
  ((Ty.varsAll types).length + 1) * (Ty.sizeAll types + 1)

/-- Makes two types equal by more bindings, if that is possible. Bindings made before a failure
stay. -/
def unify (s : Substitution) (a b : Ty) : Bool × Substitution :=
  matchWithin (s.depthBound a b) s a b

/-- The bindings in the order of their variables. -/
def sorted (s : Substitution) : Substitution := s.mergeSort fun a b => a.1 ≤ b.1

/-- A substitution as text. -/
def render (s : Substitution) : String :=
  "[" ++ String.intercalate ", "
    (s.sorted.map fun (x, t) => (Ty.var x).render ++ " := " ++ t.render) ++ "]"

end Substitution

namespace Ty

/-- Whether two types are equal up to the variables they hold. -/
def agrees (a b : Ty) : Bool := (Substitution.unify [] a b).1

/-- The variables of a type without repetitions, in the order of their first occurrence. -/
def distinctVars (t : Ty) : List Nat := t.vars.eraseDups

/-- New variables for those of a type, numbered after `last` in the order of their first
occurrence, and the last number in use then. -/
def freshVars (last : Nat) (t : Ty) : (Nat → Ty) × Nat :=
  (fun x => .var (last + 1 + t.distinctVars.idxOf x), last + t.distinctVars.length)

/-- The last number in use while a type is copied, and the new types of the variables met so far. -/
structure Renewal where
  last : Nat
  fresh : Substitution

/-- The new type of a variable. It is a new variable where the old one is met for the first time. -/
def renewVar (x : Nat) : StateM Renewal Ty := do
  let n ← get
  match n.fresh.lookup x with
  | some t => pure t
  | none =>
    set (⟨n.last + 1, (x, .var (n.last + 1)) :: n.fresh⟩ : Renewal)
    pure (.var (n.last + 1))

mutual

/-- A copy of a type with new variables, which are given out from left to right. -/
def renew : Ty → StateM Renewal Ty
  | absent => pure absent
  | base b => pure (base b)
  | var x => renewVar x
  | pair a d => do
    let a' ← renew a
    let d' ← renew d
    pure (pair a' d')
  | proc ps r => do
    let ps' ← renewAll ps
    let r' ← renew r
    pure (proc ps' r')

/-- Copies of types in a row, which share their new variables. -/
def renewAll : List Ty → StateM Renewal (List Ty)
  | [] => pure []
  | t :: ts => do
    let t' ← renew t
    let ts' ← renewAll ts
    pure (t' :: ts')

end

/-- A copy of a type with new variables, and the last number in use then. -/
def freshen (last : Nat) (t : Ty) : Ty × Nat :=
  let (t', n) := (renew t).run ⟨last, []⟩
  (t', n.last)

end Ty

end TypedScheme
