import TypedScheme.Expr.Keyword
import TypedScheme.Proofs.Ty.Grammar
import TypedScheme.Proofs.Ty.Renaming
import TypedScheme.Typing.Primitive

/-!
# The texts of signatures

A signature of a primitive operator is a type expression like any other. Reading its text anew for
each use gives exactly what the operator's type is instantiated to, whatever numbers were given out
before, and the operators that the parser knows are those that have a signature.

## What this module delivers

- `Ty.Spelled.shift` and `Ty.parse_shift`: a type expression that is read after `k` more numbers is
  the same type with every variable moved up by `k`.
- `Primitive.signatureTexts`, the table of texts, and `Primitive.IsImplemented`, which says that an
  operator has a text that is read as its signature.
- `Primitive.isImplemented_of_isPrimitive`: every operator has one.
-/

set_option autoImplicit false

namespace TypedScheme

open Parse

/-! ## Reading after more numbers -/

/-- A numbering after `k` more numbers. -/
def Numbering.shift (k : Nat) (n : Numbering) : Numbering :=
  ⟨k + n.last, n.names.map fun p => (p.1, k + p.2)⟩

/-- Names keep their entries when all numbers are moved. -/
theorem Numbering.lookup_shift (k : Nat) (names : List (String × Nat)) (name : String) :
    (names.map fun p => (p.1, k + p.2)).lookup name = (names.lookup name).map (k + ·) := by
  induction names with
  | nil => rfl
  | cons p names ih =>
    rw [List.map_cons, List.lookup_cons, List.lookup_cons]
    split
    · rfl
    · exact ih

/-- Numbering a name commutes with moving all numbers. -/
theorem Numbering.assign_shift (k : Nat) (n : Numbering) (name : String) :
    (n.shift k).assign name = (k + (n.assign name).1, (n.assign name).2.shift k) := by
  unfold assign
  rw [shift, lookup_shift]
  cases n.names.lookup name <;> rfl

namespace Ty

mutual

/-- A type that is read after `k` more numbers has every variable moved up by `k`. -/
theorem Spelled.shift {n n' : Numbering} {d : Datum} {t : Ty} (k : Nat) :
    Spelled n d t n' → Spelled (n.shift k) d (t.rename (k + ·)) (n'.shift k)
  | .base hkind hbase => .base hkind hbase
  | @Spelled.var n token hkind hbase hreserved => by
    have h := Spelled.var (n := n.shift k) hkind hbase hreserved
    rwa [Numbering.assign_shift] at h
  | .pair hpair ha hd => .pair hpair (ha.shift k) (hd.shift k)
  | .proc harrow hd hparams => by
    rw [rename_proc]
    exact .proc harrow (hd.shift k) (hparams.shift k)

theorem Params.shift {n n' : Numbering} {ds : List Datum} {ts : List Ty} (k : Nat) :
    Params n ds ts n' → Params (n.shift k) ds (ts.map (Ty.rename (k + ·))) (n'.shift k)
  | .nil => .nil
  | .empty hempty => .empty hempty
  | .cons hempty ht hts => .cons hempty (ht.shift k) (hts.shift k)

theorem Starred.shift {n n' : Numbering} {ds : List Datum} {ts : List Ty} (k : Nat) :
    Starred n ds ts n' → Starred (n.shift k) ds (ts.map (Ty.rename (k + ·))) (n'.shift k)
  | .nil => .nil
  | .cons hstar ht hts => .cons hstar (ht.shift k) (hts.shift k)

end

/-- A text that is a type is the same type after `k` more numbers, with its variables moved up. -/
theorem parse_shift {source : String} {m m' : Nat} {t : Ty} (k : Nat)
    (h : (parse source).runFrom m = (.ok t, m')) :
    (parse source).runFrom (k + m) = (.ok (t.rename (k + ·)), k + m') := by
  obtain ⟨d, names, hd, ht⟩ := parse_eq_ok_iff.1 h
  exact parse_eq_ok_iff.2 ⟨d, _, hd, ht.shift k⟩

end Ty

/-! ## The table -/

namespace Primitive

/-- The primitive operators with the texts of their signatures. -/
def signatureTexts : List (String × String) :=
  [("+", "(number * number -> number)"), ("-", "(number * number -> number)"),
    ("*", "(number * number -> number)"), ("/", "(number * number -> number)"),
    (">", "(number * number -> boolean)"), ("<", "(number * number -> boolean)"),
    ("=", "(number * number -> boolean)"), ("and", "(boolean * boolean -> boolean)"),
    ("or", "(boolean * boolean -> boolean)"), ("not", "(boolean -> boolean)"),
    ("number?", "(T -> boolean)"), ("boolean?", "(T -> boolean)"), ("string?", "(T -> boolean)"),
    ("list?", "(T -> boolean)"), ("pair?", "(T -> boolean)"), ("symbol?", "(T -> boolean)"),
    ("eq?", "(T1 * T2 -> boolean)"), ("string=?", "(T1 * T2 -> boolean)"),
    ("display", "(T -> void)"), ("newline", "(Empty -> void)"),
    ("cons", "(T1 * T2 -> (Pair T1 T2))"), ("car", "((Pair T1 T2) -> T1)"),
    ("cdr", "((Pair T1 T2) -> T2)")]

/-- An operator has a text in the table, and whatever numbers were given out, the text is read as the
instance of the operator's signature. -/
def IsImplemented (name : String) : Prop :=
  ∃ text signature, signatureTexts.lookup name = some text ∧ signature? name = some signature ∧
    ∀ last, (Ty.parse text).runFrom last =
      (.ok (instantiate last signature).1, (instantiate last signature).2)

/-- A text is read as a type with its variables numbered from one. -/
def isSpelling (text : String) (signature : Ty) : Bool :=
  match (Ty.parse text).runFrom 0 with
  | (.ok t, last) => t = signature && last = signature.distinctVars.length
  | (.error _, _) => false

/-- The spelling of a signature is read as a copy of it, after any number. -/
theorem runFrom_of_isSpelling {text : String} {signature : Ty} (h : isSpelling text signature)
    (last : Nat) :
    (Ty.parse text).runFrom last =
      (.ok (instantiate last signature).1, (instantiate last signature).2) := by
  unfold isSpelling at h
  split at h
  · next t m hparse =>
    obtain ⟨rfl, rfl⟩ : t = signature ∧ m = signature.distinctVars.length := by simpa using h
    exact Ty.parse_shift last hparse
  · cases h

/-- The operators with a signature, each with a text that is read as it, decided. -/
def isImplemented (name : String) : Bool :=
  match signatureTexts.lookup name, signature? name with
  | some text, some signature => isSpelling text signature
  | _, _ => false

/-- The test of an operator proves that it has a signature that is read from its text. -/
theorem isImplemented_sound {name : String} (h : isImplemented name) : IsImplemented name := by
  unfold isImplemented at h
  split at h
  · next text signature htext hsignature =>
    exact ⟨text, signature, htext, hsignature, runFrom_of_isSpelling h⟩
  · cases h

/-- Every operator that the parser knows has a signature. -/
theorem isImplemented_of_isPrimitive {name : String} (h : isPrimitive name) :
    IsImplemented name := by
  have hall : ∀ name ∈ primitiveNames, isImplemented name = true := by decide +kernel
  exact isImplemented_sound (hall name (List.contains_iff_mem.1 h))

end Primitive

end TypedScheme
