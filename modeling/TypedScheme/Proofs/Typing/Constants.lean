import TypedScheme.Proofs.Ty.Renaming
import TypedScheme.Typing.Primitive
import TypedScheme.Typing.Quotation

/-!
# Types of constants

The type of a quoted value is ground. The signature of a primitive operator is a whole procedure type
whose variables are numbered from one, and every variable of its result is one of its parameters; so
an application of a primitive operator has a ground type as soon as its operands have.
-/

set_option autoImplicit false

namespace TypedScheme

open Ty

/-- A pair has the pair of the types of its parts. -/
theorem Value.typeOf_pair_eq_ok {a d : Value} {top : Bool} {t : Ty}
    (h : (Value.pair a d).typeOf top = .ok t) :
    ∃ car cdr, a.typeOf false = .ok car ∧ d.typeOf false = .ok cdr ∧ t = .pair car cdr := by
  rw [Value.typeOf] at h
  cases ha : a.typeOf false with
  | error f =>
    rw [ha] at h
    cases h
  | ok car =>
    cases hd : d.typeOf false with
    | error f =>
      rw [ha, hd] at h
      cases h
    | ok cdr =>
      rw [ha, hd] at h
      cases h
      exact ⟨car, cdr, rfl, rfl, rfl⟩

/-- A quoted value has a type without variables. -/
theorem Value.isGround_of_typeOf {v : Value} {top : Bool} {t : Ty} (h : v.typeOf top = .ok t) :
    t.IsGround := by
  induction v generalizing top t with
  | missing => cases h
  | number | boolean | string | symbol | empty =>
    cases h
    exact isGround_base _
  | pair a d iha ihd =>
    obtain ⟨car, cdr, ha, hd, rfl⟩ := typeOf_pair_eq_ok h
    exact isGround_pair.2 ⟨iha ha, ihd hd⟩

namespace Primitive

/-- The types that are signatures of primitive operators, each once. -/
def signatures : List Ty :=
  [.proc [number, number] number, .proc [number, number] boolean, .proc [boolean, boolean] boolean,
    .proc [boolean] boolean, .proc [.var 1] boolean, .proc [.var 1, .var 2] boolean,
    .proc [.var 1] (.base .void), .proc [] (.base .void),
    .proc [.var 1, .var 2] (.pair (.var 1) (.var 2)), .proc [.pair (.var 1) (.var 2)] (.var 1),
    .proc [.pair (.var 2) (.var 1)] (.var 1)]

/-- The signatures of the operators are all in the table. -/
theorem mem_signatures {name : String} {t : Ty} (h : signature? name = some t) :
    t ∈ signatures := by
  unfold signature? at h
  split at h <;> cases h <;> decide

/-- What all signatures have in common. -/
structure IsSignature (params : List Ty) (result : Ty) : Prop where
  whole : (Ty.proc params result).isWhole = true
  positive : ∀ x ∈ (Ty.proc params result).vars, 1 ≤ x
  result_vars : ∀ x ∈ result.vars, x ∈ varsAll params

/-- A type is a procedure type with the common properties of signatures, decided. -/
def isSignature : Ty → Bool
  | .proc params result =>
    (Ty.proc params result).isWhole && (Ty.proc params result).vars.all (1 ≤ ·) &&
      result.vars.all fun x => (varsAll params).contains x
  | _ => false

/-- What is tested of a signature is what is said of it. -/
theorem isSignature_iff {t : Ty} :
    isSignature t = true ↔ ∃ params result, t = .proc params result ∧ IsSignature params result := by
  cases t with
  | proc params result =>
    simp only [isSignature, Bool.and_eq_true, List.all_eq_true, decide_eq_true_eq,
      List.contains_iff_mem, Ty.proc.injEq]
    constructor
    · rintro ⟨⟨hw, hp⟩, hr⟩
      exact ⟨params, result, ⟨rfl, rfl⟩, hw, hp, hr⟩
    · rintro ⟨_, _, ⟨rfl, rfl⟩, hw, hp, hr⟩
      exact ⟨⟨hw, hp⟩, hr⟩
  | absent | base | var | pair => simp [isSignature]

/-- Every signature is a whole procedure type with variables numbered from one, those of the result
among those of the parameters. -/
theorem signature?_eq_some {name : String} {t : Ty} (h : signature? name = some t) :
    ∃ params result, t = .proc params result ∧ IsSignature params result := by
  have hall : ∀ t ∈ signatures, isSignature t = true := by decide
  exact isSignature_iff.1 (hall t (mem_signatures h))

/-- The new variables of a signature are the renamed new variables, if the renaming takes the next
numbers of one count to the next numbers of the other. -/
theorem instantiate_rename {ρ : Nat → Nat} {D : Set Nat} {k₁ k₂ : Nat} (hk : Aligned ρ D k₁ k₂)
    {name : String} {t : Ty} (h : signature? name = some t) :
    (instantiate k₁ t).1.Over D ∧ (instantiate k₁ t).1.rename ρ = (instantiate k₂ t).1 := by
  obtain ⟨params, result, rfl, hsig⟩ := signature?_eq_some h
  have hnext : ∀ x ∈ (Ty.proc params result).vars, k₁ + x ∈ D ∧ ρ (k₁ + x) = k₂ + x := by
    intro x hx
    obtain ⟨j, rfl⟩ : ∃ j, x = 1 + j := ⟨x - 1, by have := hsig.positive x hx; omega⟩
    simpa [Nat.add_assoc] using hk j
  refine ⟨over_bind fun x hx => over_var.2 (hnext x hx).1, ?_⟩
  rw [instantiate, instantiate, rename, bind_bind]
  exact bind_congr fun x hx => by rw [bind_var_apply, (hnext x hx).2]

end Primitive

end TypedScheme
