import Mathlib.Order.Bounds.Defs
import TypedScheme.Proofs.Ty.Unification

/-!
# Equations solved one after the other

Equations between types are matched in order, each after the bindings that the ones before it made.
What comes of it does not depend on the order: matching succeeds exactly when all equations have a
solution in common, and then the bindings are a most general one.

## What this module delivers

- `Substitution.Solvable`, `Substitution.MostGeneral`: a common solution of equations, and one that
  all others are instances of.
- `Substitution.matchEquations`: matching of equations in order.
- `Substitution.matchEquations_iff_solvable` and `Substitution.mostGeneral_of_matchEquations`: in-order
  matching is simultaneous unification.
- `Substitution.matchEquations_perm`: the order of the equations does not matter.
- `Substitution.isLeast_of_first_failure`: the equation at which matching stops is the first that has
  no solution in common with those before it.
-/

set_option autoImplicit false

namespace TypedScheme.Substitution

open Ty

variable {E F : List (Ty × Ty)} {θ θ' : Nat → Ty}

/-! ## Common solutions -/

/-- Some replacement makes the two sides of every equation equal. -/
def Solvable (E : List (Ty × Ty)) : Prop := ∃ θ, Holds θ E

/-- A solution of equations that every other solution is an instance of. -/
structure MostGeneral (E : List (Ty × Ty)) (θ : Nat → Ty) : Prop where
  holds : Holds θ E
  factors : ∀ θ', Holds θ' E → ∃ δ : Nat → Ty, ∀ x, θ' x = (θ x).bind δ

/-- Both sides of every equation are whole. -/
def AllWhole (E : List (Ty × Ty)) : Prop := ∀ e ∈ E, e.1.isWhole = true ∧ e.2.isWhole = true

/-- A part of solvable equations is solvable. -/
theorem Solvable.of_subset (h : Solvable E) (hFE : F ⊆ E) : Solvable F := by
  obtain ⟨θ, hθ⟩ := h
  exact ⟨θ, fun e he => hθ e (hFE he)⟩

theorem AllWhole.of_subset (h : AllWhole E) (hFE : F ⊆ E) : AllWhole F := fun e he => h e (hFE he)

theorem allWhole_zip {as bs : List Ty} (has : ∀ a ∈ as, a.isWhole = true)
    (hbs : ∀ b ∈ bs, b.isWhole = true) : AllWhole (as.zip bs) := fun _ he =>
  ⟨has _ (List.of_mem_zip he).1, hbs _ (List.of_mem_zip he).2⟩

/-- Two most general solutions make instances of each other from every type. -/
theorem MostGeneral.exists_bind_eq (h : MostGeneral E θ) (h' : MostGeneral E θ') (t : Ty) :
    ∃ δ : Nat → Ty, (t.bind θ).bind δ = t.bind θ' := by
  obtain ⟨δ, hδ⟩ := h.factors θ' h'.holds
  refine ⟨δ, ?_⟩
  rw [bind_bind]
  exact bind_congr fun x _ => (hδ x).symm

/-- If the first `i` equations have a common solution and the first `i + 1` have none, then `i + 1` is
the least number of first equations without one. -/
theorem isLeast_of_first_failure {i : Nat} (hbefore : Solvable (E.take i))
    (hfails : ¬Solvable (E.take (i + 1))) : IsLeast {k | ¬Solvable (E.take k)} (i + 1) := by
  refine ⟨hfails, fun k hk => ?_⟩
  by_contra hlt
  exact hk (hbefore.of_subset (List.take_subset_take_left E (by omega)))

/-! ## Matching in order -/

/-- Equations matched in order after the bindings `s`, up to the first that fails. -/
def matchEquations (s : Substitution) (E : List (Ty × Ty)) : Bool × Substitution :=
  matchLists unify s (E.map Prod.fst) (E.map Prod.snd)

@[simp] theorem matchEquations_nil (s : Substitution) : matchEquations s [] = (true, s) := rfl

/-- Equations are matched one after the other, up to the first that fails. -/
theorem matchEquations_cons (s : Substitution) (e : Ty × Ty) :
    matchEquations s (e :: E) =
      andThen (s.unify e.1 e.2) fun s' => matchEquations s' E := rfl

/-- After an equation that matches, the rest is matched with the bindings it made. -/
theorem matchEquations_cons_of_true {s : Substitution} {a b : Ty} (h : (s.unify a b).1 = true) :
    matchEquations s ((a, b) :: E) = matchEquations (s.unify a b).2 E := by
  rw [matchEquations_cons, andThen, if_pos h]

theorem matchEquations_cons_of_false {s : Substitution} {a b : Ty} (h : (s.unify a b).1 = false) :
    matchEquations s ((a, b) :: E) = s.unify a b := by
  rw [matchEquations_cons, andThen, if_neg (by simp [h])]

/-- Matching equations one after the other is an attempt to solve all of them. -/
theorem solved_matchEquations (n : Nat) {s : Substitution} (hs : s.Triangular)
    (E : List (Ty × Ty)) : Solved n s E (matchEquations s E) := by
  have hlen : (E.map Prod.fst).length = (E.map Prod.snd).length := by simp
  have hsolved := solved_matchLists_unify n hs hlen
  rwa [← List.zip_of_prod rfl rfl] at hsolved

/-- Matching equations between whole types in order succeeds exactly when they have a common
solution. A solution may be arbitrarily high, so matching is taken to find solutions of its height. -/
theorem matchEquations_iff_solvable (hE : AllWhole E) :
    (matchEquations [] E).1 = true ↔ Solvable E := by
  constructor
  · intro h
    exact ⟨_, (solved_matchEquations 0 .nil E).holds h⟩
  · rintro ⟨θ, hθ⟩
    let n := heightAll (E.map fun e => e.1.bind θ)
    apply (solved_matchEquations n .nil E).success hE (by simp) θ (respectedBy_nil θ) hθ
    intro e he
    exact heightAll_le.1 (Nat.le_refl _) _ (List.mem_map_of_mem (f := fun e => e.1.bind θ) he)

/-- The bindings after a successful match are a most general solution: every solution respects them,
and so absorbs them. -/
theorem mostGeneral_of_matchEquations (h : (matchEquations [] E).1 = true) :
    MostGeneral E fun x => (matchEquations [] E).2.apply (.var x) := by
  have hsolved := solved_matchEquations 0 .nil E
  refine ⟨hsolved.holds h, fun θ' hθ' => ⟨θ', fun x => ?_⟩⟩
  have hrespected := hsolved.respected θ' (respectedBy_nil θ') hθ'
  exact (hsolved.triangular.bind_apply hrespected (.var x)).symm

/-- Whether equations match does not depend on their order. -/
theorem matchEquations_perm (hE : AllWhole E) (hperm : F.Perm E) :
    (matchEquations [] F).1 = (matchEquations [] E).1 := by
  rw [Bool.eq_iff_iff, matchEquations_iff_solvable hE,
    matchEquations_iff_solvable (hE.of_subset hperm.subset)]
  exact ⟨fun h => h.of_subset hperm.symm.subset, fun h => h.of_subset hperm.subset⟩

end TypedScheme.Substitution
