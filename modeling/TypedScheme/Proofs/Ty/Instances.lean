import TypedScheme.Proofs.Ty.Renaming

/-!
# Matching against ground types

Agreement with a ground type is equality, and matching the parameter types of a procedure, with new
names for their variables, against ground types finds the one instance of the procedure type that has
these parameters.

## What this module delivers

- `agrees_iff_eq`, `agrees_absent`: what agrees with a ground type.
- `eq_map_bind_of_matchLists`: the bindings that matching finds are an instance.
- `matchLists_rename_iff`: matching renamed parameter types against ground types succeeds exactly when
  some replacement of their variables makes the parameters equal to them, and then resolves the result
  type to what this replacement makes of it.
- `freshVars_injOn`: the new variables that an operator gets keep its variables apart.
-/

set_option autoImplicit false

namespace TypedScheme

open Ty

namespace Ty

/-- Ground types agree exactly when they are equal. -/
theorem agrees_iff_eq {a b : Ty} (ha : a.IsGround) (hb : b.IsGround) :
    a.agrees b = true ↔ a = b := by
  rw [Substitution.agrees_iff ha.whole hb.whole]
  constructor
  · rintro ⟨θ, -, -, h⟩
    rwa [bind_of_vars_eq_nil ha.vars_eq_nil, bind_of_vars_eq_nil hb.vars_eq_nil] at h
  · rintro rfl
    exact ⟨var, fun _ => rfl, Substitution.respectedBy_nil _, rfl⟩

/-- The absent type agrees with no ground type. -/
theorem agrees_absent {b : Ty} (hb : b.IsGround) : absent.agrees b = false := by
  have hmatch : ∀ n, (Substitution.matchWithin n [] absent b).1 = false := by
    intro n
    cases n with
    | zero => rfl
    | succ n =>
      cases b with
      | var x => exact absurd hb.vars_eq_nil (List.cons_ne_nil x [])
      | absent | base | pair | proc => rfl
  exact hmatch _

/-- Ground types are their own only instances. -/
theorem map_bind_of_isGround {ts : List Ty} (hts : ∀ t ∈ ts, t.IsGround) (θ : Nat → Ty) :
    ts.map (bind θ) = ts := by
  conv_rhs => rw [← List.map_id ts]
  exact List.map_congr_left fun t ht => bind_of_vars_eq_nil (hts t ht).vars_eq_nil θ

end Ty

namespace Substitution

variable {ps : List Ty} {r : Ty} {g : Nat → Nat} {τs : List Ty}

/-- To resolve a renamed type is to replace its variables by what their new names are resolved to. -/
theorem apply_rename_eq_bind (s : Substitution) (g : Nat → Nat) (t : Ty) :
    s.apply (t.rename g) = t.bind fun x => s.apply (.var (g x)) := by
  rw [apply_eq_bind, Ty.rename, bind_bind]
  rfl

/-- The bindings that make renamed types equal to ground types are an instance of the types, when they
are read through the renaming. -/
theorem eq_map_bind_of_matchLists (hτs : ∀ t ∈ τs, t.IsGround) (hlen : ps.length = τs.length)
    {s : Substitution} (hs : matchLists unify [] (ps.map (Ty.rename g)) τs = (true, s)) :
    τs = ps.map (Ty.bind fun x => s.apply (.var (g x))) := by
  have hlen' : (ps.map (Ty.rename g)).length = τs.length := by rw [List.length_map, hlen]
  have hsolved := solved_matchLists_unify 0 .nil hlen'
  have hholds := (holds_zip hlen').1 (hsolved.holds (by rw [hs]))
  rw [map_bind_of_isGround hτs, hs, List.map_map] at hholds
  rw [← hholds]
  exact List.map_congr_left fun p _ => bind_bind _ _ p

/-- Matching finds an instance if there is one. The renaming keeps the variables apart, so the instance
can be read back through it. -/
theorem matchLists_of_eq_map_bind (hg : Set.InjOn g {x | x ∈ varsAll ps})
    (hps : ∀ p ∈ ps, p.isWhole = true) (hτs : ∀ t ∈ τs, t.IsGround) {θ : Nat → Ty}
    (hθ : τs = ps.map (Ty.bind θ)) : (matchLists unify [] (ps.map (Ty.rename g)) τs).1 = true := by
  let θ' : Nat → Ty := fun y => θ (Function.invFunOn g {x | x ∈ varsAll ps} y)
  have hback : ∀ x ∈ varsAll ps, θ' (g x) = θ x :=
    fun x hx => congrArg θ (hg.leftInvOn_invFunOn hx)
  have hmap : (ps.map (Ty.rename g)).map (Ty.bind θ') = τs.map (Ty.bind θ') := by
    rw [map_bind_of_isGround hτs, hθ, List.map_map]
    refine List.map_congr_left fun p hp => ?_
    rw [Function.comp_apply, Ty.rename, bind_bind]
    exact bind_congr fun x hx => hback x (mem_varsAll.2 ⟨p, hp, hx⟩)
  have hwhole : ∀ q ∈ ps.map (Ty.rename g), q.isWhole = true := by
    intro q hq
    obtain ⟨p, hp, rfl⟩ := List.mem_map.1 hq
    exact isWhole_bind (hps p hp) fun _ _ => rfl
  exact matchLists_unify_of_map_eq .nil (by simp) hwhole (fun t ht => (hτs t ht).whole)
    (respectedBy_nil θ') hmap

/-- Matching renamed parameter types against ground types finds the instance of a procedure type that
has them as parameters, and resolves its result. -/
theorem matchLists_rename_iff (hg : Set.InjOn g {x | x ∈ varsAll ps})
    (hps : ∀ p ∈ ps, p.isWhole = true) (hr : ∀ x ∈ r.vars, x ∈ varsAll ps)
    (hτs : ∀ t ∈ τs, t.IsGround) (hlen : ps.length = τs.length) {τ : Ty} :
    (∃ s, matchLists unify [] (ps.map (Ty.rename g)) τs = (true, s) ∧ τ = s.apply (r.rename g)) ↔
      ∃ θ, τs = ps.map (Ty.bind θ) ∧ τ = r.bind θ := by
  constructor
  · rintro ⟨s, hs, rfl⟩
    exact ⟨_, eq_map_bind_of_matchLists hτs hlen hs, apply_rename_eq_bind s g r⟩
  · rintro ⟨θ, hθ, rfl⟩
    have hok := matchLists_of_eq_map_bind hg hps hτs hθ
    generalize hs : matchLists unify [] (ps.map (Ty.rename g)) τs = found at hok
    obtain ⟨_, s⟩ := found
    obtain rfl : _ = true := hok
    refine ⟨s, rfl, ?_⟩
    rw [apply_rename_eq_bind]
    -- Both replacements make the same parameters, so they agree on all variables of the result.
    have hsame : ps.map (Ty.bind θ) = ps.map (Ty.bind fun x => s.apply (.var (g x))) :=
      hθ.symm.trans (eq_map_bind_of_matchLists hτs hlen hs)
    refine bind_congr fun x hx => ?_
    obtain ⟨p, hp, hxp⟩ := mem_varsAll.1 (hr x hx)
    exact eqOn_vars_of_bind_eq (List.map_inj_left.1 hsame p hp) x hxp

end Substitution

/-- The new variables of a type keep its variables apart. -/
theorem Ty.freshVars_injOn (last : Nat) (t : Ty) :
    Set.InjOn (fun x => last + 1 + t.distinctVars.idxOf x) {x | x ∈ t.vars} := by
  intro x hx y _ hxy
  have hidx : t.distinctVars.idxOf x = t.distinctVars.idxOf y := Nat.add_left_cancel hxy
  exact (List.idxOf_inj (mem_distinctVars.2 hx)).1 hidx

end TypedScheme
