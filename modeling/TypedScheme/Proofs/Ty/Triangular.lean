import TypedScheme.Proofs.Ty.Bind
import TypedScheme.Ty.Substitution

/-!
# Triangular substitutions

The bindings that matching makes hold variables that are bound before or after them. What keeps them
from going round in circles is the order in which they are made: a new binding is made for a variable
that has none, and the type it gets does not hold that variable once all older bindings are
resolved. A substitution that is made in this way is `Substitution.Triangular`.

## What this module delivers

- `Substitution.RespectedBy`: a replacement `θ` respects the bindings of a substitution when it gives
  every bound variable the same type as the type the variable is bound to.
- Resolving all bindings is itself a replacement (`Substitution.apply_eq_bind`) that respects them
  (`Triangular.respectedBy_apply`) and leaves no bound variable
  (`Triangular.not_mem_keys_of_mem_vars_apply`).
- Every replacement that respects the bindings absorbs them, whether they are resolved everywhere
  (`Triangular.bind_apply`) or only at the head of a type (`Triangular.bind_walk`).
-/

set_option autoImplicit false

namespace TypedScheme.Substitution

open Ty

/-! ## Bindings -/

/-- The variables that have a binding. -/
def keys (s : Substitution) : List Nat := s.map Prod.fst

/-- A variable is bound to a type. -/
def Binds (s : Substitution) (x : Nat) (t : Ty) : Prop := s.lookup x = some t

/-- A replacement gives every bound variable the type it is bound to, with its own variables
replaced as well. -/
def RespectedBy (s : Substitution) (θ : Nat → Ty) : Prop :=
  ∀ x t, s.Binds x t → θ x = t.bind θ

theorem binds_cons {x y : Nat} {b t : Ty} {s : Substitution} :
    Binds ((x, b) :: s) y t ↔ (y = x ∧ b = t) ∨ (y ≠ x ∧ s.Binds y t) := by
  by_cases h : y = x
  · subst h
    simp [Binds]
  · have hb : (y == x) = false := by simpa using h
    simp [Binds, List.lookup_cons, hb, h]

theorem Binds.mem_keys {s : Substitution} {x : Nat} {t : Ty} (h : s.Binds x t) : x ∈ s.keys := by
  induction s with
  | nil => simp [Binds] at h
  | cons p s ih =>
    obtain ⟨y, b⟩ := p
    rcases binds_cons.1 h with ⟨rfl, -⟩ | ⟨-, h⟩
    · simp [keys]
    · have := ih h
      simp only [keys, List.map_cons, List.mem_cons]
      exact .inr this

theorem respectedBy_nil (θ : Nat → Ty) : RespectedBy [] θ := by
  intro x t h
  simp [Binds] at h

/-- A new binding is one more equation for a replacement that respects the bindings. -/
theorem respectedBy_cons {x : Nat} {b : Ty} {s : Substitution} {θ : Nat → Ty} (hx : x ∉ s.keys) :
    RespectedBy ((x, b) :: s) θ ↔ θ x = b.bind θ ∧ s.RespectedBy θ := by
  constructor
  · intro h
    refine ⟨h x b (binds_cons.2 (.inl ⟨rfl, rfl⟩)), fun y t hy => ?_⟩
    have hyx : y ≠ x := fun e => hx (e ▸ hy.mem_keys)
    exact h y t (binds_cons.2 (.inr ⟨hyx, hy⟩))
  · rintro ⟨hb, hs⟩ y t hy
    rcases binds_cons.1 hy with ⟨rfl, rfl⟩ | ⟨-, hy⟩
    · exact hb
    · exact hs y t hy

/-! ## Resolving all bindings -/

theorem apply_cons (x : Nat) (b : Ty) (s : Substitution) (t : Ty) :
    apply ((x, b) :: s) t = (s.apply t).bind fun y => if y = x then s.apply b else .var y := rfl

/-- Resolving all bindings replaces each variable by what it is resolved to. -/
theorem apply_eq_bind (s : Substitution) (t : Ty) :
    s.apply t = t.bind fun x => s.apply (.var x) := by
  induction s generalizing t with
  | nil => exact (bind_var t).symm
  | cons p s ih =>
    obtain ⟨x, b⟩ := p
    simp only [apply_cons]
    rw [ih t, bind_bind]

@[simp] theorem apply_base (s : Substitution) (b : Base) : s.apply (.base b) = .base b := by
  rw [apply_eq_bind, bind_base]

@[simp] theorem apply_absent (s : Substitution) : s.apply .absent = .absent := by
  rw [apply_eq_bind, bind_absent]

@[simp] theorem apply_pair (s : Substitution) (a d : Ty) :
    s.apply (.pair a d) = .pair (s.apply a) (s.apply d) := by
  rw [apply_eq_bind, bind_pair, ← apply_eq_bind, ← apply_eq_bind]

@[simp] theorem apply_proc (s : Substitution) (ps : List Ty) (r : Ty) :
    s.apply (.proc ps r) = .proc (ps.map s.apply) (s.apply r) := by
  rw [apply_eq_bind, bind_proc, ← apply_eq_bind]
  congr 1
  exact List.map_congr_left fun p _ => (apply_eq_bind s p).symm

theorem apply_var_of_not_mem_keys {s : Substitution} {x : Nat} (h : x ∉ s.keys) :
    s.apply (.var x) = .var x := by
  induction s with
  | nil => rfl
  | cons p s ih =>
    obtain ⟨y, b⟩ := p
    simp only [keys, List.map_cons, List.mem_cons, not_or] at h
    rw [apply_cons, ih h.2, bind_var_apply, if_neg h.1]

/-! ## The order of the bindings -/

/-- A substitution whose bindings were made one after the other: each for a variable that had none,
to a type that was resolved at its head and did not hold the variable. -/
inductive Triangular : Substitution → Prop
  | nil : Triangular []
  | cons {s : Substitution} {x : Nat} {b : Ty} :
      Triangular s → x ∉ s.keys → s.walk b = b → x ∉ (s.apply b).vars → Triangular ((x, b) :: s)

namespace Triangular

variable {s : Substitution} {θ : Nat → Ty}

/-- No bound variable is left once all bindings are resolved. -/
theorem not_mem_keys_of_mem_vars_apply (hs : s.Triangular) {t : Ty} {y : Nat}
    (hy : y ∈ (s.apply t).vars) : y ∉ s.keys := by
  induction hs generalizing t y with
  | nil => simp [keys]
  | @cons s x b _ _ _ hxb ih =>
    rw [apply_cons, mem_vars_bind] at hy
    obtain ⟨z, hz, hy⟩ := hy
    simp only [keys, List.map_cons, List.mem_cons, not_or]
    -- A variable that is left comes from the newest binding, or it was left before and is not `x`.
    by_cases hzx : z = x
    · rw [if_pos hzx] at hy
      exact ⟨fun e => hxb (e ▸ hy), ih hy⟩
    · rw [if_neg hzx] at hy
      have hyz : y = z := by simpa [vars] using hy
      subst hyz
      exact ⟨hzx, ih hz⟩

/-- A replacement that respects the bindings absorbs them. -/
theorem bind_apply (hs : s.Triangular) (hθ : s.RespectedBy θ) (t : Ty) :
    (s.apply t).bind θ = t.bind θ := by
  induction hs generalizing t with
  | nil => rfl
  | @cons s x b _ hx _ _ ih =>
    obtain ⟨hb, hθs⟩ := (respectedBy_cons hx).1 hθ
    rw [apply_cons, bind_bind, ← ih hθs t]
    refine bind_congr fun y _ => ?_
    by_cases hyx : y = x
    · rw [if_pos hyx, ih hθs, ← hb, hyx]
    · rw [if_neg hyx, bind_var_apply]

/-- Resolving all bindings respects them. -/
theorem respectedBy_apply (hs : s.Triangular) : s.RespectedBy fun x => s.apply (.var x) := by
  induction hs with
  | nil => exact respectedBy_nil _
  | @cons s x b hs hx _ hxb ih =>
    rw [respectedBy_cons hx]
    refine ⟨?_, fun y t hy => ?_⟩
    · -- The new variable becomes its resolved type, which the new binding leaves as it is.
      rw [← apply_eq_bind, apply_cons, apply_cons, apply_var_of_not_mem_keys hx, bind_var_apply,
        if_pos rfl]
      have hself : (s.apply b).bind .var = (s.apply b).bind fun y =>
          if y = x then s.apply b else .var y := by
        refine bind_congr fun y hy => ?_
        rw [if_neg fun e : y = x => hxb (e ▸ hy)]
      rw [← hself, bind_var]
    · -- An older binding stays an equation, since the newest one acts on both of its sides.
      have hy' := ih y t hy
      rw [← apply_eq_bind] at hy' ⊢
      simp only [apply_cons, hy']

/-- Resolving all bindings a second time changes nothing. -/
theorem apply_apply (hs : s.Triangular) (t : Ty) : s.apply (s.apply t) = s.apply t := by
  rw [apply_eq_bind s (s.apply t), hs.bind_apply hs.respectedBy_apply, ← apply_eq_bind]

end Triangular

/-! ## Resolving the head of a type -/

theorem walk_cons (x : Nat) (b : Ty) (s : Substitution) (t : Ty) :
    walk ((x, b) :: s) t = if s.walk t = .var x then b else s.walk t := by
  rw [walk]
  split
  · rename_i y hy
    rw [hy]
    by_cases h : y = x
    · rw [if_pos h, if_pos (by rw [h])]
    · rw [if_neg h, if_neg (by simpa using h)]
  · rename_i hy
    rw [if_neg fun e => hy x e]

/-- A type that is no variable is its own head. -/
theorem walk_of_ne_var (s : Substitution) {t : Ty} (ht : ∀ x, t ≠ .var x) : s.walk t = t := by
  induction s with
  | nil => rfl
  | cons p s ih =>
    obtain ⟨x, b⟩ := p
    rw [walk_cons, ih, if_neg (ht x)]

/-- The head of a type is the type itself or the type of a binding. -/
theorem walk_eq_self_or_mem (s : Substitution) (t : Ty) :
    s.walk t = t ∨ ∃ p ∈ s, s.walk t = p.2 := by
  induction s with
  | nil => exact .inl rfl
  | cons p s ih =>
    obtain ⟨x, b⟩ := p
    rw [walk_cons]
    split
    · exact .inr ⟨(x, b), by simp, rfl⟩
    · rcases ih with h | ⟨q, hq, h⟩
      · exact .inl h
      · exact .inr ⟨q, List.mem_cons_of_mem _ hq, h⟩

namespace Triangular

variable {s : Substitution} {θ : Nat → Ty}

/-- A replacement that respects the bindings does not tell a type from its head. -/
theorem bind_walk (hs : s.Triangular) (hθ : s.RespectedBy θ) (t : Ty) :
    (s.walk t).bind θ = t.bind θ := by
  induction hs generalizing t with
  | nil => rfl
  | @cons s x b _ hx _ _ ih =>
    obtain ⟨hb, hθs⟩ := (respectedBy_cons hx).1 hθ
    rw [walk_cons]
    split
    · rename_i h
      rw [← hb, ← ih hθs t, h, bind_var_apply]
    · exact ih hθs t

/-- A variable at the head of a type has no binding. -/
theorem not_mem_keys_of_walk_eq_var (hs : s.Triangular) {t : Ty} {y : Nat}
    (h : s.walk t = .var y) : y ∉ s.keys := by
  induction hs generalizing t with
  | nil => simp [keys]
  | @cons s x b _ _ hwb hxb ih =>
    rw [walk_cons] at h
    simp only [keys, List.map_cons, List.mem_cons, not_or]
    split at h
    · -- The new type is a variable: it is its own head under the older bindings.
      subst h
      have hy : y ∉ s.keys := ih hwb
      rw [apply_var_of_not_mem_keys hy] at hxb
      exact ⟨fun e => hxb (by simp [vars, e]), hy⟩
    · rename_i hne
      exact ⟨fun e => hne (by rw [h, e]), ih h⟩

/-- A type and its head are resolved to the same type. -/
theorem apply_walk (hs : s.Triangular) (t : Ty) : s.apply (s.walk t) = s.apply t := by
  rw [apply_eq_bind, hs.bind_walk hs.respectedBy_apply, ← apply_eq_bind]

/-- The head of a type is its own head. -/
theorem walk_walk (hs : s.Triangular) (t : Ty) : s.walk (s.walk t) = s.walk t := by
  by_cases hv : ∃ y, s.walk t = .var y
  · obtain ⟨y, hy⟩ := hv
    -- The head has no binding, so no binding of the list can move it.
    have hkeys := hs.not_mem_keys_of_walk_eq_var hy
    rw [hy]
    clear hy hs
    induction s with
    | nil => rfl
    | cons p s ih =>
      obtain ⟨x, b⟩ := p
      simp only [keys, List.map_cons, List.mem_cons, not_or] at hkeys
      rw [walk_cons, ih hkeys.2, if_neg (by simpa using hkeys.1)]
  · exact walk_of_ne_var s fun y hy => hv ⟨y, hy⟩

end Triangular

/-! ## More bindings -/

/-- Newer bindings leave the older ones as they are. -/
theorem Triangular.binds_of_suffix {s s' : Substitution} (hs' : s'.Triangular) (h : s <:+ s')
    {x : Nat} {t : Ty} (hb : s.Binds x t) : s'.Binds x t := by
  induction hs' with
  | nil =>
    rw [List.suffix_nil.1 h] at hb
    exact hb
  | @cons s' y c _ hy _ _ ih =>
    rcases List.suffix_cons_iff.1 h with rfl | h
    · exact hb
    · have hb' := ih h
      exact binds_cons.2 (.inr ⟨fun e => hy (e ▸ hb'.mem_keys), hb'⟩)

theorem Triangular.respectedBy_of_suffix {s s' : Substitution} (hs' : s'.Triangular)
    (h : s <:+ s') {θ : Nat → Ty} (hθ : s'.RespectedBy θ) : s.RespectedBy θ :=
  fun x t hb => hθ x t (hs'.binds_of_suffix h hb)

end TypedScheme.Substitution
