import TypedScheme.Proofs.Ty.Renaming
import TypedScheme.Scope

/-!
# The types in a scope

What a scope says about its names is all that typing ever asks of it. `Scope.Shows Q` says that every
type that a name can be looked up with has the property `Q`; it goes over to a scope with one more
frame if the new types have the property. A renaming of type variables acts on all types of a scope
and commutes with looking up a name.
-/

set_option autoImplicit false

namespace TypedScheme

/-- Bindings with the variables of their types renamed. -/
def Frame.rename (ρ : Nat → Nat) (f : Frame) : Frame := f.map fun p => (p.1, p.2.rename ρ)

namespace Scope

/-- The types in a scope, those of hidden names included. -/
def types (Γ : Scope) : List Ty := Γ.flatMap fun f => f.map (·.2)

/-- The type variables in a scope. -/
def typeVars (Γ : Scope) : List Nat := Γ.types.flatMap Ty.vars

/-- A scope with its type variables renamed. -/
def rename (ρ : Nat → Nat) (Γ : Scope) : Scope := Γ.map (Frame.rename ρ)

/-- Every type that a name can be looked up with has a property. -/
def Shows (Q : Ty → Prop) (Γ : Scope) : Prop := ∀ name t, Γ.lookup name = some t → Q t

variable {ρ : Nat → Nat} {Q : Ty → Prop} {Γ : Scope}

/-- The type variables of a scope are those of its types. -/
theorem mem_typeVars {x : Nat} : x ∈ Γ.typeVars ↔ ∃ t ∈ Γ.types, x ∈ t.vars := List.mem_flatMap

/-! ## Looking up names -/

theorem mem_of_frame_lookup {f : Frame} {name : String} {t : Ty} (h : f.lookup name = some t) :
    (name, t) ∈ f := by
  obtain ⟨before, after, rfl, -⟩ := List.lookup_eq_some_iff.1 h
  exact List.mem_append_right before List.mem_cons_self

/-- A name is found in the first frame, or in the scope behind it. -/
theorem lookup_cons_cases {f : Frame} {name : String} {t : Ty} (h : lookup (f :: Γ) name = some t) :
    (name, t) ∈ f ∨ Γ.lookup name = some t := by
  rw [lookup] at h
  split at h
  · rename_i u hu
    have hut : u = t := by simpa using h
    exact .inl (mem_of_frame_lookup (hut ▸ hu))
  · exact .inr h

/-- What is found under a name is a type of the scope. -/
theorem mem_types_of_lookup {name : String} {t : Ty} (h : Γ.lookup name = some t) :
    t ∈ Γ.types := by
  induction Γ with
  | nil => simp [lookup] at h
  | cons f Γ ih =>
    rw [types, List.flatMap_cons, List.mem_append]
    rcases lookup_cons_cases h with h | h
    · exact .inl (List.mem_map_of_mem (f := Prod.snd) h)
    · exact .inr (ih h)

/-- Extending a scope adds the types of the new bindings. -/
theorem mem_types_extend {bindings : List (String × Ty)} {t : Ty} :
    t ∈ (Γ.extend bindings).types ↔ (∃ p ∈ bindings, p.2 = t) ∨ t ∈ Γ.types := by
  simp [extend, types, Frame.ofBindings]

/-- A scope shows a property if all its types have it, also those that no name leads to. -/
theorem shows_of_forall_mem_types (h : ∀ t ∈ Γ.types, Q t) : Γ.Shows Q :=
  fun _ t ht => h t (mem_types_of_lookup ht)

/-- A new frame whose types have a property keeps it for the whole scope. -/
theorem Shows.extend (h : Γ.Shows Q) {bindings : List (String × Ty)}
    (hb : ∀ p ∈ bindings, Q p.2) : (Γ.extend bindings).Shows Q := by
  intro name t ht
  rcases lookup_cons_cases ht with ht | ht
  · exact hb (name, t) (by simpa [Frame.ofBindings] using ht)
  · exact h name t ht

/-! ## Renaming -/

/-- Extending a scope commutes with renaming. -/
theorem rename_extend (bindings : List (String × Ty)) :
    (Γ.extend bindings).rename ρ = (Γ.rename ρ).extend (Frame.rename ρ bindings) := by
  simp [extend, rename, Frame.rename, Frame.ofBindings]

theorem frame_lookup_rename (f : Frame) (name : String) :
    (Frame.rename ρ f).lookup name = (f.lookup name).map (Ty.rename ρ) := by
  induction f with
  | nil => rfl
  | cons p f ih =>
    rw [Frame.rename, List.map_cons, List.lookup_cons, List.lookup_cons]
    split
    · rfl
    · exact ih

/-- A name has the renamed type in a renamed scope. -/
theorem lookup_rename (Γ : Scope) (name : String) :
    (Γ.rename ρ).lookup name = (Γ.lookup name).map (Ty.rename ρ) := by
  induction Γ with
  | nil => rfl
  | cons f Γ ih =>
    rw [rename, List.map_cons, lookup, lookup, frame_lookup_rename]
    cases f.lookup name with
    | some t => rfl
    | none => exact ih

/-- Renamings that agree on the types of a scope give the same scope. -/
theorem rename_congr {ρ' : Nat → Nat} (h : ∀ t ∈ Γ.types, t.rename ρ = t.rename ρ') :
    Γ.rename ρ = Γ.rename ρ' := by
  refine List.map_congr_left fun f hf => List.map_congr_left fun p hp => ?_
  have hp' : p.2 ∈ Γ.types := List.mem_flatMap.2 ⟨f, hf, List.mem_map_of_mem hp⟩
  rw [h p.2 hp']

/-- A scope whose type variables all stay is renamed to itself. -/
theorem rename_eq_self (h : ∀ t ∈ Γ.types, ∀ x ∈ t.vars, ρ x = x) : Γ.rename ρ = Γ := by
  have hframe : Frame.rename id = id := funext fun f => by simp [Frame.rename]
  have hcongr : ∀ t ∈ Γ.types, t.rename ρ = t.rename id := fun t ht => Ty.rename_congr (h t ht)
  rw [rename_congr hcongr, rename, hframe, List.map_id]

theorem types_rename (Γ : Scope) : (Γ.rename ρ).types = Γ.types.map (Ty.rename ρ) := by
  simp [types, rename, Frame.rename, List.flatMap_map, List.map_flatMap, Function.comp_def]

theorem typeVars_rename (Γ : Scope) : (Γ.rename ρ).typeVars = Γ.typeVars.map ρ := by
  rw [typeVars, typeVars, types_rename, List.flatMap_map, List.map_flatMap]
  simp only [Ty.vars_rename]

end Scope

end TypedScheme
