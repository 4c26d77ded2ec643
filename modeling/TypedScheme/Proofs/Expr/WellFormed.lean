import TypedScheme.Proofs.Expr.Grammar
import TypedScheme.Proofs.Ty.Bind
import TypedScheme.Proofs.Typing.Signatures

/-!
# What the parser makes

Every form inside a parsed expression is proper: it binds each of its names once and no keyword, every
name it binds has a type unless the form is recursive, no part of a type or of a quoted value is
absent, and a primitive operator has a signature.

## What this module delivers

- `Expr.Inside f e`: the form `f` is `e` or stands inside it.
- `Expr.Proper`, what one form must satisfy by itself, and `Expr.WellFormed`, the same for all forms
  inside.
- `Expr.Reads.wellFormed`: an expression that the grammar derives is well formed.
-/

set_option autoImplicit false

namespace TypedScheme

/-! ## Forms inside forms -/

namespace Expr

/-- The forms that a form consists of. -/
def children : Expr → List Expr
  | missing | number _ _ | boolean _ _ | string _ _ | quoted _ _ _ | primitive _ | var _ => []
  | cond _ test consequent alternative => [test, consequent, alternative]
  | lambda _ _ _ body => body
  | app _ operator operands => operator :: operands
  | letin _ bindings body => bindings.map (·.2) ++ body
  | letrec _ bindings body => bindings.map (·.2) ++ body
  | define _ _ value => [value]
  | program forms => forms

/-- The first form is the second or stands inside it. -/
inductive Inside (f : Expr) : Expr → Prop
  | refl : Inside f f
  | child {c e : Expr} : c ∈ e.children → Inside f c → Inside f e

/-- What is inside of a part is inside of the whole. -/
theorem Inside.trans {f g e : Expr} (hfg : Inside f g) (hge : Inside g e) : Inside f e := by
  induction hge with
  | refl => exact hfg
  | child hc _ ih => exact .child hc ih

theorem Inside.of_mem_children {c f e : Expr} (hc : c ∈ f.children) (hf : Inside f e) :
    Inside c e :=
  (Inside.child hc .refl).trans hf

/-- The body of a form that has one. -/
def body? : Expr → Option (List Expr)
  | lambda _ _ _ body => some body
  | letin _ _ body => some body
  | letrec _ _ body => some body
  | _ => none

/-- Whether a form is a procedure. -/
def isLambda : Expr → Bool
  | lambda _ _ _ _ => true
  | _ => false

end Expr

/-! ## Proper forms -/

/-- Whether all parts of a value are there. -/
def Value.isComplete : Value → Bool
  | missing => false
  | pair a d => a.isComplete && d.isComplete
  | _ => true

/-- A declaration of a name that is no keyword, with a type if it must have one, and no part of the
type absent. -/
structure Decl.IsProper (typed : Bool) (decl : Decl) : Prop where
  name : Expr.IsName decl.token
  typed : typed → decl.ty? ≠ none
  whole : ∀ t, decl.ty? = some t → t.isWhole = true

/-- A declaration that must have a type binds its name to a whole one. -/
theorem Decl.IsProper.isWhole_boundType {decl : Decl} (h : decl.IsProper true) :
    decl.boundType.isWhole = true := by
  unfold Decl.boundType
  cases ht : decl.ty? with
  | none => exact absurd ht (h.typed rfl)
  | some t => exact h.whole t ht

namespace Expr

/-- Bindings of different names, each of them proper. -/
def ProperBindings (typed : Bool) (bindings : List (Decl × Expr)) : Prop :=
  (bindings.map (·.1.name)).Nodup ∧ ∀ b ∈ bindings, b.1.IsProper typed

/-- What a form must satisfy apart from the forms inside it. -/
def Proper : Expr → Prop
  | missing => False
  | number _ _ | boolean _ _ | string _ _ | cond _ _ _ _ | app _ _ _ => True
  | quoted _ value _ => value.isComplete = true
  | primitive token => Primitive.IsImplemented token.text
  | var token => IsName token
  | lambda _ params result _ =>
    (params.map Param.name).Nodup ∧ (∀ p ∈ params, p.decl.IsProper true) ∧ result.isWhole = true
  | letin _ bindings _ => ProperBindings true bindings
  | letrec _ bindings _ => ProperBindings false bindings
  | define _ decl _ => decl.IsProper true
  | program _ => False

/-- Every form inside a form is proper. -/
def WellFormed (e : Expr) : Prop := ∀ f, Inside f e → f.Proper

/-- An expression is well-formed if its own form is proper and its children are well-formed. -/
theorem wellFormed_iff {e : Expr} : e.WellFormed ↔ e.Proper ∧ ∀ c ∈ e.children, c.WellFormed := by
  constructor
  · exact fun h => ⟨h e .refl, fun c hc f hf => h f (.child hc hf)⟩
  · rintro ⟨he, hchildren⟩ f hf
    cases hf with
    | refl => exact he
    | child hc hf => exact hchildren _ hc f hf

end Expr

/-! ## What the grammar derives -/

namespace Ty

mutual

/-- A type that is read from a datum is whole: nothing in it is absent. -/
theorem Spelled.isWhole {n n' : Numbering} {d : Datum} {t : Ty} : Spelled n d t n' → t.isWhole = true
  | .base _ _ => rfl
  | .var _ _ _ => rfl
  | .pair _ ha hd => isWhole_pair.2 ⟨ha.isWhole, hd.isWhole⟩
  | .proc _ hd hparams => isWhole_proc.2 ⟨hparams.isWhole, hd.isWhole⟩

theorem Params.isWhole {n n' : Numbering} {ds : List Datum} {ts : List Ty} :
    Params n ds ts n' → ∀ t ∈ ts, t.isWhole = true
  | .nil | .empty _ => by simp
  | .cons _ ht hts => List.forall_mem_cons.2 ⟨ht.isWhole, hts.isWhole⟩

theorem Starred.isWhole {n n' : Numbering} {ds : List Datum} {ts : List Ty} :
    Starred n ds ts n' → ∀ t ∈ ts, t.isWhole = true
  | .nil => by simp
  | .cons _ ht hts => List.forall_mem_cons.2 ⟨ht.isWhole, hts.isWhole⟩

end

end Ty

namespace Value

/-- Complete values in front of a complete one make a complete value. -/
theorem isComplete_onto {vs : List Value} {last : Value} (hvs : ∀ v ∈ vs, v.isComplete = true)
    (hlast : last.isComplete = true) : (onto vs last).isComplete = true := by
  induction vs with
  | nil => exact hlast
  | cons v vs ih =>
    obtain ⟨hv, hvs⟩ := List.forall_mem_cons.1 hvs
    exact (Bool.and_eq_true _ _).mpr ⟨hv, ih hvs⟩

theorem DenotedAtom.isComplete {t : Token} {v : Value} (h : DenotedAtom t v) :
    v.isComplete = true := by
  cases h <;> rfl

mutual

/-- A datum denotes a complete value: nothing in it is missing. -/
theorem Denoted.isComplete {d : Datum} {v : Value} : Denoted d v → v.isComplete = true
  | .atom h => h.isComplete
  | .quoted h => isComplete_onto (by simp [Value.isComplete, h.isComplete]) rfl
  | .list h => isComplete_onto h.isComplete rfl
  | .dotted h hlast => isComplete_onto h.isComplete hlast.isComplete

theorem DenotedAll.isComplete {ds : List Datum} {vs : List Value} :
    DenotedAll ds vs → ∀ v ∈ vs, v.isComplete = true
  | .nil => by simp
  | .cons h hs => List.forall_mem_cons.2 ⟨h.isComplete, hs.isComplete⟩

end

end Value

namespace Expr

/-- Names that differ from each other and from those seen before. -/
def Apart (seen names : List String) : Prop := names.Nodup ∧ ∀ name ∈ names, name ∉ seen

/-- A name that has not been seen is put in front of names that are apart from it. -/
theorem Apart.cons {seen names : List String} {name : String} (hname : name ∉ seen)
    (h : Apart (name :: seen) names) : Apart seen (name :: names) := by
  obtain ⟨hnodup, hnew⟩ := h
  refine ⟨List.nodup_cons.2 ⟨fun hmem => hnew name hmem List.mem_cons_self, hnodup⟩, ?_⟩
  refine List.forall_mem_cons.2 ⟨hname, fun other hother hold => ?_⟩
  exact hnew other hother (List.mem_cons_of_mem name hold)

/-- A parameter that has been read declares its type. -/
theorem ReadsParam.isProper {n n' : Numbering} {d : Datum} {p : Param} (h : ReadsParam n d p n') :
    p.decl.IsProper true := by
  cases h with
  | mk hname _ ht =>
    refine ⟨hname, fun _ => Option.some_ne_none _, fun u hu => ?_⟩
    cases hu
    exact ht.isWhole

theorem ReadsParams.isProper {seen : List String} {n n' : Numbering} {ds : List Datum}
    {ps : List Param} (h : ReadsParams seen n ds ps n') : ∀ p ∈ ps, p.decl.IsProper true := by
  induction h with
  | nil => simp
  | cons hp _ _ ih => exact List.forall_mem_cons.2 ⟨hp.isProper, ih⟩

/-- The parameters of a procedure have different names. -/
theorem ReadsParams.apart {seen : List String} {n n' : Numbering} {ds : List Datum}
    {ps : List Param} (h : ReadsParams seen n ds ps n') : Apart seen (ps.map Param.name) := by
  induction h with
  | nil => exact ⟨List.nodup_nil, by simp⟩
  | cons _ hseen _ ih => exact .cons hseen ih

/-- A declaration that has been read has a type, unless it may do without. -/
theorem ReadsDecl.isProper {untyped : Bool} {k k' : Nat} {ds : List Datum} {decl : Decl}
    (h : ReadsDecl untyped k ds decl k') : decl.IsProper (!untyped) := by
  cases h with
  | bare hname => exact ⟨hname, fun h => by simp at h, fun t ht => by simp at ht⟩
  | enclosed hp => exact ⟨hp.isProper.name, fun _ => hp.isProper.typed rfl, hp.isProper.whole⟩
  | inline hname _ ht =>
    refine ⟨hname, fun _ => Option.some_ne_none _, fun u hu => ?_⟩
    cases hu
    exact ht.isWhole

/-- The bindings of one form have different names. -/
theorem ReadsBindings.apart {recursive : Bool} {seen : List String} {k k' : Nat} {ds : List Datum}
    {bs : List (Decl × Expr)} :
    ReadsBindings recursive seen k ds bs k' → Apart seen (bs.map (·.1.name)) := by
  induction bs generalizing seen k ds with
  | nil => exact fun _ => ⟨List.nodup_nil, by simp⟩
  | cons b bs ih =>
    intro h
    cases h with
    | cons _ _ hseen hrest => exact .cons hseen (ih hrest)

/-- What an atom is read as is well-formed. -/
theorem ReadsAtom.wellFormed {t : Token} {e : Expr} (h : ReadsAtom t e) : e.WellFormed := by
  rw [wellFormed_iff]
  cases h with
  | number | boolean | string => exact ⟨trivial, by simp [children]⟩
  | primitive _ hprimitive =>
    exact ⟨Primitive.isImplemented_of_isPrimitive hprimitive, by simp [children]⟩
  | var hname _ => exact ⟨hname, by simp [children]⟩

/-- The bindings of a form and its body are all there is inside it. -/
theorem wellFormed_children {bs : List (Decl × Expr)} {es : List Expr}
    (hbs : ∀ b ∈ bs, b.2.WellFormed) (hes : ∀ e ∈ es, e.WellFormed) :
    ∀ c ∈ bs.map (·.2) ++ es, c.WellFormed := by
  intro c hc
  rcases List.mem_append.1 hc with hc | hc
  · obtain ⟨b, hb, rfl⟩ := List.mem_map.1 hc
    exact hbs b hb
  · exact hes c hc

mutual

/-- An expression that the grammar derives is well formed. -/
theorem Reads.wellFormed {k k' : Nat} {d : Datum} {e : Expr} : Reads k d e k' → e.WellFormed
  | .atom h => h.wellFormed
  | .quoted h | .quoteForm _ h => wellFormed_iff.2 ⟨h.isComplete, by simp [children]⟩
  | .cond _ ha hb hc =>
    wellFormed_iff.2 ⟨trivial, by simp [children, ha.wellFormed, hb.wellFormed, hc.wellFormed]⟩
  | .lambda _ _ hparams hresult hbody =>
    wellFormed_iff.2 ⟨⟨hparams.apart.1, hparams.isProper, hresult.isWhole⟩, hbody.wellFormed⟩
  | .app _ hf hes =>
    wellFormed_iff.2 ⟨trivial, List.forall_mem_cons.2 ⟨hf.wellFormed, hes.wellFormed⟩⟩
  | @Reads.letForm recursive _ _ _ _ _ _ _ _ _ _ bindings _ _ hbindings hbody => by
    have hproper := hbindings.wellFormed
    have hchildren := wellFormed_children (fun b hb => (hproper b hb).2) hbody.wellFormed
    cases recursive with
    | false =>
      exact wellFormed_iff.2 ⟨⟨hbindings.apart.1, fun b hb => (hproper b hb).1⟩, hchildren⟩
    | true =>
      exact wellFormed_iff.2 ⟨⟨hbindings.apart.1, fun b hb => (hproper b hb).1⟩, hchildren⟩
  | .define _ hdecl hvalue =>
    wellFormed_iff.2 ⟨hdecl.isProper, by simp [children, hvalue.wellFormed]⟩

theorem ReadsAll.wellFormed {k k' : Nat} {ds : List Datum} {es : List Expr} :
    ReadsAll k ds es k' → ∀ e ∈ es, e.WellFormed
  | .nil => by simp
  | .cons he hes => List.forall_mem_cons.2 ⟨he.wellFormed, hes.wellFormed⟩

/-- The values of bindings are well-formed, and their declarations proper. -/
theorem ReadsBindings.wellFormed {recursive : Bool} {seen : List String} {k k' : Nat}
    {ds : List Datum} {bs : List (Decl × Expr)} :
    ReadsBindings recursive seen k ds bs k' →
      ∀ b ∈ bs, b.1.IsProper (!recursive) ∧ b.2.WellFormed
  | .nil => by simp
  | .cons hdecl hvalue _ hrest =>
    List.forall_mem_cons.2 ⟨⟨hdecl.isProper, hvalue.wellFormed⟩, hrest.wellFormed⟩

end

end Expr

end TypedScheme
