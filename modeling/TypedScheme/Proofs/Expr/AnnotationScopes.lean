import TypedScheme.Proofs.Expr.Annotations
import TypedScheme.Proofs.Expr.Grammar
import TypedScheme.Proofs.Ty.Denotation

/-!
# The scope of annotation variables

A name in an annotation is a type variable that is shared within one signature only. The annotations of
the parameters and of the result of a procedure are one signature, and every other annotation is one by
itself. The signatures are found in the data of a text and in the expression that is read from them, in
the same order, and the names in the one are compared with the numbers in the other.

## What this module delivers

- `Datum.signatures` and `Expr.signatures`, the signatures of a datum and of an expression.
- `Expr.Scoped k S T k'`: the signatures `S` are read as the signatures `T`, each with a table of its own
  that starts after the numbers of those before it.
- `Expr.Reads.scoped`: all that is read is scoped.
- `Program.parse_scoped`: in a program, two names stand for the same type variable exactly if they are
  the same name in the same signature.
-/

set_option autoImplicit false

namespace TypedScheme

/-! ## Signatures in data -/

namespace Datum

/-- The type in a declaration `(name : type)`. -/
def annotation? : Datum → Option Datum
  | list _ [_, _, ty] _ => some ty
  | _ => none

mutual

/-- The signatures in an expression, each with its annotations. -/
def signatures : Datum → List (List Datum)
  | list _ ds _ =>
    match Expr.headKeyword? ds with
    | some .lambda => lambdaSignatures ds
    | some .letin | some .letrec => letSignatures ds
    | some .define => defineSignatures ds
    | some .quote => []
    | some .cond | none => signaturesAll ds
  | atom _ => []
  | quoted _ _ => []
  | dotted _ _ _ _ _ => []

/-- The signatures in expressions. -/
def signaturesAll : List Datum → List (List Datum)
  | [] => []
  | d :: ds => signatures d ++ signaturesAll ds

/-- The signatures in a procedure: its own, which holds the types of its parameters and of its result,
and those in its body. -/
def lambdaSignatures : List Datum → List (List Datum)
  | _ :: list _ params _ :: _ :: result :: body =>
    (params.filterMap annotation? ++ [result]) :: signaturesAll body
  | _ => []

/-- The signatures in a binding form. -/
def letSignatures : List Datum → List (List Datum)
  | _ :: list _ bindings _ :: body => bindingSignatures bindings ++ signaturesAll body
  | _ => []

/-- The signatures in bindings. -/
def bindingSignatures : List Datum → List (List Datum)
  | list _ ds _ :: rest => boundSignatures ds ++ bindingSignatures rest
  | _ => []

/-- The signatures in a definition. -/
def defineSignatures : List Datum → List (List Datum)
  | _ :: ds => boundSignatures ds
  | [] => []

/-- The signatures in a declaration, which has one of its own if it has a type, and in its value. -/
def boundSignatures : List Datum → List (List Datum)
  | [decl, value] => (annotation? decl).toList.map ([·]) ++ signatures value
  | [_, _, ty, value] => [ty] :: signatures value
  | _ => []

end

end Datum

open Datum

namespace Numbering

theorem Extends.within {k : Nat} {n m : Numbering} (h : n.Extends m) (hn : n.Within k) :
    m.Within k := by
  induction h with
  | refl => exact hn
  | assign name _ ih => exact (ih.assign name).1

/-- A name that is found stands for a number after `k`. -/
theorem Within.lt_of_lookup {k : Nat} {n : Numbering} (h : n.Within k) {name : String} {x : Nat}
    (hx : n.names.lookup name = some x) : k < x := by
  obtain ⟨before, after, heq, -⟩ := List.lookup_eq_some_iff.1 hx
  exact (h.2 (name, x) (by simp [heq])).1

end Numbering

namespace Ty

/-- The table gives every name in a signature the variable at the same place of its types. -/
theorem map_lookup_of_forall₂ {names : List (String × Nat)} {ds : List Datum} {ts : List Ty}
    (h : List.Forall₂ (Denotes names) ds ts) :
    (typeNamesAll ds).map (names.lookup ·) = (varsAll ts).map some := by
  induction h with
  | nil => rfl
  | cons hd _ ih =>
    rw [typeNamesAll, varsAll, List.map_append, List.map_append, hd.map_lookup, ih]

theorem flatMap_varsAll (T : List (List Ty)) : T.flatMap varsAll = T.flatten.flatMap vars := by
  have hvarsAll (ts : List Ty) : varsAll ts = ts.flatMap vars := by
    induction ts with
    | nil => rfl
    | cons t ts ih => rw [varsAll, ih, List.flatMap_cons]
  induction T with
  | nil => rfl
  | cons ts T ih => rw [List.flatMap_cons, hvarsAll, ih, List.flatten_cons, List.flatMap_append]

end Ty

/-! ## Signatures in expressions -/

namespace Expr

mutual

/-- The signatures in an expression, each with its types. -/
def signatures : Expr → List (List Ty)
  | missing => []
  | number _ _ => []
  | boolean _ _ => []
  | string _ _ => []
  | quoted _ _ _ => []
  | primitive _ => []
  | var _ => []
  | cond _ test consequent alternative =>
    signatures test ++ signatures consequent ++ signatures alternative
  | lambda _ params result body => (params.map (·.ty) ++ [result]) :: signaturesAll body
  | app _ operator operands => signatures operator ++ signaturesAll operands
  | letin _ bindings body => signaturesBound bindings ++ signaturesAll body
  | letrec _ bindings body => signaturesBound bindings ++ signaturesAll body
  | define _ decl value => decl.ty?.toList.map ([·]) ++ signatures value
  | program forms => signaturesAll forms

/-- The signatures in expressions. -/
def signaturesAll : List Expr → List (List Ty)
  | [] => []
  | e :: es => signatures e ++ signaturesAll es

/-- The signatures in bindings. -/
def signaturesBound : List (Decl × Expr) → List (List Ty)
  | [] => []
  | (decl, value) :: rest => decl.ty?.toList.map ([·]) ++ signatures value ++ signaturesBound rest

end

mutual

/-- The types of all signatures are the types that an expression carries. -/
theorem flatten_signatures (e : Expr) : e.signatures.flatten = e.annotations := by
  cases e with
  | missing | number | boolean | string | quoted | primitive | var => rfl
  | cond s test consequent alternative =>
    rw [signatures, annotations, List.flatten_append, List.flatten_append, flatten_signatures test,
      flatten_signatures consequent, flatten_signatures alternative]
  | lambda s params result body =>
    rw [signatures, annotations, List.flatten_cons, flatten_signaturesAll body]
  | app s operator operands =>
    rw [signatures, annotations, List.flatten_append, flatten_signatures operator,
      flatten_signaturesAll operands]
  | letin s bindings body | letrec s bindings body =>
    rw [signatures, annotations, List.flatten_append, flatten_signaturesBound bindings,
      flatten_signaturesAll body]
  | define s decl value =>
    rw [signatures, annotations, List.flatten_append, ← List.flatMap_def,
      List.flatMap_singleton', flatten_signatures value]
  | program forms => rw [signatures, annotations, flatten_signaturesAll forms]

theorem flatten_signaturesAll (es : List Expr) : (signaturesAll es).flatten = annotationsAll es := by
  cases es with
  | nil => rfl
  | cons e es =>
    rw [signaturesAll, annotationsAll, List.flatten_append, flatten_signatures e,
      flatten_signaturesAll es]

theorem flatten_signaturesBound (bs : List (Decl × Expr)) :
    (signaturesBound bs).flatten = annotationsBound bs := by
  cases bs with
  | nil => rfl
  | cons b bs =>
    rw [signaturesBound, annotationsBound, List.flatten_append, List.flatten_append,
      ← List.flatMap_def, List.flatMap_singleton', flatten_signatures b.2,
      flatten_signaturesBound bs]

end

/-! ## What is read is scoped -/

/-- A signature is read with a table of its own, which starts without names after the number `k` and
ends with the number `k'`. -/
def Signed (k : Nat) (ds : List Datum) (ts : List Ty) (k' : Nat) : Prop :=
  ∃ names, Numbering.Extends ⟨k, []⟩ ⟨k', names⟩ ∧ List.Forall₂ (Ty.Denotes names) ds ts

/-- Signatures are read one after the other. -/
inductive Scoped : Nat → List (List Datum) → List (List Ty) → Nat → Prop
  | nil {k : Nat} : Scoped k [] [] k
  | cons {k k₁ k₂ : Nat} {ds : List Datum} {ts : List Ty} {S : List (List Datum)}
      {T : List (List Ty)} :
      Signed k ds ts k₁ → Scoped k₁ S T k₂ → Scoped k (ds :: S) (ts :: T) k₂

/-- Signatures in two parts are read one part after the other. -/
theorem Scoped.append {k k₁ k₂ : Nat} {S S' : List (List Datum)} {T T' : List (List Ty)}
    (h : Scoped k S T k₁) (h' : Scoped k₁ S' T' k₂) : Scoped k (S ++ S') (T ++ T') k₂ := by
  induction h with
  | nil => exact h'
  | cons hsigned _ ih => exact .cons hsigned (ih h')

/-- Read signatures have a table each. -/
theorem Scoped.denotes {k k' : Nat} {S : List (List Datum)} {T : List (List Ty)}
    (h : Scoped k S T k') :
    List.Forall₂ (fun ds ts => ∃ names, List.Forall₂ (Ty.Denotes names) ds ts) S T := by
  induction h with
  | nil => exact .nil
  | cons hsigned _ ih =>
    obtain ⟨names, -, hdenotes⟩ := hsigned
    exact .cons ⟨names, hdenotes⟩ ih

theorem ReadsParam.extends {n n' : Numbering} {d : Datum} {p : Param} (h : ReadsParam n d p n') :
    n.Extends n' := by
  cases h with
  | mk _ _ ht => exact ht.extends

/-- Reading parameters adds to the names of a signature and changes none. -/
theorem ReadsParams.extends {seen : List String} {n n' : Numbering} {ds : List Datum}
    {ps : List Param} (h : ReadsParams seen n ds ps n') : n.Extends n' := by
  induction h with
  | nil => exact .refl
  | cons hp _ _ ih => exact hp.extends.trans ih

/-- The annotations of parameters are denoted by every table that the reader comes to afterwards. -/
theorem ReadsParams.denotes {seen : List String} {n n' m : Numbering} {ds : List Datum}
    {ps : List Param} (h : ReadsParams seen n ds ps n') (hm : n'.Extends m) :
    List.Forall₂ (Ty.Denotes m.names) (ds.filterMap annotation?) (ps.map (·.ty)) := by
  induction h with
  | nil => exact .nil
  | cons hp _ hps ih =>
    have hextends := hps.extends.trans hm
    cases hp with
    | mk _ _ ht => exact .cons (ht.denotes hextends) (ih hm)

/-- A type by itself is a signature of its own. -/
theorem signed_singleton {k : Nat} {n : Numbering} {d : Datum} {t : Ty}
    (h : Ty.Spelled ⟨k, []⟩ d t n) : Signed k [d] [t] n.last :=
  ⟨n.names, h.extends, .cons (h.denotes .refl) .nil⟩

/-- A declaration has a signature of its own, before those of its value. -/
theorem ReadsDecl.scoped {untyped : Bool} {k k₁ k₂ : Nat} {ds : List Datum} {d : Datum} {decl : Decl}
    {T : List (List Ty)} (h : ReadsDecl untyped k ds decl k₁) (hvalue : Scoped k₁ d.signatures T k₂) :
    Scoped k (boundSignatures (ds ++ [d])) (decl.ty?.toList.map ([·]) ++ T) k₂ := by
  cases h with
  | bare => exact hvalue
  | enclosed hp =>
    cases hp with
    | mk _ _ ht => exact .cons (signed_singleton ht) hvalue
  | inline _ _ ht => exact .cons (signed_singleton ht) hvalue

theorem signatures_of_headKeyword? {d : Datum} {keyword : Keyword}
    (h : headKeyword? [d] = some keyword) : d.signatures = [] := by
  cases d with
  | atom t => rfl
  | quoted | list | dotted => cases h

mutual

/-- The signatures of a datum are read as the signatures of the expression. -/
theorem Reads.scoped {k k' : Nat} {d : Datum} {e : Expr} :
    Reads k d e k' → Scoped k d.signatures e.signatures k'
  | .atom h => by
    cases h <;> exact .nil
  | .quoted _ => .nil
  | .quoteForm hhead _ => by
    rw [Datum.signatures, headKeyword?_cons, hhead]
    exact .nil
  | .cond hhead ha hb hc => by
    rw [Datum.signatures, headKeyword?_cons, hhead]
    -- The keyword is one of the data, but it has no signatures.
    change Scoped k (Datum.signaturesAll _) _ k'
    rw [Datum.signaturesAll, signatures_of_headKeyword? hhead, Datum.signaturesAll,
      Datum.signaturesAll, Datum.signaturesAll, Datum.signaturesAll, List.append_nil,
      List.nil_append, ← List.append_assoc]
    exact (ha.scoped.append hb.scoped).append hc.scoped
  | .lambda hhead _ hparams hresult hbody => by
    rw [Datum.signatures, headKeyword?_cons, hhead]
    -- One table for the parameters and the result: the one that the reader has after the result.
    refine .cons ⟨_, hparams.extends.trans hresult.extends, ?_⟩ hbody.scoped
    exact List.rel_append (hparams.denotes hresult.extends) (.cons (hresult.denotes .refl) .nil)
  | .app hhead hf hes => by
    rw [Datum.signatures, headKeyword?_cons, hhead]
    exact hf.scoped.append hes.scoped
  | @Reads.letForm recursive _ _ _ _ _ _ _ _ _ _ bindings es hhead hbindings hbody => by
    rw [Datum.signatures, headKeyword?_cons, hhead]
    have hscoped := hbindings.scoped.append hbody.scoped
    cases recursive with
    | false => exact hscoped
    | true => exact hscoped
  | .define hhead hdecl hvalue => by
    rw [Datum.signatures, headKeyword?_cons, hhead]
    exact hdecl.scoped hvalue.scoped

theorem ReadsAll.scoped {k k' : Nat} {ds : List Datum} {es : List Expr} :
    ReadsAll k ds es k' → Scoped k (Datum.signaturesAll ds) (signaturesAll es) k'
  | .nil => .nil
  | .cons he hes => he.scoped.append hes.scoped

theorem ReadsBindings.scoped {recursive : Bool} {seen : List String} {k k' : Nat} {ds : List Datum}
    {bs : List (Decl × Expr)} :
    ReadsBindings recursive seen k ds bs k' →
      Scoped k (Datum.bindingSignatures ds) (signaturesBound bs) k'
  | .nil => .nil
  | .cons hdecl hvalue _ hrest => (hdecl.scoped hvalue.scoped).append hrest.scoped

end

end Expr

/-! ## Occurrences of type variables -/

/-- A name in a text that stands for a type variable: the signature it is in, the name, and the number
of the variable. -/
structure TypeOccurrence where
  signature : Nat
  name : String
  id : Nat
  deriving DecidableEq, Repr

namespace TypeOccurrence

/-- The names in signatures, counted from `i` on, with the variables at the same places. -/
def allFrom (i : Nat) : List (List Datum) → List (List Ty) → List TypeOccurrence
  | ds :: S, ts :: T =>
    List.zipWith (mk i) (typeNamesAll ds) (Ty.varsAll ts) ++ allFrom (i + 1) S T
  | _, _ => []

variable {i k k' : Nat} {S : List (List Datum)} {T : List (List Ty)}

theorem of_mem_zipWith {names : List (String × Nat)} {xs : List String} {ids : List Nat}
    {o : TypeOccurrence} (h : xs.map (names.lookup ·) = ids.map some)
    (ho : o ∈ List.zipWith (mk i) xs ids) : o.signature = i ∧ names.lookup o.name = some o.id := by
  induction xs generalizing ids with
  | nil => cases ho
  | cons x xs ih =>
    cases ids with
    | nil => cases ho
    | cons id ids =>
      obtain ⟨hx, hxs⟩ := List.cons.inj h
      rcases List.mem_cons.1 ho with rfl | ho
      · exact ⟨rfl, hx⟩
      · exact ih hxs ho

theorem map_zipWith {names : List (String × Nat)} {xs : List String} {ids : List Nat}
    (h : xs.map (names.lookup ·) = ids.map some) :
    (List.zipWith (mk i) xs ids).map (·.name) = xs ∧
      (List.zipWith (mk i) xs ids).map (·.id) = ids := by
  induction xs generalizing ids with
  | nil =>
    cases ids with
    | nil => exact ⟨rfl, rfl⟩
    | cons id ids => cases h
  | cons x xs ih =>
    cases ids with
    | nil => cases h
    | cons id ids =>
      obtain ⟨-, hxs⟩ := List.cons.inj h
      obtain ⟨hnames, hids⟩ := ih hxs
      rw [List.zipWith_cons_cons, List.map_cons, List.map_cons, hnames, hids]
      exact ⟨rfl, rfl⟩

/-- Every name in the signatures of a text occurs, and so does every variable of its types. -/
theorem map_allFrom (h : Expr.Scoped k S T k') (i : Nat) :
    (allFrom i S T).map (·.name) = S.flatMap typeNamesAll ∧
      (allFrom i S T).map (·.id) = T.flatMap Ty.varsAll := by
  induction h generalizing i with
  | nil => exact ⟨rfl, rfl⟩
  | cons hsigned _ ih =>
    obtain ⟨names, -, hdenotes⟩ := hsigned
    obtain ⟨hnames, hids⟩ := map_zipWith (i := i) (Ty.map_lookup_of_forall₂ hdenotes)
    obtain ⟨hnames', hids'⟩ := ih (i + 1)
    rw [allFrom, List.map_append, List.map_append, hnames, hids, hnames', hids']
    exact ⟨rfl, rfl⟩

/-- The occurrences in a signature have the numbers that its table gives out. -/
theorem exists_table {ds : List Datum} {ts : List Ty} (h : Expr.Signed k ds ts k') :
    ∃ n : Numbering, n.Faithful ∧ n.Within k ∧ n.last = k' ∧
      ∀ o ∈ List.zipWith (mk i) (typeNamesAll ds) (Ty.varsAll ts),
        o.signature = i ∧ n.names.lookup o.name = some o.id := by
  obtain ⟨names, hextends, hdenotes⟩ := h
  refine ⟨⟨k', names⟩, hextends.faithful (Numbering.faithful_start k),
    hextends.within (Numbering.within_start k), rfl, ?_⟩
  intro o ho
  exact of_mem_zipWith (Ty.map_lookup_of_forall₂ hdenotes) ho

/-- Signatures are counted from `i` on, and the numbers of their variables follow `k` and end with
`k'`. -/
theorem bounds (h : Expr.Scoped k S T k') (i : Nat) :
    k ≤ k' ∧ ∀ o ∈ allFrom i S T, i ≤ o.signature ∧ k < o.id ∧ o.id ≤ k' := by
  induction h generalizing i with
  | nil => exact ⟨Nat.le_refl _, nofun⟩
  | cons hsigned _ ih =>
    obtain ⟨n, hfaithful, hwithin, rfl, htable⟩ := exists_table (i := i) hsigned
    obtain ⟨hle, hrest⟩ := ih (i + 1)
    refine ⟨Nat.le_trans hwithin.1 hle, ?_⟩
    intro o ho
    rcases List.mem_append.1 ho with ho | ho
    · obtain ⟨hsignature, hlookup⟩ := htable o ho
      have hlast := hfaithful.given _ _ hlookup
      exact ⟨hsignature.ge, hwithin.lt_of_lookup hlookup, Nat.le_trans hlast hle⟩
    · obtain ⟨hsignature, hlow, hhigh⟩ := hrest o ho
      exact ⟨Nat.le_of_succ_le hsignature, Nat.lt_of_le_of_lt hwithin.1 hlow, hhigh⟩

/-- Two names stand for the same variable exactly if they are the same name in the same signature. -/
theorem id_eq_iff (h : Expr.Scoped k S T k') {o o' : TypeOccurrence} (ho : o ∈ allFrom i S T)
    (ho' : o' ∈ allFrom i S T) :
    o.id = o'.id ↔ o.signature = o'.signature ∧ o.name = o'.name := by
  induction h generalizing i with
  | nil => cases ho
  | @cons k k₁ k₂ ds ts S T hsigned hscoped ih =>
    obtain ⟨n, hfaithful, hwithin, rfl, htable⟩ := exists_table (i := i) hsigned
    obtain ⟨-, hrest⟩ := bounds hscoped (i + 1)
    -- An occurrence in the first signature and one in a later one differ in both.
    have hapart : ∀ a ∈ List.zipWith (mk i) (typeNamesAll ds) (Ty.varsAll ts),
        ∀ b ∈ allFrom (i + 1) S T, a.id ≠ b.id ∧ a.signature ≠ b.signature := by
      intro a ha b hb
      obtain ⟨hsignature, hlookup⟩ := htable a ha
      obtain ⟨hsignature', hlow, -⟩ := hrest b hb
      have hlast := hfaithful.given _ _ hlookup
      exact ⟨by omega, by omega⟩
    rcases List.mem_append.1 ho with ho | ho <;> rcases List.mem_append.1 ho' with ho' | ho'
    · -- Both are in the first signature, whose table gives no number to two names.
      obtain ⟨hsignature, hlookup⟩ := htable o ho
      obtain ⟨hsignature', hlookup'⟩ := htable o' ho'
      constructor
      · intro hid
        rw [← hid] at hlookup'
        exact ⟨hsignature.trans hsignature'.symm, hfaithful.distinct _ _ _ hlookup hlookup'⟩
      · rintro ⟨-, hname⟩
        rw [hname, hlookup'] at hlookup
        exact (Option.some.inj hlookup).symm
    · obtain ⟨hid, hsignature⟩ := hapart o ho o' ho'
      exact ⟨fun h => absurd h hid, fun h => absurd h.1 hsignature⟩
    · obtain ⟨hid, hsignature⟩ := hapart o' ho' o ho
      exact ⟨fun h => absurd h.symm hid, fun h => absurd h.1.symm hsignature⟩
    · exact ih ho ho'

end TypeOccurrence

namespace Program

/-- The occurrences of type variables in the data of a program and in the program. -/
def typeOccurrences (ds : List Datum) (p : Program) : List TypeOccurrence :=
  TypeOccurrence.allFrom 0 (Datum.signaturesAll (unwrap ds)) p.expr.signatures

/-- The data of a program have the same signatures as the program, annotation by annotation. Two names
in them, wherever they are, stand for the same type variable exactly if they are the same name in the
same signature, and all variables of the program are numbered after what was numbered before. -/
theorem parse_scoped {source : String} {k k' : Nat} {p : Program}
    (h : (parse source).runFrom k = (.ok p, k')) :
    ∃ ds, Datum.readAll source = .ok ds ∧
      List.Forall₂ (fun annotations types => ∃ names, List.Forall₂ (Ty.Denotes names) annotations types)
        (Datum.signaturesAll (unwrap ds)) p.expr.signatures ∧
      (typeOccurrences ds p).map (·.name) =
        (Datum.signaturesAll (unwrap ds)).flatMap typeNamesAll ∧
      (typeOccurrences ds p).map (·.id) = p.expr.typeVars ∧
      (∀ o ∈ typeOccurrences ds p, ∀ o' ∈ typeOccurrences ds p,
        o.id = o'.id ↔ o.signature = o'.signature ∧ o.name = o'.name) ∧
      ∀ x ∈ p.expr.typeVars, k < x := by
  obtain ⟨ds, hds, hreads⟩ := parse_eq_ok_iff.1 h
  have hscoped : Expr.Scoped k (Datum.signaturesAll (unwrap ds)) p.expr.signatures k' := hreads.scoped
  obtain ⟨hnames, hids⟩ := TypeOccurrence.map_allFrom hscoped 0
  have hvars : (typeOccurrences ds p).map (·.id) = p.expr.typeVars := by
    rw [typeOccurrences, hids, Ty.flatMap_varsAll, Expr.flatten_signatures, Expr.typeVars]
  refine ⟨ds, hds, hscoped.denotes, hnames, hvars, ?_, ?_⟩
  · intro o ho o' ho'
    exact TypeOccurrence.id_eq_iff hscoped ho ho'
  · rw [← hvars]
    intro x hx
    obtain ⟨o, ho, rfl⟩ := List.mem_map.1 hx
    exact ((TypeOccurrence.bounds hscoped 0).2 o ho).2.1

/-- One name in three signatures, the innermost inside a procedure that uses the name as well. -/
theorem parse_scoped_nested :
    let source := "(define (f : (T -> U)) (lambda ((x : T) (g : (T -> U))) : U (let ((y : U (g x))) y)))"
    ∃ p k' ds, (parse source).runFrom 4 = (.ok p, k') ∧ Datum.readAll source = .ok ds ∧
      typeOccurrences ds p = [⟨0, "T", 6⟩, ⟨0, "U", 5⟩, ⟨1, "T", 7⟩, ⟨1, "T", 7⟩, ⟨1, "U", 8⟩,
        ⟨1, "U", 8⟩, ⟨2, "U", 9⟩] ∧
      (typeOccurrences ds p).map (·.id) = p.expr.typeVars ∧
      (∀ o ∈ typeOccurrences ds p, ∀ o' ∈ typeOccurrences ds p,
        o.id = o'.id ↔ o.signature = o'.signature ∧ o.name = o'.name) ∧
      ∀ x ∈ p.expr.typeVars, 4 < x := by
  intro source
  have hrun : ((parse source).runFrom 4).1.toOption.bind (fun p =>
      (Datum.readAll source).toOption.map (typeOccurrences · p)) =
        some [⟨0, "T", 6⟩, ⟨0, "U", 5⟩, ⟨1, "T", 7⟩, ⟨1, "T", 7⟩, ⟨1, "U", 8⟩, ⟨1, "U", 8⟩,
          ⟨2, "U", 9⟩] := by decide +kernel
  obtain ⟨p, k', hparse, hrun⟩ := exists_of_toOption_bind hrun
  obtain ⟨ds, hds, -, -, hids, hsame, hnew⟩ := parse_scoped hparse
  rw [hds] at hrun
  exact ⟨p, k', ds, hparse, hds, Option.some.inj hrun, hids, hsame, hnew⟩

end Program

end TypedScheme
