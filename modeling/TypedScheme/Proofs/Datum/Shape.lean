import TypedScheme.Datum.Basic

/-!
# The shape of data

A datum keeps the tokens it was read from, so a datum can be built whose tokens do not fit its shape,
such as a list that ends in a name. `Datum.WellFormed` tells those that fit. It looks at nothing but
the kinds of tokens, and that dots come after an element.

## What this module delivers

- `Datum.induct`: induction on data that reaches every element of a list. It is the default
  eliminator, so `induction d with` follows the four forms of a datum.
- `Datum.WellFormed` and its companion for data in a row.
- `Datum.WellFormed.punctuation_or_atom`: the tokens of a well-formed datum are punctuation and atoms.
- `Datum.WellFormed.legal`: no token of a well-formed datum is illegal or ends the input.
-/

set_option autoImplicit false

namespace TypedScheme

/-- Whether a token of a kind is a datum by itself. -/
def Token.Kind.isAtom : Token.Kind → Bool
  | leftParen => false
  | rightParen => false
  | quote => false
  | period => false
  | endOfInput => false
  | illegal => false
  | _ => true

namespace Datum

/-! ## Induction -/

/-- Induction on data with the induction hypothesis for every element of a list. -/
@[elab_as_elim, induction_eliminator]
theorem induct {motive : Datum → Prop} (atom : ∀ t, motive (.atom t))
    (quoted : ∀ mark d, motive d → motive (.quoted mark d))
    (list : ∀ left ds right, (∀ d ∈ ds, motive d) → motive (.list left ds right))
    (dotted : ∀ left ds dot tail right, (∀ d ∈ ds, motive d) → motive tail →
      motive (.dotted left ds dot tail right))
    (d : Datum) : motive d :=
  @Datum.rec motive (fun ds => ∀ d ∈ ds, motive d) atom quoted
    (fun left ds right h => list left ds right h)
    (fun left ds dot tail right h ht => dotted left ds dot tail right h ht)
    (by intro d hd; simp at hd)
    (by
      intro d ds hd hds e he
      rcases List.mem_cons.1 he with rfl | he
      · exact hd
      · exact hds e he)
    d

/-! ## Tokens in a row -/

theorem flattenAll_eq_flatMap (ds : List Datum) : flattenAll ds = ds.flatMap flatten := by
  induction ds with
  | nil => rfl
  | cons d ds ih => simp [flattenAll, ih]

/-- The tokens of data in two parts are those of both. -/
@[simp] theorem flattenAll_append (ds es : List Datum) :
    flattenAll (ds ++ es) = flattenAll ds ++ flattenAll es := by
  simp [flattenAll_eq_flatMap]

@[simp] theorem flattenAll_singleton (d : Datum) : flattenAll [d] = flatten d := by
  simp [flattenAll]

/-! ## Well-formed data -/

mutual

/-- The tokens of a datum are of the kinds that its shape asks for, and a dot comes after an
element. -/
def WellFormed : Datum → Prop
  | atom t => t.kind.isAtom = true
  | quoted mark d => mark.kind = .quote ∧ WellFormed d
  | list left ds right => left.kind = .leftParen ∧ AllWellFormed ds ∧ right.kind = .rightParen
  | dotted left ds dot tail right =>
    left.kind = .leftParen ∧ (ds ≠ [] ∧ AllWellFormed ds) ∧ dot.kind = .period ∧
      WellFormed tail ∧ right.kind = .rightParen

/-- Data in a row are well formed. -/
def AllWellFormed : List Datum → Prop
  | [] => True
  | d :: ds => WellFormed d ∧ AllWellFormed ds

end

/-- Data are well-formed if each of them is. -/
theorem allWellFormed_iff {ds : List Datum} : AllWellFormed ds ↔ ∀ d ∈ ds, d.WellFormed := by
  induction ds with
  | nil => simp [AllWellFormed]
  | cons d ds ih => simp [AllWellFormed, ih]

/-- A property of data that goes over to their parts. -/
structure Hereditary (Q : Datum → Prop) : Prop where
  quoted : ∀ {mark d}, Q (.quoted mark d) → Q d
  list : ∀ {left ds right}, Q (.list left ds right) → ∀ d ∈ ds, Q d
  dotted : ∀ {left ds dot tail right}, Q (.dotted left ds dot tail right) → (∀ d ∈ ds, Q d) ∧ Q tail

/-- The parts of a well-formed datum are well-formed. -/
theorem hereditary_wellFormed : Hereditary WellFormed where
  quoted h := h.2
  list h := allWellFormed_iff.1 h.2.1
  dotted h := ⟨allWellFormed_iff.1 h.2.1.2, h.2.2.2.1⟩

/-- A token of a well-formed datum is punctuation, or it is an atom inside the datum and shares what the
datum hands down to its parts. -/
theorem WellFormed.punctuation_or_atom {Q : Datum → Prop} (hQ : Hereditary Q) {d : Datum}
    (hd : d.WellFormed) (h : Q d) {t : Token} (ht : t ∈ d.flatten) :
    t.kind ∈ [.leftParen, .rightParen, .quote, .period] ∨ Q (.atom t) := by
  induction d with
  | atom u =>
    obtain rfl : t = u := by simpa [flatten] using ht
    exact .inr h
  | quoted mark d ih =>
    rw [flatten, List.mem_cons] at ht
    rcases ht with rfl | ht
    · simp [hd.1]
    · exact ih hd.2 (hQ.quoted h) ht
  | list left ds right ih =>
    obtain ⟨hleft, hds, hright⟩ := hd
    simp only [flatten, flattenAll_eq_flatMap, List.mem_cons, List.mem_append, List.mem_flatMap,
      List.not_mem_nil, or_false] at ht
    rcases ht with rfl | ⟨d, hd, ht⟩ | rfl
    · simp [hleft]
    · exact ih d hd (allWellFormed_iff.1 hds d hd) (hQ.list h d hd) ht
    · simp [hright]
  | dotted left ds dot tail right ih iht =>
    obtain ⟨hleft, ⟨-, hds⟩, hdot, htail, hright⟩ := hd
    obtain ⟨hparts, hlast⟩ := hQ.dotted h
    simp only [flatten, flattenAll_eq_flatMap, List.mem_cons, List.mem_append, List.mem_flatMap,
      List.not_mem_nil, or_false] at ht
    rcases ht with rfl | ⟨d, hd, ht⟩ | rfl | ht | rfl
    · simp [hleft]
    · exact ih d hd (allWellFormed_iff.1 hds d hd) (hparts d hd) ht
    · simp [hdot]
    · exact iht htail hlast ht
    · simp [hright]

/-- No token of a well-formed datum is illegal or ends the input. -/
theorem WellFormed.legal {d : Datum} (hd : d.WellFormed) {t : Token} (ht : t ∈ d.flatten) :
    t.kind ≠ .illegal ∧ t.kind ≠ .endOfInput := by
  rcases hd.punctuation_or_atom hereditary_wellFormed hd ht with h | h
  · constructor <;> intro hkind <;> simp [hkind] at h
  · constructor <;> intro hkind <;> simp [WellFormed, hkind, Token.Kind.isAtom] at h

end Datum

end TypedScheme
