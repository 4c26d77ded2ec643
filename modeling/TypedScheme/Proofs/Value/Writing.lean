import TypedScheme.Proofs.Datum.Writing
import TypedScheme.Proofs.Value.Grammar

/-!
# Writing quoted values

A quoted value is written as a datum without quotes: pairs are written as lists, with a dot in front of
a last part that is not the empty list. The datum stands for the value again, if its numbers and strings
are plain.

## What this module delivers

- `Value.datum`, the datum that a value is written as, with `Value.write_datum`: its text is the
  concrete form of the value.
- `Value.IsLegible`, what holds of all values that come from a text (`Value.Denoted.isLegible`).
- `Value.literals` and `Value.each_isPlain_datum`: the numbers and strings inside a value are all that
  has to be plain.
- `Value.denoted_of_matches`: the datum of a value stands for the value.
-/

set_option autoImplicit false

namespace TypedScheme

open Datum Lexeme Text

/-- A list of data with a last part behind a dot, if there is one. -/
def Datum.enclose (ds : List Datum) : Option Datum → Datum
  | none => listOf ds
  | some tail => dottedOf ds tail

namespace Value

/-! ## The datum of a value -/

/-- Whether a value is no list. -/
def isAtomic : Value → Bool
  | empty => false
  | pair _ _ => false
  | _ => true

/-- The token of a value that is no list. -/
def token : Value → Token
  | number n => ⟨.number, .absent, n.render⟩
  | boolean b => ⟨.boolean, .absent, renderBoolean b⟩
  | string s => ⟨.string, .absent, Quoted.pieces s⟩
  | symbol name => if name = ":" then Token.bare .colon .absent else ⟨.symbol, .absent, name⟩
  | _ => ⟨.symbol, .absent, ""⟩

mutual

/-- The datum that a value is written as. -/
def datum : Value → Datum
  | empty => listOf []
  | pair a d => enclose (datum a :: (tailData d).1) (tailData d).2
  | v => .atom v.token

/-- What a list is written as after an element: the other elements, and the last part if it is not the
empty list. -/
def tailData : Value → List Datum × Option Datum
  | empty => ([], none)
  | pair a d => (datum a :: (tailData d).1, (tailData d).2)
  | v => ([], some (.atom v.token))

end

/-! ## Text -/

/-- The text after an element of a list. -/
def writeTail (ds : List Datum) : Option Datum → List Char
  | none => writeRest ds ++ [')']
  | some tail => writeRest ds ++ ' ' :: '.' :: ' ' :: (tail.write ++ [')'])

/-- A list of values is written as its first, and then the rest of it. -/
theorem write_enclose (d : Datum) (ds : List Datum) (tail : Option Datum) :
    (enclose (d :: ds) tail).write = '(' :: (d.write ++ writeTail ds tail) := by
  cases tail <;> simp [enclose, writeTail, writeAll]

theorem writeTail_cons (d : Datum) (ds : List Datum) (tail : Option Datum) :
    writeTail (d :: ds) tail = ' ' :: (d.write ++ writeTail ds tail) := by
  cases tail <;> simp [writeTail, writeRest]

theorem token_symbol (name : String) : (symbol name).token =
    if name = ":" then Token.bare .colon .absent else ⟨.symbol, .absent, name⟩ := rfl

/-- A symbol is written as its name. -/
theorem spelling_token_symbol (name : String) : (symbol name).token.spelling = name.toList := by
  rw [token_symbol]
  split
  · next h =>
    rw [h]
    rfl
  · rfl

mutual

/-- The text of a value is its concrete form. -/
theorem write_datum (v : Value) : v.datum.write = v.render.toList := by
  cases v with
  | missing | number | boolean | string => rfl
  | symbol name => exact spelling_token_symbol name
  | empty => rfl
  | pair a d =>
    rw [datum, write_enclose, write_datum a, write_tailData d, render]
    simp

/-- The rest of a list is written as its values are, with a period in front of a last that is no list.
-/
theorem write_tailData (v : Value) : writeTail v.tailData.1 v.tailData.2 = v.renderTail.toList := by
  cases v with
  | missing | number | boolean | string =>
    simp [tailData, writeTail, writeRest, write, renderTail, token, Token.spelling]
  | symbol name =>
    simp [tailData, writeTail, writeRest, write, renderTail, spelling_token_symbol]
  | empty => rfl
  | pair a d =>
    rw [tailData, writeTail_cons, write_datum a, write_tailData d, renderTail]
    simp

end

/-! ## Legible values -/

/-- The values that come from a text: numbers are finite, strings consist of characters, and the names
of symbols can be scanned. -/
def IsLegible : Value → Prop
  | missing => False
  | number n => n.IsFinite
  | boolean _ => True
  | string s => Quoted.IsText s
  | symbol name => name = ":" ∨ IsSymbolText name.toList
  | empty => True
  | pair a d => IsLegible a ∧ IsLegible d

/-- Legible values in front of a legible one make a legible value. -/
theorem isLegible_onto {vs : List Value} {last : Value} (hvs : ∀ v ∈ vs, v.IsLegible)
    (hlast : last.IsLegible) : (onto vs last).IsLegible := by
  induction vs with
  | nil => exact hlast
  | cons v vs ih =>
    obtain ⟨hv, hvs⟩ := List.forall_mem_cons.1 hvs
    exact ⟨hv, ih hvs⟩

/-- An atom that comes from a text denotes a legible value. -/
theorem DenotedAtom.isLegible {t : Token} {v : Value} (h : DenotedAtom t v) (ht : t.Scanned) :
    v.IsLegible := by
  cases h with
  | number hkind hn => exact ht.isFinite hkind hn
  | boolean => trivial
  | string hkind hs => exact ht.isText hkind hs
  | symbol hkind => exact .inr (ht.isSymbolText hkind)
  | colon => exact .inl rfl

mutual

/-- What a datum of a text stands for is legible. -/
theorem Denoted.isLegible {d : Datum} {v : Value} (hd : d.Each Token.Scanned) :
    Denoted d v → v.IsLegible
  | .atom h => h.isLegible (each_atom.1 hd)
  | .quoted h => by
    have hquote : IsSymbolText "quote".toList := isSymbolText_of_isWord (by decide +kernel)
    refine isLegible_onto ?_ trivial
    simp only [List.forall_mem_cons]
    exact ⟨.inr hquote, h.isLegible (each_quoted.1 hd).2, by simp⟩
  | .list h => isLegible_onto (h.isLegible (each_list.1 hd).2.1) trivial
  | .dotted h hlast => by
    obtain ⟨-, hds, -, htail, -⟩ := each_dotted.1 hd
    exact isLegible_onto (h.isLegible hds) (hlast.isLegible htail)

theorem DenotedAll.isLegible {ds : List Datum} {vs : List Value}
    (hds : ∀ d ∈ ds, d.Each Token.Scanned) : DenotedAll ds vs → ∀ v ∈ vs, v.IsLegible
  | .nil => by simp
  | .cons h hs => by
    obtain ⟨hd, hds⟩ := List.forall_mem_cons.1 hds
    exact List.forall_mem_cons.2 ⟨h.isLegible hd, hs.isLegible hds⟩

end

/-! ## Tokens -/

/-- Written data make a written list, dotted or not. -/
theorem written_enclose {d : Datum} {ds : List Datum} {tail : Option Datum} (hd : d.Written)
    (hds : ∀ e ∈ ds, e.Written) (htail : ∀ e ∈ tail, e.Written) :
    (enclose (d :: ds) tail).Written := by
  have hall := List.forall_mem_cons.2 ⟨hd, hds⟩
  cases tail with
  | none => exact written_list hall
  | some e => exact written_dotted (List.cons_ne_nil d ds) hall (htail e rfl)

/-- A legible value that is no list is written as an atom. -/
theorem written_token {v : Value} (h : v.IsLegible) (hatomic : v.isAtomic = true) :
    (Datum.atom v.token).Written := by
  cases v with
  | missing => exact h.elim
  | number n => exact written_atom rfl (.number rfl h rfl)
  | boolean b => exact written_atom rfl (.boolean rfl rfl)
  | string s => exact written_atom rfl (.string rfl h rfl)
  | symbol name =>
    rw [token_symbol]
    split
    · exact written_colon
    · next hname => exact written_word (h.resolve_left hname)
  | empty | pair => cases hatomic

mutual

/-- The datum of a legible value can be written. -/
theorem written_datum {v : Value} (h : v.IsLegible) : v.datum.Written := by
  cases v with
  | missing | number | boolean | string | symbol => exact written_token h rfl
  | empty => exact written_list (by simp)
  | pair a d =>
    obtain ⟨hds, htail⟩ := written_tailData h.2
    exact written_enclose (written_datum h.1) hds htail

theorem written_tailData {v : Value} (h : v.IsLegible) :
    (∀ d ∈ v.tailData.1, d.Written) ∧ ∀ d ∈ v.tailData.2, d.Written := by
  cases v with
  | missing | number | boolean | string | symbol =>
    have hatom := written_token h rfl
    refine ⟨by simp [tailData], fun d hd => ?_⟩
    cases hd
    exact hatom
  | empty => simp [tailData]
  | pair a d =>
    obtain ⟨hds, htail⟩ := written_tailData h.2
    exact ⟨List.forall_mem_cons.2 ⟨written_datum h.1, hds⟩, htail⟩

end

/-- The numbers and strings inside a value. -/
def literals : Value → List Value
  | number n => [number n]
  | string s => [string s]
  | pair a d => literals a ++ literals d
  | _ => []

theorem each_isPlain_enclose {ds : List Datum} {tail : Option Datum} :
    (enclose ds tail).Each Token.IsPlain ↔
      (∀ d ∈ ds, d.Each Token.IsPlain) ∧ ∀ d ∈ tail, d.Each Token.IsPlain := by
  cases tail <;> simp [enclose]

/-- An atomic value can be scanned again if its literal can. -/
theorem isPlain_token_iff {v : Value} (hatomic : v.isAtomic = true) :
    v.token.IsPlain ↔ ∀ w ∈ v.literals, w.token.IsPlain := by
  cases v with
  | number | string => simp [literals]
  | missing | boolean => exact iff_of_true ⟨nofun, nofun⟩ (by simp [literals])
  | symbol name =>
    refine iff_of_true ?_ (by simp [literals])
    rw [token_symbol]
    split
    · exact isPlain_bare _ _
    · exact ⟨nofun, nofun⟩
  | empty | pair => cases hatomic

mutual

/-- The tokens of a value are plain exactly if those of its numbers and strings are. -/
theorem each_isPlain_datum (v : Value) :
    v.datum.Each Token.IsPlain ↔ ∀ w ∈ v.literals, w.token.IsPlain := by
  cases v with
  | missing | number | boolean | string | symbol => exact each_atom.trans (isPlain_token_iff rfl)
  | empty => simp [literals, datum]
  | pair a d =>
    rw [datum, each_isPlain_enclose, List.forall_mem_cons, each_isPlain_datum a, and_assoc,
      each_isPlain_tailData d, literals, List.forall_mem_append]

theorem each_isPlain_tailData (v : Value) :
    ((∀ d ∈ v.tailData.1, d.Each Token.IsPlain) ∧ ∀ d ∈ v.tailData.2, d.Each Token.IsPlain) ↔
      ∀ w ∈ v.literals, w.token.IsPlain := by
  cases v with
  | missing | number | boolean | string | symbol =>
    rw [← isPlain_token_iff rfl]
    simp [tailData, each_atom]
  | empty => simp [literals, tailData]
  | pair a d =>
    rw [tailData, List.forall_mem_cons, each_isPlain_datum a, and_assoc, each_isPlain_tailData d,
      literals, List.forall_mem_append]

end

/-! ## Reading a written value -/

/-- What follows an element of a list stands for the rest of a value. -/
inductive DenotedTail : List Datum → Option Datum → Value → Prop
  | proper {ds : List Datum} {vs : List Value} :
      DenotedAll ds vs → DenotedTail ds none (ofList vs)
  | dotted {ds : List Datum} {tail : Datum} {vs : List Value} {last : Value} :
      DenotedAll ds vs → Denoted tail last → DenotedTail ds (some tail) (onto vs last)

theorem DenotedTail.cons {d : Datum} {ds : List Datum} {tail : Option Datum} {a v : Value}
    (hd : Denoted d a) (h : DenotedTail ds tail v) : DenotedTail (d :: ds) tail (pair a v) := by
  cases h with
  | proper h => exact .proper (.cons hd h)
  | dotted h ht => exact .dotted (.cons hd h) ht

/-- What matches a list denotes what its elements and its tail denote. -/
theorem matches_enclose {ds : List Datum} {tail : Option Datum} {d' : Datum}
    (h : Matches (enclose ds tail) d') :
    ∃ ds' tail', List.Forall₂ Matches ds ds' ∧ Option.Rel Matches tail tail' ∧
      ∀ v, DenotedTail ds' tail' v → Denoted d' v := by
  cases tail with
  | none =>
    obtain ⟨left, ds', right, rfl, hds⟩ := matches_listOf h
    refine ⟨ds', none, hds, .none, fun v hv => ?_⟩
    cases hv with
    | proper hv => exact .list hv
  | some tail =>
    obtain ⟨left, ds', dot, tail', right, rfl, hds, htail⟩ := matches_dottedOf h
    refine ⟨ds', some tail', hds, .some htail, fun v hv => ?_⟩
    cases hv with
    | dotted hv hlast => exact .dotted hv hlast

theorem booleanValue_renderBoolean (b : Bool) : Token.booleanValue (renderBoolean b) = b := by
  cases b <;> rfl

/-- A plain atom stands for the value it was written for. -/
theorem denotedAtom_of_same {v : Value} {t : Token} (h : v.IsLegible) (hatomic : v.isAtomic = true)
    (hplain : v.token.IsPlain) (ht : v.token.Same t) : DenotedAtom t v := by
  obtain ⟨hkind, htext⟩ := ht
  cases v with
  | missing => exact h.elim
  | number n =>
    refine .number hkind ?_
    rw [htext]
    exact Binary64.read?_render h (hplain.1 rfl)
  | boolean b =>
    have hboolean := DenotedAtom.boolean hkind
    rwa [htext, token, booleanValue_renderBoolean] at hboolean
  | string s =>
    refine .string hkind ?_
    rw [htext]
    exact Quoted.decode?_pieces h (hplain.2 rfl)
  | symbol name =>
    -- A colon has a kind of its own, and all other names are symbols.
    rw [token_symbol] at hkind htext
    split at hkind
    · next hname =>
      rw [hname]
      exact .colon hkind
    · next hname =>
      rw [if_neg hname] at htext
      rw [← show t.text = name from htext]
      exact .symbol hkind
  | empty | pair => cases hatomic

theorem denoted_of_matches_atom {v : Value} {d : Datum} (h : v.IsLegible)
    (hatomic : v.isAtomic = true) (hplain : ∀ w ∈ v.literals, w.token.IsPlain)
    (hd : Matches (.atom v.token) d) : Denoted d v := by
  cases hd with
  | atom ht => exact .atom (denotedAtom_of_same h hatomic ((isPlain_token_iff hatomic).2 hplain) ht)

mutual

/-- The datum of a legible value stands for the value, if its numbers and strings are plain. -/
theorem denoted_of_matches {v : Value} {d : Datum} (h : v.IsLegible)
    (hplain : ∀ w ∈ v.literals, w.token.IsPlain) (hd : Matches v.datum d) : Denoted d v := by
  cases v with
  | missing | number | boolean | string | symbol =>
    exact denoted_of_matches_atom h rfl hplain hd
  | empty =>
    obtain ⟨left, ds, right, rfl, hds⟩ := matches_listOf hd
    cases hds
    exact .list .nil
  | pair a b =>
    obtain ⟨hplain, hplain'⟩ := List.forall_mem_append.1 hplain
    obtain ⟨_, tail, hds, htail, hdenoted⟩ := matches_enclose hd
    obtain _ | ⟨ha, hds⟩ := hds
    exact hdenoted _ (.cons (denoted_of_matches h.1 hplain ha)
      (denotedTail_of_matches h.2 hplain' hds htail))

/-- What matches the rest of a written list denotes this rest. -/
theorem denotedTail_of_matches {v : Value} {ds : List Datum} {tail : Option Datum} (h : v.IsLegible)
    (hplain : ∀ w ∈ v.literals, w.token.IsPlain) (hds : List.Forall₂ Matches v.tailData.1 ds)
    (htail : Option.Rel Matches v.tailData.2 tail) : DenotedTail ds tail v := by
  cases v with
  | missing | number | boolean | string | symbol =>
    cases hds
    cases htail with
    | some hd => exact .dotted .nil (denoted_of_matches_atom h rfl hplain hd)
  | empty =>
    cases hds
    cases htail
    exact .proper .nil
  | pair a b =>
    obtain ⟨hplain, hplain'⟩ := List.forall_mem_append.1 hplain
    obtain _ | ⟨ha, hds⟩ := hds
    exact .cons (denoted_of_matches h.1 hplain ha) (denotedTail_of_matches h.2 hplain' hds htail)

end

end Value

end TypedScheme
