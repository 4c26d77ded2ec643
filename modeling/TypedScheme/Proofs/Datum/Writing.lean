import TypedScheme.Proofs.Datum.Completion
import TypedScheme.Proofs.Token.Writing

/-!
# Writing data

A datum is written on one line, with one blank between the elements of a list. Data that are only there
to be written have tokens without places. The text of a datum is read as one datum of the same shape
with the same tokens, exactly if its tokens are plain.

## What this module delivers

- `Datum.write`, the text of a datum, with `Datum.word`, `Datum.colon`, `Datum.listOf`,
  `Datum.quoteOf` and `Datum.dottedOf`, the data that have no place.
- `Datum.Each P`: all tokens of a datum have a property, taken apart form by form.
- `Datum.Written`, which says that a datum has a shape and tokens that can be written.
- `Datum.Matches d d'`: the data agree but for the places of their tokens.
- `Datum.readAll_write`: when the text of a datum is read, and as what.
-/

set_option autoImplicit false

namespace TypedScheme

open Lexeme Token

namespace Datum

/-! ## Text -/

mutual

/-- A datum as text. -/
def write : Datum → List Char
  | atom t => t.spelling
  | quoted _ d => '\'' :: write d
  | list _ ds _ => '(' :: (writeAll ds ++ [')'])
  | dotted _ ds _ tail _ => '(' :: (writeAll ds ++ ' ' :: '.' :: ' ' :: (write tail ++ [')']))

/-- Data in a row as text, separated by blanks. -/
def writeAll : List Datum → List Char
  | [] => []
  | d :: ds => write d ++ writeRest ds

/-- Data in a row as text, each behind a blank. -/
def writeRest : List Datum → List Char
  | [] => []
  | d :: ds => ' ' :: (write d ++ writeRest ds)

end

theorem writeRest_append (ds es : List Datum) :
    writeRest (ds ++ es) = writeRest ds ++ writeRest es := by
  induction ds with
  | nil => rfl
  | cons d ds ih => simp [writeRest, ih]

theorem atBoundary_blank (cs : List Char) : atBoundary (' ' :: cs) = true := by
  rw [atBoundary]
  decide

/-- What is written behind a datum ends it: there is nothing, or a blank. -/
theorem atBoundary_writeRest (ds : List Datum) : atBoundary (writeRest ds) = true := by
  cases ds with
  | nil => rfl
  | cons d ds => exact atBoundary_blank _

/-! ## Data without places -/

/-- The datum of a name. -/
def word (name : String) : Datum := .atom ⟨.symbol, .absent, name⟩

/-- The datum of a colon. -/
def colon : Datum := .atom (Token.bare .colon .absent)

/-- The list of data. -/
def listOf (ds : List Datum) : Datum :=
  .list (Token.bare .leftParen .absent) ds (Token.bare .rightParen .absent)

/-- A datum behind a quote. -/
def quoteOf (d : Datum) : Datum := .quoted (Token.bare .quote .absent) d

/-- The list of data that ends in a tail. -/
def dottedOf (ds : List Datum) (tail : Datum) : Datum :=
  .dotted (Token.bare .leftParen .absent) ds (Token.bare .period .absent) tail
    (Token.bare .rightParen .absent)

/-- The data that written text is put together from, as text: a word is its name. -/
@[simp] theorem write_word (name : String) : (word name).write = name.toList := by
  simp [word, write, spelling]

@[simp] theorem write_colon : colon.write = [':'] := by
  simp [colon, write, spelling, Token.bare]

@[simp] theorem write_listOf (ds : List Datum) : (listOf ds).write = '(' :: (writeAll ds ++ [')']) := by
  rw [listOf, write]

@[simp] theorem write_quoteOf (d : Datum) : (quoteOf d).write = '\'' :: d.write := by
  rw [quoteOf, write]

/-- A dotted list has its last element behind a period, with a blank on either side of it. -/
@[simp] theorem write_dottedOf (ds : List Datum) (tail : Datum) :
    (dottedOf ds tail).write =
      '(' :: (writeAll ds ++ ' ' :: '.' :: ' ' :: (tail.write ++ [')'])) := by
  rw [dottedOf, write]

/-! ## Properties of all tokens -/

/-- Every token of a datum has a property. -/
def Each (P : Token → Prop) (d : Datum) : Prop := ∀ t ∈ d.flatten, P t

section Each

variable {P : Token → Prop}

/-- A property of all tokens of data is one of the tokens of each. -/
theorem forall_mem_flattenAll {ds : List Datum} :
    (∀ t ∈ flattenAll ds, P t) ↔ ∀ d ∈ ds, d.Each P := by
  simp only [flattenAll_eq_flatMap, List.forall_mem_flatMap, Each]

theorem each_atom {t : Token} : (atom t).Each P ↔ P t := by simp [Each, flatten]

theorem each_quoted {mark : Token} {d : Datum} : (quoted mark d).Each P ↔ P mark ∧ d.Each P := by
  simp only [Each, flatten, List.forall_mem_cons]

/-- The tokens of a list are its parentheses and those of its elements. -/
theorem each_list {left right : Token} {ds : List Datum} :
    (list left ds right).Each P ↔ P left ∧ (∀ d ∈ ds, d.Each P) ∧ P right := by
  rw [Each, flatten, List.forall_mem_cons, List.forall_mem_append, forall_mem_flattenAll]
  simp

theorem each_dotted {left dot right : Token} {ds : List Datum} {tail : Datum} :
    (dotted left ds dot tail right).Each P ↔
      P left ∧ (∀ d ∈ ds, d.Each P) ∧ P dot ∧ tail.Each P ∧ P right := by
  rw [Each, flatten, List.forall_mem_cons, List.forall_mem_append, forall_mem_flattenAll,
    List.forall_mem_cons, List.forall_mem_append]
  simp [Each]

/-- Punctuation can always be scanned again. -/
theorem isPlain_bare (kind : Kind) (span : Span) : (Token.bare kind span).IsPlain := by
  simp [IsPlain, Token.bare, Text.Quoted.escapeLetters]

/-- A word is a symbol, so it can be scanned again. -/
@[simp] theorem each_isPlain_word (name : String) : (word name).Each IsPlain :=
  each_atom.2 ⟨nofun, nofun⟩

@[simp] theorem each_isPlain_colon : colon.Each IsPlain := each_atom.2 (isPlain_bare _ _)

@[simp] theorem each_isPlain_quoteOf {d : Datum} : (quoteOf d).Each IsPlain ↔ d.Each IsPlain :=
  each_quoted.trans (and_iff_right (isPlain_bare _ _))

@[simp] theorem each_isPlain_listOf {ds : List Datum} :
    (listOf ds).Each IsPlain ↔ ∀ d ∈ ds, d.Each IsPlain := by
  simp only [listOf, each_list, isPlain_bare, true_and, and_true]

@[simp] theorem each_isPlain_dottedOf {ds : List Datum} {tail : Datum} :
    (dottedOf ds tail).Each IsPlain ↔ (∀ d ∈ ds, d.Each IsPlain) ∧ tail.Each IsPlain := by
  simp only [dottedOf, each_dotted, isPlain_bare, true_and, and_true]

end Each

/-! ## Written data -/

/-- A datum that can be written: its tokens fit its shape, and each of them can be written. -/
def Written (d : Datum) : Prop := d.WellFormed ∧ d.Each Token.Written

theorem written_atom {t : Token} (hkind : t.kind.isAtom = true) (ht : t.Written) :
    (atom t).Written :=
  ⟨hkind, each_atom.2 ht⟩

/-- Whether a name is scanned as one symbol. -/
def isWord (name : String) : Bool :=
  (next name.toList).1.kind = .symbol && (next name.toList).1.covers = name.toList

/-- The words that an expression is written with are texts of symbols. -/
theorem isSymbolText_of_isWord {name : String} (h : isWord name = true) :
    IsSymbolText name.toList := by
  simp only [isWord, Bool.and_eq_true, decide_eq_true_eq] at h
  have htext := isSymbolText_of_next h.1
  rwa [h.2] at htext

theorem written_word {name : String} (h : IsSymbolText name.toList) : (word name).Written :=
  written_atom rfl (.symbol rfl h)

theorem written_colon : colon.Written := written_atom rfl (.punctuation (c := ':') rfl rfl)

/-- Written data make a written list. -/
theorem written_list {ds : List Datum} (h : ∀ d ∈ ds, d.Written) : (listOf ds).Written := by
  refine ⟨⟨rfl, allWellFormed_iff.2 fun d hd => (h d hd).1, rfl⟩, each_list.2 ⟨?_, ?_, ?_⟩⟩
  · exact .punctuation (c := '(') rfl rfl
  · exact fun d hd => (h d hd).2
  · exact .punctuation (c := ')') rfl rfl

/-- A written datum makes a written quotation. -/
theorem written_quote {d : Datum} (h : d.Written) : (quoteOf d).Written :=
  ⟨⟨rfl, h.1⟩, each_quoted.2 ⟨.punctuation (c := '\'') rfl rfl, h.2⟩⟩

/-- Written data make a written dotted list, if there is an element in front of the period. -/
theorem written_dotted {ds : List Datum} {tail : Datum} (hne : ds ≠ []) (h : ∀ d ∈ ds, d.Written)
    (htail : tail.Written) : (dottedOf ds tail).Written := by
  refine ⟨⟨rfl, ⟨hne, allWellFormed_iff.2 fun d hd => (h d hd).1⟩, rfl, htail.1, rfl⟩,
    each_dotted.2 ⟨?_, ?_, ?_, htail.2, ?_⟩⟩
  · exact .punctuation (c := '(') rfl rfl
  · exact fun d hd => (h d hd).2
  · exact .punctuation (c := '.') rfl rfl
  · exact .punctuation (c := ')') rfl rfl

/-- Data in a row are written token by token, with a blank in front of each. -/
theorem writes_writeRest {ds : List Datum} (h : ∀ d ∈ ds, Writes d.flatten d.write) :
    Writes (flattenAll ds) (writeRest ds) := by
  induction ds with
  | nil => exact .nil
  | cons d ds ih =>
    obtain ⟨hd, hds⟩ := List.forall_mem_cons.1 h
    exact .blank (hd.append (ih hds) (atBoundary_writeRest ds))

/-- Data in a row are written token by token, with a blank between two of them. -/
theorem writes_writeAll {ds : List Datum} (h : ∀ d ∈ ds, Writes d.flatten d.write) :
    Writes (flattenAll ds) (writeAll ds) := by
  cases ds with
  | nil => exact .nil
  | cons d ds =>
    obtain ⟨hd, hds⟩ := List.forall_mem_cons.1 h
    exact hd.append (writes_writeRest hds) (atBoundary_writeRest ds)

/-- The text of a datum is written for its tokens. -/
theorem Written.writes {d : Datum} (h : d.Written) : Writes d.flatten d.write := by
  obtain ⟨hd, ht⟩ := h
  induction d with
  | atom t => exact (each_atom.1 ht).writes
  | quoted mark d ih =>
    obtain ⟨hmark, hd'⟩ := hd
    obtain ⟨ht, ht'⟩ := each_quoted.1 ht
    rw [write]
    exact .punctuation ht (by rw [hmark]; rfl) (ih hd' ht')
  | list left ds right ih =>
    obtain ⟨hleft, hds, hright⟩ := hd
    obtain ⟨htleft, hts, htright⟩ := each_list.1 ht
    rw [write]
    refine .punctuation htleft (by rw [hleft]; rfl) (.append (writes_writeAll ?_)
      (.punctuation htright (by rw [hright]; rfl) .nil) rfl)
    exact fun d hd => ih d hd (allWellFormed_iff.1 hds d hd) (hts d hd)
  | dotted left ds dot tail right ih iht =>
    obtain ⟨hleft, ⟨-, hds⟩, hdot, htail, hright⟩ := hd
    obtain ⟨htleft, hts, htdot, httail, htright⟩ := each_dotted.1 ht
    have hrow : Writes (flattenAll ds) (writeAll ds) := writes_writeAll fun d hd =>
      ih d hd (allWellFormed_iff.1 hds d hd) (hts d hd)
    have hend : Writes (tail.flatten ++ [right]) (tail.write ++ [')']) :=
      (iht htail httail).append (.punctuation htright (by rw [hright]; rfl) .nil) rfl
    -- Blanks keep the dot apart from the atoms on both sides of it.
    rw [write]
    exact .punctuation htleft (by rw [hleft]; rfl)
      (hrow.append (.blank (.punctuation htdot (by rw [hdot]; rfl) hend.blank)) (atBoundary_blank _))

/-! ## Data that agree -/

/-- The data agree but for the places of their tokens. -/
inductive Matches : Datum → Datum → Prop
  | atom {t t' : Token} : t.Same t' → Matches (.atom t) (.atom t')
  | quoted {mark mark' : Token} {d d' : Datum} :
      Matches d d' → Matches (.quoted mark d) (.quoted mark' d')
  | list {left left' right right' : Token} {ds ds' : List Datum} :
      List.Forall₂ Matches ds ds' → Matches (.list left ds right) (.list left' ds' right')
  | dotted {left left' dot dot' right right' : Token} {ds ds' : List Datum} {tail tail' : Datum} :
      List.Forall₂ Matches ds ds' → Matches tail tail' →
      Matches (.dotted left ds dot tail right) (.dotted left' ds' dot' tail' right')

section Matches

variable {d : Datum} {name : String} {ds : List Datum} {tail : Datum}

/-- What matches a word is the symbol of its name. -/
theorem matches_word (h : Matches (word name) d) :
    ∃ t, d = .atom t ∧ t.kind = .symbol ∧ t.text = name := by
  cases h with
  | atom h => exact ⟨_, rfl, h.1, h.2⟩

theorem isSymbol_of_matches (h : Matches (word name) d) : d.isSymbol name := by
  obtain ⟨t, rfl, hkind, htext⟩ := matches_word h
  simp [isSymbol, Token.isSymbol, hkind, htext]

theorem isColon_of_matches (h : Matches colon d) : d.isColon := by
  cases h with
  | atom h => simp [isColon, h.1, Token.bare]

/-- What matches a list is a list whose elements match. -/
theorem matches_listOf (h : Matches (listOf ds) d) :
    ∃ left ds' right, d = .list left ds' right ∧ List.Forall₂ Matches ds ds' := by
  cases h with
  | list h => exact ⟨_, _, _, rfl, h⟩

/-- What matches a quotation is the quotation of a datum that matches. -/
theorem matches_quoteOf {d' : Datum} (h : Matches (quoteOf d) d') :
    ∃ mark e, d' = .quoted mark e ∧ Matches d e := by
  cases h with
  | quoted h => exact ⟨_, _, rfl, h⟩

/-- What matches a dotted list is a dotted list whose elements match. -/
theorem matches_dottedOf (h : Matches (dottedOf ds tail) d) :
    ∃ left ds' dot tail' right, d = .dotted left ds' dot tail' right ∧
      List.Forall₂ Matches ds ds' ∧ Matches tail tail' := by
  cases h with
  | dotted h ht => exact ⟨_, _, _, _, _, rfl, h, ht⟩

end Matches

/-- What agrees with two rows is two rows. -/
theorem exists_append_of_forall₂ {α β : Type} {R : α → β → Prop} {us vs : List α} {ts : List β}
    (h : List.Forall₂ R (us ++ vs) ts) :
    ∃ us' vs', ts = us' ++ vs' ∧ List.Forall₂ R us us' ∧ List.Forall₂ R vs vs' := by
  induction us generalizing ts with
  | nil => exact ⟨[], ts, rfl, .nil, h⟩
  | cons u us ih =>
    obtain _ | ⟨hu, h⟩ := h
    obtain ⟨us', vs', rfl, hus, hvs⟩ := ih h
    exact ⟨_ :: us', vs', rfl, .cons hu hus, hvs⟩

/-- Tokens that agree with those of a datum are the tokens of a datum that agrees with it. -/
def HasMatch (d : Datum) : Prop :=
  ∀ ts, List.Forall₂ Same d.flatten ts → ∃ d', d'.flatten = ts ∧ d'.WellFormed ∧ Matches d d'

/-- Tokens that agree with those of data make data that match, one after the other. -/
theorem exists_matchesAll {ds : List Datum} (h : ∀ d ∈ ds, d.HasMatch) {ts : List Token}
    (hts : List.Forall₂ Same (flattenAll ds) ts) :
    ∃ ds', flattenAll ds' = ts ∧ AllWellFormed ds' ∧ List.Forall₂ Matches ds ds' := by
  induction ds generalizing ts with
  | nil =>
    cases hts
    exact ⟨[], rfl, trivial, .nil⟩
  | cons d ds ih =>
    obtain ⟨hd, hds⟩ := List.forall_mem_cons.1 h
    obtain ⟨us, vs, rfl, hus, hvs⟩ := exists_append_of_forall₂ hts
    obtain ⟨d', rfl, hwell, hmatch⟩ := hd us hus
    obtain ⟨ds', rfl, hwells, hmatches⟩ := ih hds hvs
    exact ⟨d' :: ds', rfl, ⟨hwell, hwells⟩, .cons hmatch hmatches⟩

/-- Tokens that agree with those of a well-formed datum make a datum that matches it. -/
theorem WellFormed.hasMatch {d : Datum} (hd : d.WellFormed) : d.HasMatch := by
  induction d with
  | atom t =>
    intro ts hts
    obtain _ | ⟨ht, _ | _⟩ := hts
    refine ⟨.atom _, rfl, ?_, .atom ht⟩
    rw [WellFormed] at hd ⊢
    rw [ht.1, hd]
  | quoted mark d ih =>
    intro ts hts
    obtain ⟨hmark, hd⟩ := hd
    obtain _ | ⟨ht, hts⟩ := hts
    obtain ⟨d', rfl, hwell, hmatch⟩ := ih hd _ hts
    exact ⟨.quoted _ d', rfl, ⟨ht.1.trans hmark, hwell⟩, .quoted hmatch⟩
  | list left ds right ih =>
    intro ts hts
    obtain ⟨hleft, hds, hright⟩ := hd
    obtain _ | ⟨htleft, hts⟩ := hts
    obtain ⟨us, _, rfl, hus, htright⟩ := exists_append_of_forall₂ hts
    obtain _ | ⟨htright, _ | _⟩ := htright
    obtain ⟨ds', rfl, hwell, hmatch⟩ :=
      exists_matchesAll (fun d hd => ih d hd (allWellFormed_iff.1 hds d hd)) hus
    exact ⟨.list _ ds' _, rfl, ⟨htleft.1.trans hleft, hwell, htright.1.trans hright⟩, .list hmatch⟩
  | dotted left ds dot tail right ih iht =>
    intro ts hts
    obtain ⟨hleft, ⟨hne, hds⟩, hdot, htail, hright⟩ := hd
    obtain _ | ⟨htleft, hts⟩ := hts
    obtain ⟨us, _, rfl, hus, hrest⟩ := exists_append_of_forall₂ hts
    obtain _ | ⟨htdot, hrest⟩ := hrest
    obtain ⟨vs, _, rfl, hvs, htright⟩ := exists_append_of_forall₂ hrest
    obtain _ | ⟨htright, _ | _⟩ := htright
    obtain ⟨ds', rfl, hwell, hmatch⟩ :=
      exists_matchesAll (fun d hd => ih d hd (allWellFormed_iff.1 hds d hd)) hus
    obtain ⟨tail', rfl, hwell', hmatch'⟩ := iht htail vs hvs
    -- The matched elements are as many as the elements, so there is a first one.
    have hne' : ds' ≠ [] := by
      rintro rfl
      cases hmatch
      exact hne rfl
    exact ⟨.dotted _ ds' _ tail' _, rfl, ⟨htleft.1.trans hleft, ⟨hne', hwell⟩, htdot.1.trans hdot,
      hwell', htright.1.trans hright⟩, .dotted hmatch hmatch'⟩

/-! ## Reading what has been written -/

/-- The text of a datum is read exactly if all its tokens are plain, and then as one datum that agrees
with it. -/
theorem readAll_write {d : Datum} (hd : d.Written) {source : String}
    (hsource : source.toList = d.write) :
    ((∃ F, readAll source = .ok F) ↔ d.Each IsPlain) ∧
      ∀ F, readAll source = .ok F → ∃ d', F = [d'] ∧ Matches d d' := by
  obtain ⟨ts, hts, hspells⟩ := hd.writes .start
  have htokens : significantAt .start source.toList = ts := by
    have h := hspells [] rfl
    rwa [significantAt_nil, List.append_nil, List.append_nil, ← hsource] at h
  -- A text that is read has no illegal token.
  have hplain {F : List Datum} (h : readAll source = .ok F) : d.Each IsPlain := by
    obtain ⟨hwell, hflatten⟩ := flattenAll_of_readAll h
    refine isPlain_of_rescans hts fun t ht => ?_
    rw [← htokens, ← hflatten, flattenAll_eq_flatMap, List.mem_flatMap] at ht
    obtain ⟨d', hd', ht⟩ := ht
    exact ((allWellFormed_iff.1 hwell d' hd').legal ht).1
  have hread (h : d.Each IsPlain) : ∃ d', readAll source = .ok [d'] ∧ Matches d d' := by
    obtain ⟨d', hflatten, hwell, hmatch⟩ := hd.1.hasMatch ts (same_of_rescans hts h)
    refine ⟨d', ?_, hmatch⟩
    rw [readAll, significant_eq, readTokens_eq_ok_iff fun t ht => kind_of_mem_significantAt ht]
    exact ⟨⟨hwell, trivial⟩, by rw [flattenAll_singleton, hflatten, htokens]⟩
  constructor
  · constructor
    · rintro ⟨F, hF⟩
      exact hplain hF
    · intro h
      obtain ⟨d', hd', -⟩ := hread h
      exact ⟨[d'], hd'⟩
  · intro F hF
    obtain ⟨d', hd', hmatch⟩ := hread (hplain hF)
    rw [hd'] at hF
    exact ⟨d', (Except.ok.inj hF).symm, hmatch⟩

end Datum

end TypedScheme
