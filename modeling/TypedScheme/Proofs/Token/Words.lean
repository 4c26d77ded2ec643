import Mathlib.Data.List.TakeWhile
import TypedScheme.Proofs.Number.Numeral
import TypedScheme.Proofs.Text.Quoted
import TypedScheme.Proofs.Token.Lexemes
import TypedScheme.Value.Basic

/-!
# The tokens of written text

Written text is put together from words: symbols, numbers, booleans and strings, with a delimiter or a
blank after each of them. A word is scanned as one token wherever it stands. Symbols and booleans are
scanned as what they are; a number with an exponent and a string with an uncommon escape are scanned as
one illegal token.

## What this module delivers

- `Lexeme.continuesSymbol_of_isDelimiter`: what ends an atom is no part of a symbol.
- `Lexeme.IsSymbolText` with `Lexeme.isSymbolText_of_next` and `Lexeme.next_symbol`: the texts of
  symbols are those that are scanned as symbols, whatever delimiter follows.
- `Lexeme.exists_plain_of_next` and `Lexeme.exists_inside_of_next`: the texts of numbers and strings.
- `Lexeme.next_number`, `Lexeme.next_exponent`, `Lexeme.next_pieces` and `Lexeme.next_boolean`: what
  written numbers, strings and booleans are scanned as.
-/

set_option autoImplicit false

namespace TypedScheme

open Text

/-! ## Characters -/

namespace Lexeme

/-- What ends an atom is no part of a symbol. -/
theorem continuesSymbol_of_isDelimiter [IdentifierClasses] {c : Char} (h : isDelimiter c = true) :
    continuesSymbol c = false := by
  simp only [isDelimiter, Bool.or_eq_true, decide_eq_true_eq] at h
  rcases h with (((((rfl | rfl) | rfl) | rfl) | rfl) | rfl) | hblank
  iterate 6
    rw [continuesSymbol_of_lt (by decide)]
    decide
  have hpunctuation : symbolPunctuation.all (fun c => !isBlank c) = true := by decide
  have hclass : IdentifierClasses.continues c = false := by
    rw [← Bool.not_eq_true]
    intro hc
    rw [IdentifierClasses.not_blank c hc] at hblank
    cases hblank
  rw [continuesSymbol, hclass, Bool.false_or, ← Bool.not_eq_true, List.contains_iff_mem]
  intro hmem
  have hc := List.all_eq_true.1 hpunctuation c hmem
  rw [hblank] at hc
  cases hc

theorem head_isDelimiter {rest : List Char} (h : atBoundary rest = true) :
    ∀ c ∈ rest.head?, isDelimiter c = true := by
  cases rest with
  | nil => simp
  | cons c rest =>
    intro d hd
    cases hd
    exact h

/-- A run of characters of a class ends in front of a delimiter, which is not in the class. -/
theorem takeWhile_append_of_atBoundary {q : Char → Bool} (hq : ∀ c, isDelimiter c = true → q c = false)
    {cs rest : List Char} (hcs : ∀ c ∈ cs, q c = true) (hrest : atBoundary rest = true) :
    (cs ++ rest).takeWhile q = cs ∧ (cs ++ rest).dropWhile q = rest :=
  Numeral.takeWhile_run hcs rest fun c hc => hq c (head_isDelimiter hrest c hc)

theorem startsWithDigit_of_atBoundary {rest : List Char} (h : atBoundary rest = true) :
    startsWithDigit rest = false := by
  cases rest with
  | nil => rfl
  | cons c rest =>
    rw [startsWithDigit, ← Bool.not_eq_true]
    intro hdigit
    have hblank := isBlank_of_isDigit hdigit
    simp only [atBoundary, isDelimiter, hblank, Bool.or_false, Bool.or_eq_true, decide_eq_true_eq]
      at h
    rcases h with ((((rfl | rfl) | rfl) | rfl) | rfl) | rfl <;> simp [isDigit] at hdigit

/-! ## Symbols -/

theorem SoundOrIllegal.kind {kind : Token.Kind} {l : Lexeme} (h : SoundOrIllegal kind l) :
    l.kind = kind ∨ l.kind = .illegal := by
  rcases h with h | h
  · left
    rw [h]
    rfl
  · exact .inr h

/-- The branches that symbols, numbers and strings are read by. -/
theorem Branch.of_kind [IdentifierClasses] {c : Char} {rest : List Char} {r : Lexeme × List Char}
    (h : Branch c rest r) :
    (r.1.kind = .symbol → SymbolStart c rest ∧ r = Lexeme.symbol c rest) ∧
    (r.1.kind = .number → ∃ sign ∈ Numeral.signs, ∃ digits, startsWithDigit digits = true ∧
      r = number sign digits) ∧
    (r.1.kind = .string → r = Lexeme.string rest) := by
  -- A scan gives tokens of its own kind or illegal ones.
  have hne {l : Lexeme} {kind other : Token.Kind} {P : Prop} (hl : SoundOrIllegal kind l)
      (hkind : kind ≠ other) (hillegal : other ≠ .illegal) : l.kind = other → P := by
    intro h
    rcases hl.kind with h' | h'
    · exact absurd (h'.symm.trans h) hkind
    · exact absurd (h.symm.trans h') hillegal
  cases h with
  | blank | comment | unexpected => exact ⟨nofun, nofun, nofun⟩
  | punctuation hkind =>
    unfold punctuation? at hkind
    split at hkind <;> cases hkind <;> exact ⟨nofun, nofun, nofun⟩
  | string =>
    have hl := soundOrIllegal_string rest
    exact ⟨hne hl (by decide) (by decide), hne hl (by decide) (by decide), fun _ => rfl⟩
  | hash =>
    have hl := soundOrIllegal_hash rest
    exact ⟨hne hl (by decide) (by decide), hne hl (by decide) (by decide),
      hne hl (by decide) (by decide)⟩
  | digits hdigit =>
    have hl := soundOrIllegal_number [] (c :: rest)
    exact ⟨hne hl (by decide) (by decide), fun _ => ⟨[], by simp [Numeral.signs], c :: rest, hdigit, rfl⟩,
      hne hl (by decide) (by decide)⟩
  | signed hsign hdigit =>
    have hl := soundOrIllegal_number [c] rest
    exact ⟨hne hl (by decide) (by decide),
      fun _ => ⟨[c], by simpa [Numeral.signs] using hsign, _, hdigit, rfl⟩,
      hne hl (by decide) (by decide)⟩
  | symbol hstart =>
    have hl : SoundOrIllegal .symbol (Lexeme.symbol c rest).1 := soundOrIllegal_atom _ _ _ _
    exact ⟨fun _ => ⟨hstart, rfl⟩, hne hl (by decide) (by decide), hne hl (by decide) (by decide)⟩

/-- The texts of symbols. -/
def IsSymbolText [IdentifierClasses] (cs : List Char) : Prop :=
  ∃ c more, cs = c :: more ∧ SymbolStart c more ∧ ∀ x ∈ more, continuesSymbol x = true

/-- A start of a symbol is one by the characters up to any place behind it. -/
theorem SymbolStart.congr [IdentifierClasses] {c : Char} {rest rest' : List Char}
    (h : SymbolStart c rest)
    (hdigit : startsWithDigit rest' = true → startsWithDigit rest = true) : SymbolStart c rest' := by
  refine { h with not_signed := ?_ }
  have hsigned := h.not_signed
  rw [Bool.and_eq_false_iff] at hsigned ⊢
  refine hsigned.imp_right fun hrest => ?_
  rw [← Bool.not_eq_true] at hrest ⊢
  exact fun h' => hrest (hdigit h')

/-- What is scanned as a symbol is the text of one. -/
theorem isSymbolText_of_next [IdentifierClasses] {cs : List Char} (h : (next cs).1.kind = .symbol) :
    IsSymbolText (next cs).1.covers := by
  cases cs with
  | nil => cases h
  | cons c rest =>
    obtain ⟨hstart, hnext⟩ := (next_branch c rest).of_kind.1 h
    rw [hnext] at h ⊢
    unfold symbol atom at h ⊢
    split at h
    · next hboundary =>
      rw [if_pos hboundary]
      refine ⟨c, _, rfl, hstart.congr fun hdigit => ?_, fun x hx => List.mem_takeWhile_imp hx⟩
      -- The first character of the run is the first one behind the start.
      cases rest with
      | nil => exact hdigit
      | cons d rest =>
        by_cases hd : continuesSymbol d = true
        · simpa [hd, startsWithDigit] using hdigit
        · simp [hd, startsWithDigit] at hdigit
    · cases h

/-- The text of a symbol is scanned as a symbol in front of any delimiter. -/
theorem next_symbol [IdentifierClasses] {cs rest : List Char} (h : IsSymbolText cs)
    (hrest : atBoundary rest = true) :
    next (cs ++ rest) = (sound .symbol cs, rest) := by
  obtain ⟨c, more, rfl, hstart, hmore⟩ := h
  have hstart' : SymbolStart c (more ++ rest) := hstart.congr fun hdigit => by
    cases more with
    | nil =>
      rw [List.nil_append, startsWithDigit_of_atBoundary hrest] at hdigit
      cases hdigit
    | cons d more => exact hdigit
  obtain ⟨htake, hdrop⟩ := takeWhile_append_of_atBoundary
    (fun _ => continuesSymbol_of_isDelimiter) hmore hrest
  rw [List.cons_append, (Branch.symbol hstart').next_eq, symbol, htake, hdrop, atom, if_pos hrest]

/-! ## Numbers -/

open Numeral in
/-- A plain numeral is scanned as one atom, unless more digits or a fraction follow. -/
theorem next_plain [IdentifierClasses] {sign whole part rest : List Char} (h : IsPlain sign whole part)
    (hrest : ∀ c ∈ rest.head?, Numeral.isDigit c = false ∧ c ≠ '.') :
    next (plain sign whole part ++ rest) =
      atom .number .inNumber (plain sign whole part) rest := by
  obtain ⟨hsign, hne, hwhole, hpart⟩ := h
  have hnumber : number sign (whole ++ (fractionText part ++ rest)) =
      atom .number .inNumber (plain sign whole part) rest := by
    have hdigit : Lexeme.isDigit = Numeral.isDigit := rfl
    -- The digits end at the point, or at the rest.
    have hsplit := takeWhile_run hwhole (fractionText part ++ rest) (by
      cases part with
      | nil => exact fun c hc => (hrest c hc).1
      | cons d part => simp [fractionText, Numeral.isDigit])
    unfold number
    rw [hdigit, hsplit.1, hsplit.2]
    cases part with
    | nil =>
      have hplain : plain sign whole [] = sign ++ whole := by simp [plain, fractionText]
      simp only [fractionText, List.isEmpty_nil, if_true, List.nil_append, hplain]
      split
      · next more _ => exact absurd rfl (hrest '.' rfl).2
      · rfl
    | cons d part =>
      have hafter := takeWhile_run hpart rest fun c hc => (hrest c hc).1
      rw [List.cons_append] at hafter
      have hplain : plain sign whole (d :: part) = sign ++ whole ++ '.' :: d :: part := by
        simp [plain, fractionText]
      simp only [fractionText, List.isEmpty_cons, Bool.false_eq_true, if_false, List.cons_append,
        hafter.1, hafter.2, hplain]
  obtain ⟨d, ds, rfl⟩ := List.exists_cons_of_ne_nil hne
  have hd : Lexeme.isDigit d = true := hwhole d List.mem_cons_self
  rw [← hnumber, plain, List.append_assoc, List.append_assoc]
  simp only [signs, List.mem_cons, List.not_mem_nil, or_false] at hsign
  have hstart : startsWithDigit (d :: ds ++ (fractionText part ++ rest)) = true := hd
  -- A sign takes another branch than a digit, but both lead to the same scan.
  rcases hsign with rfl | rfl | rfl
  · exact (Branch.digits hd).next_eq
  · exact (Branch.signed (.inl rfl) hstart).next_eq
  · exact (Branch.signed (.inr rfl) hstart).next_eq

open Numeral in
theorem exists_plain_of_number {sign rest : List Char} (hsign : sign ∈ signs)
    (hdigit : startsWithDigit rest = true) (h : (number sign rest).1.kind = .number) :
    ∃ whole part, IsPlain sign whole part ∧ (number sign rest).1.covers = plain sign whole part := by
  have hwhole : Digits (rest.takeWhile Lexeme.isDigit) := fun c hc => List.mem_takeWhile_imp hc
  have hne : rest.takeWhile Lexeme.isDigit ≠ [] := by
    cases rest with
    | nil => cases hdigit
    | cons c rest =>
      have hc : Lexeme.isDigit c = true := hdigit
      simp [hc]
  -- An atom that is not refused covers what has been scanned of it.
  have hatom {covers after : List Char} (h : (atom .number .inNumber covers after).1.kind = .number) :
      (atom .number .inNumber covers after).1.covers = covers := by
    unfold atom at h ⊢
    split at h
    · next hboundary =>
      rw [if_pos hboundary]
      rfl
    · cases h
  unfold number at h ⊢
  dsimp only at h ⊢
  split at h
  · next more _ =>
    split at h
    · cases h
    · next hempty =>
      rw [if_neg hempty, hatom h]
      refine ⟨_, more.takeWhile Lexeme.isDigit,
        ⟨hsign, hne, hwhole, fun c hc => List.mem_takeWhile_imp hc⟩, ?_⟩
      simp only [plain, fractionText, hempty, Bool.false_eq_true, if_false]
  · rw [hatom h]
    exact ⟨_, [], ⟨hsign, hne, hwhole, fun c hc => absurd hc List.not_mem_nil⟩,
      by simp [plain, fractionText]⟩

open Numeral in
/-- What is scanned as a number is a plain numeral. -/
theorem exists_plain_of_next [IdentifierClasses] {cs : List Char} (h : (next cs).1.kind = .number) :
    ∃ sign whole part, IsPlain sign whole part ∧ (next cs).1.covers = plain sign whole part := by
  cases cs with
  | nil => cases h
  | cons c rest =>
    obtain ⟨sign, hsign, digits, hdigit, hnext⟩ := (next_branch c rest).of_kind.2.1 h
    rw [hnext] at h ⊢
    exact ⟨sign, exists_plain_of_number hsign hdigit h⟩

/-! ## Strings and booleans -/

open Quoted in
theorem isEscapable_iff {c : Char} : isEscapable c = true ↔ c ∈ commonEscapes := by
  simp [isEscapable, commonEscapes, or_assoc]

/-- A character of a closed string that takes no other one with it is no backslash: one at the end of the
text would leave the string open. -/
theorem ne_backslash_of_closed {c : Char} {rest : List Char}
    (hslash : ∀ d ds, c = '\\' → rest = d :: ds → False) (h : (stringTail rest).closed = true) :
    c ≠ '\\' := by
  rintro rfl
  cases rest with
  | nil => cases h
  | cons d ds => exact hslash d ds rfl rfl

open Quoted in
/-- The string up to a closing quote has common escapes only, if all its escapes are known. -/
theorem escapeLetters_stringTail {cs : List Char} (hclosed : (stringTail cs).closed = true)
    (h : (stringTail cs).wellEscaped = true) :
    ∀ letter ∈ escapeLetters (stringTail cs).covers, letter ∈ commonEscapes := by
  fun_induction stringTail cs with
  | case1 => cases hclosed
  | case2 c rest t ih =>
    obtain ⟨hc, hrest⟩ := (Bool.and_eq_true _ _).mp h
    exact List.forall_mem_cons.2 ⟨isEscapable_iff.1 hc, ih hclosed hrest⟩
  | case3 rest => simp [escapeLetters]
  | case4 c rest hslash _ t ih =>
    rw [escapeLetters_cons_of_ne (ne_backslash_of_closed hslash hclosed)]
    exact ih hclosed h

/-- What is scanned as a string is a quote with the text up to a closing quote, of which all escapes are
known. -/
theorem exists_stringTail_of_next [IdentifierClasses] {cs : List Char}
    (h : (next cs).1.kind = .string) :
    ∃ rest, (next cs).1.covers = '"' :: (stringTail rest).covers ∧ (stringTail rest).closed = true ∧
      (stringTail rest).wellEscaped = true := by
  cases cs with
  | nil => cases h
  | cons c rest =>
    have hnext := (next_branch c rest).of_kind.2.2 h
    rw [hnext] at h ⊢
    unfold string at h ⊢
    dsimp only at h ⊢
    split at h
    · cases h
    · next hclosed =>
      split at h
      · cases h
      · next hescaped =>
        rw [if_neg hclosed, if_neg hescaped]
        exact ⟨rest, rfl, by simpa using hclosed, by simpa using hescaped⟩

open Quoted in
/-- What is scanned as a string has common escapes only. -/
theorem exists_inside_of_next [IdentifierClasses] {cs : List Char} (h : (next cs).1.kind = .string) :
    ∃ inside, (next cs).1.covers = '"' :: inside ∧
      ∀ letter ∈ escapeLetters inside, letter ∈ commonEscapes := by
  obtain ⟨rest, hcovers, hclosed, hescaped⟩ := exists_stringTail_of_next h
  exact ⟨_, hcovers, escapeLetters_stringTail hclosed hescaped⟩

/-- Characters that neither end a string nor start an escape are passed over. -/
theorem stringTail_append {cs : List Char} (h : ∀ c ∈ cs, c ≠ '\\' ∧ c ≠ '"') (rest : List Char) :
    stringTail (cs ++ rest) = ⟨cs ++ (stringTail rest).covers, (stringTail rest).closed,
      (stringTail rest).wellEscaped, (stringTail rest).rest⟩ := by
  induction cs with
  | nil => rfl
  | cons c cs ih =>
    obtain ⟨⟨hslash, hquote⟩, hcs⟩ := List.forall_mem_cons.1 h
    rw [List.cons_append, stringTail, ih hcs]
    · rfl
    · rintro _ _ h' -
      exact hslash h'
    · exact hquote

open Quoted in
/-- A written string ends at its last quote, and its escapes are known if they are common. -/
theorem stringTail_encode {s : Pieces} (hs : IsText s) :
    ∃ escaped, (∀ rest, stringTail (encode '"' s ++ '"' :: rest) =
        ⟨encode '"' s ++ ['"'], true, escaped, rest⟩) ∧
      (escaped = true ↔
        ∀ letter ∈ escapeLetters (encode '"' s ++ ['"']), letter ∈ commonEscapes) := by
  induction s with
  | nil => exact ⟨true, fun _ => rfl, by simp [encode, escapeLetters]⟩
  | cons piece s ih =>
    obtain ⟨⟨c, rfl⟩, hs'⟩ := List.forall_mem_cons.1 hs
    obtain ⟨escaped, htail, hescaped⟩ := ih hs'
    have hcons (after : List Char) : encode '"' (.char c :: s) ++ after =
        encodeChar '"' c ++ (encode '"' s ++ after) := by
      simp [encode, encodePiece]
    simp only [hcons]
    rcases encodeChar_cases c with ⟨hself, hquote, hslash, -⟩ | ⟨letter, tail, hletter, hplain, -⟩
    · refine ⟨escaped, fun rest => ?_, ?_⟩
      · rw [hself, stringTail_append (by simp [hquote, hslash]), htail]
      · rw [hself, List.singleton_append, escapeLetters_cons_of_ne hslash, hescaped]
    · refine ⟨isEscapable letter && escaped, fun rest => ?_, ?_⟩
      · rw [hletter, List.cons_append, List.cons_append, stringTail, stringTail_append hplain, htail]
        simp
      · rw [hletter, List.cons_append, List.cons_append, escapeLetters,
          escapeLetters_append fun hmem => (hplain _ hmem).1 rfl, Bool.and_eq_true, isEscapable_iff,
          hescaped, List.forall_mem_cons]

open Quoted in
/-- A written string is scanned as a string if its escapes are common, and as one illegal token
otherwise. -/
theorem next_pieces [IdentifierClasses] {s : Pieces} (hs : IsText s) :
    ∃ l, (∀ rest, next ((pieces s).toList ++ rest) = (l, rest)) ∧ l.covers = (pieces s).toList ∧
      (((∀ letter ∈ escapeLetters (pieces s).toList, letter ∈ commonEscapes) ∧
          l = sound .string (pieces s).toList) ∨
        ((¬ ∀ letter ∈ escapeLetters (pieces s).toList, letter ∈ commonEscapes) ∧
          l.kind = .illegal)) := by
  obtain ⟨escaped, htail, hescaped⟩ := stringTail_encode hs
  have htext : (pieces s).toList = '"' :: (encode '"' s ++ ['"']) := by simp [pieces]
  have hnext (rest : List Char) : next ('"' :: (encode '"' s ++ ['"']) ++ rest) =
      string (encode '"' s ++ '"' :: rest) := by
    rw [List.cons_append, List.append_assoc]
    exact (Branch.string rfl).next_eq
  rw [htext, escapeLetters_cons_of_ne (by decide), ← hescaped]
  simp only [hnext, string, htail]
  cases escaped with
  | true => exact ⟨_, fun _ => rfl, rfl, .inl ⟨rfl, rfl⟩⟩
  | false => exact ⟨_, fun _ => rfl, rfl, .inr ⟨by simp, rfl⟩⟩

theorem next_boolean [IdentifierClasses] (b : Bool) {rest : List Char}
    (hrest : atBoundary rest = true) :
    next ((Value.renderBoolean b).toList ++ rest) =
      (sound .boolean (Value.renderBoolean b).toList, rest) := by
  have hletter : ∀ x ∈ [if b then 't' else 'f'], continuesSymbol x = true := by
    rw [List.forall_mem_singleton]
    cases b <;> rw [continuesSymbol_of_lt (by decide)] <;> decide
  obtain ⟨htake, hdrop⟩ := takeWhile_append_of_atBoundary
    (fun _ => continuesSymbol_of_isDelimiter) hletter hrest
  have htext : (Value.renderBoolean b).toList = ['#', if b then 't' else 'f'] := by
    cases b <;> rfl
  rw [htext, List.cons_append, (Branch.hash rfl).next_eq, hash, htake, hdrop, if_pos]
  rw [hrest, Bool.and_true]
  cases b <;> decide

theorem isDelimiter_of_isDigit {c : Char} (h : isDigit c = true) : isDelimiter c = false := by
  rw [← Bool.not_eq_true]
  intro hdelimiter
  have hstart : startsWithDigit [c] = false := startsWithDigit_of_atBoundary hdelimiter
  rw [startsWithDigit, h] at hstart
  cases hstart

open Numeral in
/-- A plain numeral is scanned as a number in front of a delimiter. -/
theorem next_number [IdentifierClasses] {sign whole part rest : List Char} (h : IsPlain sign whole part)
    (hrest : atBoundary rest = true) :
    next (plain sign whole part ++ rest) = (sound .number (plain sign whole part), rest) := by
  rw [next_plain h, atom, if_pos hrest]
  intro c hc
  have hc := head_isDelimiter hrest c hc
  constructor
  · rw [← Bool.not_eq_true]
    intro hdigit
    rw [isDelimiter_of_isDigit hdigit] at hc
    cases hc
  · rintro rfl
    exact absurd hc (by decide)

open Numeral in
/-- A numeral with an exponent is scanned as one illegal token. -/
theorem next_exponent [IdentifierClasses] {sign whole part tail : List Char}
    (h : IsPlain sign whole part)
    (htail : ∀ c ∈ tail, Numeral.isDigit c = true ∨ c = '+' ∨ c = '-') :
    ∃ l, (∀ rest, atBoundary rest = true →
        next (plain sign whole part ++ 'e' :: tail ++ rest) = (l, rest)) ∧
      l.covers = plain sign whole part ++ 'e' :: tail ∧ l.kind = .illegal := by
  have hword : ∀ c ∈ 'e' :: tail, (!isDelimiter c) = true := by
    refine List.forall_mem_cons.2 ⟨by decide, fun c hc => ?_⟩
    rcases htail c hc with hdigit | rfl | rfl
    · rw [isDelimiter_of_isDigit hdigit]
      rfl
    · decide
    · decide
  refine ⟨⟨.illegal, _, some (.inNumber (some 'e')), false⟩, fun rest hrest => ?_, rfl, rfl⟩
  obtain ⟨htake, hdrop⟩ := takeWhile_append_of_atBoundary (q := fun c => !isDelimiter c)
    (fun c hc => by rw [hc]; rfl) hword hrest
  have hgoes : atBoundary ('e' :: tail ++ rest) ≠ true := by
    rw [List.cons_append, atBoundary]
    decide
  rw [List.append_assoc, next_plain h, atom, if_neg hgoes, malformed, htake, hdrop]
  · rfl
  · intro c hc
    cases hc
    decide

end Lexeme

end TypedScheme
