import TypedScheme.Token.Lexer

/-!
# The lexemes of a text

The lexemes of a text cover it without gaps, so the tokens of a text are its lexemes, each placed
where those before it end. Everything that is said about the tokens of a text is said about
`Token.significantAt`, the significant tokens of a text that starts at a position, which is taken
apart one lexeme at a time. All of it holds for any identifier classes.

## What this module delivers

- `Lexeme.Branch`: the ways in which a first lexeme is read, with `Lexeme.next_branch` and
  `Lexeme.Branch.next_eq`.
- `Lexeme.covers_append_rest` and `Lexeme.covers_ne_nil`: a lexeme covers the text up to where the
  next one starts, and at least one character.
- `Lexeme.lexemes`, the lexemes of a text, and `Token.scan_eq_placed`; `Cursor.call`, one token after the
  other.
- `Token.significantAt` with `Token.significant_eq`, and its equations: one for a lexeme
  (`significantAt_of_next`), one for a blank (`significantAt_blank`) and one for a character that is
  a token by itself (`significantAt_punctuation`).
-/

set_option autoImplicit false

namespace TypedScheme

open Text

/-- Counting along a text in two parts is counting along the whole. -/
theorem Position.after_append (p : Position) (cs ds : List Char) :
    p.after (cs ++ ds) = (p.after cs).after ds :=
  List.foldl_append

@[simp] theorem Position.after_nil (p : Position) : p.after [] = p := rfl

namespace Lexeme

/-! ## Parts of lexemes

What is said here does not depend on the identifier classes. -/

/-- A digit is no blank. -/
theorem isBlank_of_isDigit {c : Char} (h : isDigit c = true) : isBlank c = false := by
  simp only [isDigit, Bool.and_eq_true, decide_eq_true_eq] at h
  have hlow : 48 ≤ c.toNat := h.1
  have hhigh : c.toNat ≤ 57 := h.2
  simp only [isBlank, blankRanges, CodeRanges.holds]
  repeat (first | rw [if_neg (by omega)] | rw [if_pos (by omega)])

/-- A malformed atom and the text after it are what it was read from. -/
theorem malformed_covers_append_rest (fault : LexicalFault) (covers rest : List Char) :
    (malformed fault covers rest).1.covers ++ (malformed fault covers rest).2 = covers ++ rest := by
  simp [malformed, List.takeWhile_append_dropWhile]

theorem atom_covers_append_rest (kind : Token.Kind) (fault : Option Char → LexicalFault)
    (covers rest : List Char) :
    (atom kind fault covers rest).1.covers ++ (atom kind fault covers rest).2 = covers ++ rest := by
  unfold atom
  split
  · rfl
  · exact malformed_covers_append_rest _ _ _

theorem run_covers_append_rest (kind : Token.Kind) (p : Char → Bool) (cs : List Char) :
    (run kind p cs).1.covers ++ (run kind p cs).2 = cs :=
  List.takeWhile_append_dropWhile

theorem number_covers_append_rest (sign rest : List Char) :
    (number sign rest).1.covers ++ (number sign rest).2 = sign ++ rest := by
  have hrest : rest.takeWhile isDigit ++ rest.dropWhile isDigit = rest :=
    List.takeWhile_append_dropWhile
  unfold number
  dsimp only
  split
  · rename_i more hmore
    have hfraction : sign ++ rest.takeWhile isDigit ++ '.' :: more.takeWhile isDigit ++
        more.dropWhile isDigit = sign ++ rest := by
      rw [List.append_assoc, List.cons_append, List.takeWhile_append_dropWhile, List.append_assoc,
        ← hmore, hrest]
    split
    · rw [malformed_covers_append_rest, hfraction]
    · rw [atom_covers_append_rest, hfraction]
  · rw [atom_covers_append_rest, List.append_assoc, hrest]

/-- The rest of a string and the text after it are what it was read from. -/
theorem stringTail_covers_append_rest (cs : List Char) :
    (stringTail cs).covers ++ (stringTail cs).rest = cs := by
  fun_induction stringTail cs with
  | case1 => rfl
  | case2 c rest t ih => simpa using ih
  | case3 rest => rfl
  | case4 c rest _ _ t ih => simpa using ih

theorem string_covers_append_rest (rest : List Char) :
    (string rest).1.covers ++ (string rest).2 = '"' :: rest := by
  have h := stringTail_covers_append_rest rest
  unfold string
  dsimp only
  split
  · simpa using h
  · split
    · simpa using h
    · simpa [sound] using h

theorem length_rest_lt_of_covers {l : Lexeme} {cs rest : List Char} (h : l.covers ++ rest = cs)
    (hne : l.covers ≠ []) : rest.length < cs.length := by
  have := List.length_pos_iff.2 hne
  rw [← h, List.length_append]
  omega

/-- An atom covers what it starts with, malformed or not. -/
theorem atom_covers_ne_nil {kind : Token.Kind} {fault : Option Char → LexicalFault}
    {covers rest : List Char} (h : covers ≠ []) : (atom kind fault covers rest).1.covers ≠ [] := by
  unfold atom
  split
  · exact h
  · simp [malformed, h]

theorem number_covers_ne_nil {sign rest : List Char} (h : sign ++ rest.takeWhile isDigit ≠ []) :
    (number sign rest).1.covers ≠ [] := by
  unfold number
  dsimp only
  split
  · split
    · simp [malformed]
    · exact atom_covers_ne_nil (by simp)
  · exact atom_covers_ne_nil h

theorem string_covers_ne_nil (rest : List Char) : (string rest).1.covers ≠ [] := by
  unfold string
  dsimp only
  split
  · simp
  · split <;> simp [sound]

/-- A lexeme of a kind without fault, or an illegal one. -/
def SoundOrIllegal (kind : Token.Kind) (l : Lexeme) : Prop :=
  l = sound kind l.covers ∨ l.kind = .illegal

/-- An atom is of its kind, or it is malformed. -/
theorem soundOrIllegal_atom (kind : Token.Kind) (fault : Option Char → LexicalFault)
    (covers rest : List Char) : SoundOrIllegal kind (atom kind fault covers rest).1 := by
  unfold atom
  split
  · exact .inl rfl
  · exact .inr rfl

theorem soundOrIllegal_number (sign rest : List Char) :
    SoundOrIllegal .number (number sign rest).1 := by
  unfold number
  dsimp only
  split
  · split
    · exact .inr rfl
    · exact soundOrIllegal_atom _ _ _ _
  · exact soundOrIllegal_atom _ _ _ _

theorem soundOrIllegal_string (rest : List Char) : SoundOrIllegal .string (string rest).1 := by
  unfold string
  dsimp only
  split
  · exact .inr rfl
  · split
    · exact .inr rfl
    · exact .inl rfl

end Lexeme

variable [IdentifierClasses]

namespace Lexeme

/-! ## The first lexeme -/

/-- Which ASCII characters start a symbol does not depend on the identifier classes. -/
theorem startsSymbol_of_lt {c : Char} (h : c.toNat < 128) :
    startsSymbol c = (c.isAlpha || symbolPunctuation.contains c) := by
  rw [startsSymbol, (IdentifierClasses.ascii c h).1]

/-- Which ASCII characters continue a symbol does not depend on the identifier classes. -/
theorem continuesSymbol_of_lt {c : Char} (h : c.toNat < 128) :
    continuesSymbol c = ((c.isAlphanum || c = '_') || symbolPunctuation.contains c) := by
  rw [continuesSymbol, (IdentifierClasses.ascii c h).2]

/-- A symbol starts here: the first character may start one, and it is not the sign of a number. -/
structure SymbolStart (c : Char) (rest : List Char) : Prop where
  starts : startsSymbol c = true
  not_blank : isBlank c = false
  not_comment : c ≠ ';'
  not_string : c ≠ '"'
  not_hash : c ≠ '#'
  not_digit : isDigit c = false
  not_signed : ((c = '+' || c = '-') && startsWithDigit rest) = false

/-- Nothing starts with this character. -/
structure StartsNothing (c : Char) : Prop where
  not_blank : isBlank c = false
  not_comment : c ≠ ';'
  not_string : c ≠ '"'
  not_hash : c ≠ '#'
  not_digit : isDigit c = false
  not_symbol : startsSymbol c = false
  not_punctuation : punctuation? c = none

/-- The ways in which the first lexeme of a text is read, by its first character. -/
inductive Branch (c : Char) (rest : List Char) : Lexeme × List Char → Prop
  | blank : isBlank c = true → Branch c rest (run .whitespace isBlank (c :: rest))
  | comment : c = ';' → Branch c rest (run .comment (· ≠ '\n') (c :: rest))
  | string : c = '"' → Branch c rest (Lexeme.string rest)
  | hash : c = '#' → Branch c rest (Lexeme.hash rest)
  | digits : isDigit c = true → Branch c rest (number [] (c :: rest))
  | signed : c = '+' ∨ c = '-' → startsWithDigit rest = true → Branch c rest (number [c] rest)
  | symbol : SymbolStart c rest → Branch c rest (Lexeme.symbol c rest)
  | punctuation {kind : Token.Kind} : punctuation? c = some kind →
      Branch c rest (sound kind [c], rest)
  | unexpected : StartsNothing c →
      Branch c rest (⟨.illegal, [c], some (.unexpected c), false⟩, rest)

/-- Every text with a first character is read by one of the branches. -/
theorem next_branch (c : Char) (rest : List Char) : Branch c rest (next (c :: rest)) := by
  rw [next]
  split
  · exact .blank ‹_›
  split
  · exact .comment ‹_›
  split
  · exact .string ‹_›
  split
  · exact .hash ‹_›
  split
  · exact .digits ‹_›
  split
  · rename_i hsigned
    simp only [Bool.and_eq_true, Bool.or_eq_true, decide_eq_true_eq] at hsigned
    exact .signed hsigned.1 hsigned.2
  -- A branch from here on says what has been excluded before it.
  rename_i hblank hcomment hstring hhash hdigit hsigned
  split
  · exact .symbol ⟨‹_›, Bool.eq_false_iff.2 hblank, hcomment, hstring, hhash,
      Bool.eq_false_iff.2 hdigit, Bool.eq_false_iff.2 hsigned⟩
  rename_i hsymbol
  split
  · exact .punctuation ‹_›
  · exact .unexpected ⟨Bool.eq_false_iff.2 hblank, hcomment, hstring, hhash,
      Bool.eq_false_iff.2 hdigit, Bool.eq_false_iff.2 hsymbol, ‹_›⟩

/-- The branch of a text is decided by its first character and, behind a sign, by whether a digit
follows. -/
theorem Branch.next_eq {c : Char} {rest : List Char} {r : Lexeme × List Char}
    (h : Branch c rest r) : next (c :: rest) = r := by
  cases h with
  | blank h => simp [next, h]
  | comment h => subst h; rfl
  | string h => subst h; rfl
  | hash h => subst h; rfl
  | digits h =>
    have hblank := isBlank_of_isDigit h
    have hne : c ≠ ';' ∧ c ≠ '"' ∧ c ≠ '#' := by
      refine ⟨?_, ?_, ?_⟩ <;> rintro rfl <;> simp [isDigit] at h
    simp [next, h, hblank, hne]
  | signed h hdigit =>
    rcases h with rfl | rfl <;> simp [next, hdigit] <;> rfl
  | symbol h =>
    simp [next, h.not_blank, h.not_comment, h.not_string, h.not_hash, h.not_digit, h.starts]
    intro hsign hdigit
    have := h.not_signed
    simp_all
  | punctuation h =>
    -- The characters that are tokens by themselves are ASCII, and none of them starts a symbol.
    have hc : c.toNat < 128 ∧ (c.isAlpha || symbolPunctuation.contains c) = false := by
      unfold punctuation? at h
      split at h <;> cases h <;> decide
    have hsymbol := (startsSymbol_of_lt hc.1).trans hc.2
    unfold punctuation? at h
    split at h <;> cases h <;> simp only [next, hsymbol] <;> rfl
  | unexpected h =>
    have hsign : c ≠ '+' ∧ c ≠ '-' := by
      constructor <;> rintro rfl <;>
        exact absurd ((startsSymbol_of_lt (by decide)).symm.trans h.not_symbol) (by decide)
    simp [next, h.not_blank, h.not_comment, h.not_string, h.not_hash, h.not_digit, h.not_symbol,
      h.not_punctuation, hsign]

/-! ## What a lexeme covers -/

theorem symbol_covers_append_rest (c : Char) (rest : List Char) :
    (symbol c rest).1.covers ++ (symbol c rest).2 = c :: rest := by
  rw [symbol, atom_covers_append_rest, List.cons_append, List.takeWhile_append_dropWhile]

theorem hash_covers_append_rest (rest : List Char) :
    (hash rest).1.covers ++ (hash rest).2 = '#' :: rest := by
  unfold hash
  dsimp only
  split
  · simp [sound, List.takeWhile_append_dropWhile]
  · simp [List.takeWhile_append_dropWhile]

/-- A lexeme and the text after it are the text. -/
theorem covers_append_rest (cs : List Char) : (next cs).1.covers ++ (next cs).2 = cs := by
  cases cs with
  | nil => rfl
  | cons c rest =>
    have h := next_branch c rest
    generalize next (c :: rest) = r at h ⊢
    cases h with
    | blank h => exact run_covers_append_rest _ _ _
    | comment h => exact run_covers_append_rest _ _ _
    | string h => rw [string_covers_append_rest, h]
    | hash h => rw [hash_covers_append_rest, h]
    | digits h => exact number_covers_append_rest _ _
    | signed h hdigit => exact number_covers_append_rest _ _
    | symbol h => exact symbol_covers_append_rest _ _
    | punctuation h => rfl
    | unexpected h => rfl

theorem hash_covers_ne_nil (rest : List Char) : (hash rest).1.covers ≠ [] := by
  unfold hash
  dsimp only
  split <;> simp [sound]

/-- A lexeme covers a character, if there is one. -/
theorem covers_ne_nil {cs : List Char} (h : cs ≠ []) : (next cs).1.covers ≠ [] := by
  cases cs with
  | nil => exact absurd rfl h
  | cons c rest =>
    have h := next_branch c rest
    generalize next (c :: rest) = r at h ⊢
    cases h with
    | blank h => simp [run, sound, h]
    | comment h => simp [run, sound, h]
    | string h => exact string_covers_ne_nil _
    | hash h => exact hash_covers_ne_nil _
    | digits h => exact number_covers_ne_nil (by simp [h])
    | signed h hdigit => exact number_covers_ne_nil (by simp)
    | symbol h => exact atom_covers_ne_nil (by simp)
    | punctuation h => simp [sound]
    | unexpected h => simp

/-- Behind a lexeme there is less text. -/
theorem length_rest_lt {cs : List Char} (h : cs ≠ []) : (next cs).2.length < cs.length :=
  length_rest_lt_of_covers (covers_append_rest cs) (covers_ne_nil h)

/-! ## The kind of a lexeme -/

theorem soundOrIllegal_hash (rest : List Char) : SoundOrIllegal .boolean (hash rest).1 := by
  unfold hash
  dsimp only
  split
  · exact .inl rfl
  · exact .inr rfl

/-- Every lexeme is without fault or illegal, and none ends the input before the text ends. -/
theorem exists_soundOrIllegal {cs : List Char} (h : cs ≠ []) :
    ∃ kind, kind ≠ .endOfInput ∧ SoundOrIllegal kind (next cs).1 := by
  obtain ⟨c, rest, rfl⟩ := List.exists_cons_of_ne_nil h
  have h := next_branch c rest
  generalize next (c :: rest) = r at h ⊢
  cases h with
  | blank h => exact ⟨.whitespace, by decide, .inl rfl⟩
  | comment h => exact ⟨.comment, by decide, .inl rfl⟩
  | string h => exact ⟨.string, by decide, soundOrIllegal_string rest⟩
  | hash h => exact ⟨.boolean, by decide, soundOrIllegal_hash rest⟩
  | digits h => exact ⟨.number, by decide, soundOrIllegal_number _ _⟩
  | signed h hdigit => exact ⟨.number, by decide, soundOrIllegal_number _ _⟩
  | symbol h => exact ⟨.symbol, by decide, soundOrIllegal_atom _ _ _ _⟩
  | @punctuation kind h =>
    refine ⟨kind, ?_, .inl rfl⟩
    unfold punctuation? at h
    split at h <;> cases h <;> decide
  | unexpected h => exact ⟨.illegal, by decide, .inr rfl⟩

/-- The input does not end where there is text. -/
theorem kind_ne_endOfInput {cs : List Char} (h : cs ≠ []) : (next cs).1.kind ≠ .endOfInput := by
  obtain ⟨kind, hkind, hsound | hillegal⟩ := exists_soundOrIllegal h
  · rw [hsound]
    exact hkind
  · simp [hillegal]

/-- A lexeme that is not illegal has no fault. -/
theorem eq_sound_of_kind_ne {cs : List Char} (h : cs ≠ []) (hkind : (next cs).1.kind ≠ .illegal) :
    (next cs).1 = sound (next cs).1.kind (next cs).1.covers := by
  obtain ⟨kind, -, hsound | hillegal⟩ := exists_soundOrIllegal h
  · rw [hsound]
    rfl
  · exact absurd hillegal hkind

/-! ## All lexemes -/

/-- The lexemes of a text, one after the other. -/
def lexemes (cs : List Char) : List Lexeme :=
  if _h : cs = [] then [] else (next cs).1 :: lexemes (next cs).2
termination_by cs.length
decreasing_by exact length_rest_lt _h

@[simp] theorem lexemes_nil : lexemes [] = [] := by
  rw [lexemes]
  rfl

/-- The lexemes of a text are the first, and those of the text after it. -/
theorem lexemes_of_ne_nil {cs : List Char} (h : cs ≠ []) :
    lexemes cs = (next cs).1 :: lexemes (next cs).2 := by
  rw [lexemes, dif_neg h]

/-- Lexemes as tokens, the first of them at a position. -/
def placed (p : Position) : List Lexeme → List Token
  | [] => []
  | l :: ls => l.token p :: placed (p.after l.covers) ls

/-- Every token of a text is the first one of what is left of the text where it starts. -/
theorem exists_of_mem_placed {cs : List Char} {p : Position} {t : Token}
    (ht : t ∈ placed p (lexemes cs)) : ∃ rest q, rest ≠ [] ∧ t = (next rest).1.token q := by
  by_cases hcs : cs = []
  · simp [hcs, placed] at ht
  · rw [lexemes_of_ne_nil hcs, placed, List.mem_cons] at ht
    rcases ht with rfl | ht
    · exact ⟨cs, p, hcs, rfl⟩
    · exact exists_of_mem_placed ht
termination_by cs.length
decreasing_by exact length_rest_lt hcs

theorem kind_of_mem_placed {cs : List Char} {p : Position} {t : Token}
    (ht : t ∈ placed p (lexemes cs)) : t.kind ≠ .endOfInput := by
  obtain ⟨rest, q, hrest, rfl⟩ := exists_of_mem_placed ht
  exact kind_ne_endOfInput hrest

end Lexeme

open Lexeme

namespace Cursor

/-- The cursor after a number of calls. -/
def after (c : Cursor) : Nat → Cursor
  | 0 => c
  | i + 1 => (after c i).next.2

/-- The token that a call gives after a number of calls. -/
def call (c : Cursor) (i : Nat) : Token := (c.after i).next.1

theorem next_end (p : Position) :
    next ⟨p, []⟩ = ((sound .endOfInput []).token p, ⟨p, []⟩) := rfl

/-- Enough fuel brings a cursor to the end, through the lexemes of the text. -/
theorem tokensWithin_eq (fuel : Nat) (p : Position) (cs : List Char) (h : cs.length ≤ fuel) :
    tokensWithin fuel ⟨p, cs⟩ =
      (placed p (lexemes cs) ++ [(sound .endOfInput []).token (p.after cs)], ⟨p.after cs, []⟩) := by
  induction fuel generalizing p cs with
  | zero =>
    obtain rfl : cs = [] := List.length_eq_zero_iff.1 (Nat.le_zero.1 h)
    simp [tokensWithin, next_end, placed]
  | succ fuel ih =>
    by_cases hcs : cs = []
    · subst hcs
      simp [tokensWithin, next_end, placed, sound, Lexeme.token]
    · have hkind : (Cursor.next ⟨p, cs⟩).1.kind ≠ .endOfInput := kind_ne_endOfInput hcs
      have hafter : (p.after (Lexeme.next cs).1.covers).after (Lexeme.next cs).2 = p.after cs := by
        rw [← Position.after_append, covers_append_rest]
      have hlength := length_rest_lt hcs
      have hrest := ih (p.after (Lexeme.next cs).1.covers) (Lexeme.next cs).2 (by omega)
      rw [tokensWithin]
      simp only [hkind, if_false]
      rw [lexemes_of_ne_nil hcs]
      simp only [Cursor.next, hrest, placed, hafter, List.cons_append]

end Cursor

namespace Token

/-- The tokens of a text are its lexemes in their places, and then the end of the input. -/
theorem scan_eq_placed (source : String) :
    scan source = placed .start (lexemes source.toList) ++
      [(sound .endOfInput []).token (Position.start.after source.toList)] := by
  rw [scan, Cursor.tokens, Cursor.ofSource, Cursor.tokensWithin_eq _ _ _ (Nat.le_refl _)]

/-! ## Significant tokens -/

/-- The significant tokens of a text that starts at a position. -/
def significantAt (p : Position) (cs : List Char) : List Token :=
  (placed p (lexemes cs)).filter fun t => !t.kind.isLayout

/-- The significant tokens of a text are those of its characters, from the first position on. -/
theorem significant_eq (source : String) :
    significant source = significantAt .start source.toList := by
  rw [significant, scan_eq_placed, List.filter_append, significantAt]
  have hlast : (sound .endOfInput []).token (Position.start.after source.toList) =
    ⟨.endOfInput, (sound .endOfInput []).span (Position.start.after source.toList), ""⟩ := rfl
  simp only [hlast, List.filter_cons, List.filter_nil]
  simp only [ne_eq, not_true_eq_false, decide_false, Bool.and_false, Bool.false_eq_true, if_false,
    List.append_nil]
  refine List.filter_congr fun t ht => ?_
  simp [kind_of_mem_placed ht]

variable {p : Position} {cs rest : List Char} {l : Lexeme}

@[simp] theorem significantAt_nil : significantAt p [] = [] := by simp [significantAt, placed]

theorem kind_of_mem_significantAt {t : Token} (ht : t ∈ significantAt p cs) :
    t.kind ≠ .endOfInput :=
  kind_of_mem_placed (List.mem_filter.1 ht).1

/-- The tokens of a text by its first lexeme: layout is passed over. -/
theorem significantAt_of_ne_nil (p : Position) (hcs : cs ≠ []) :
    significantAt p cs =
      (if (Lexeme.next cs).1.kind.isLayout then [] else [(Lexeme.next cs).1.token p]) ++
        significantAt (p.after (Lexeme.next cs).1.covers) (Lexeme.next cs).2 := by
  rw [significantAt, lexemes_of_ne_nil hcs, placed, List.filter_cons, significantAt]
  cases hl : (Lexeme.next cs).1.kind.isLayout <;> simp [Lexeme.token, hl]

theorem significantAt_of_kind (p : Position) (hcs : cs ≠ [])
    (h : (Lexeme.next cs).1.kind.isLayout = false) :
    significantAt p cs = (Lexeme.next cs).1.token p ::
      significantAt (p.after (Lexeme.next cs).1.covers) (Lexeme.next cs).2 := by
  rw [significantAt_of_ne_nil p hcs, h]
  rfl

/-- The significant tokens of a text, by the lexeme that it starts with. -/
theorem significantAt_of_next (hcs : cs ≠ []) (h : Lexeme.next cs = (l, rest)) :
    significantAt p cs =
      (if l.kind.isLayout then [] else [l.token p]) ++ significantAt (p.after l.covers) rest := by
  rw [significantAt_of_ne_nil p hcs, h]

/-- White space in front of a text only moves its tokens. -/
theorem significantAt_dropWhile_isBlank (p : Position) (cs : List Char) :
    significantAt p cs = significantAt (p.after (cs.takeWhile isBlank)) (cs.dropWhile isBlank) := by
  cases cs with
  | nil => rfl
  | cons c cs =>
    by_cases hc : isBlank c
    · exact significantAt_of_next (List.cons_ne_nil c cs) (Branch.blank hc).next_eq
    · simp [hc]

/-- A blank in front of a text only moves its tokens. -/
theorem significantAt_blank {c : Char} (hc : isBlank c = true) :
    significantAt p (c :: cs) = significantAt (p.step c) cs := by
  rw [significantAt_dropWhile_isBlank p, significantAt_dropWhile_isBlank (p.step c)]
  simp [hc, Position.after]

/-- Blanks in front of a text only move its tokens. -/
theorem significantAt_blanks (h : ∀ c ∈ cs, isBlank c = true) (rest : List Char) :
    significantAt p (cs ++ rest) = significantAt (p.after cs) rest := by
  induction cs generalizing p with
  | nil => rfl
  | cons c cs ih =>
    obtain ⟨hc, hcs⟩ := List.forall_mem_cons.1 h
    rw [List.cons_append, significantAt_blank hc, ih hcs]
    rfl

/-- A character that is a token by itself is one whatever follows it. -/
theorem significantAt_punctuation {c : Char} {kind : Kind} (h : punctuation? c = some kind) :
    significantAt p (c :: cs) = bare kind ⟨p, p⟩ :: significantAt (p.step c) cs := by
  have hnext : Lexeme.next (c :: cs) = (sound kind [c], cs) := (Branch.punctuation h).next_eq
  have hkind : kind.isLayout = false ∧ showsText kind = false := by
    unfold punctuation? at h
    split at h <;> cases h <;> decide
  rw [significantAt_of_next (List.cons_ne_nil c cs) hnext]
  simp [sound, hkind, Lexeme.token, Lexeme.text, Lexeme.span, bare, Position.after]

end Token

end TypedScheme
