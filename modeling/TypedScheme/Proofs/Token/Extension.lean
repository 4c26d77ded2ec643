import Mathlib.Data.List.TakeWhile
import TypedScheme.Proofs.Token.Lexemes

/-!
# More lines

What the lexemes of a text become when the text goes on on a new line. A line feed ends every atom and
every comment, and joins white space, so all tokens stay as they are. Two illegal tokens at the end of
the text are no exception to the rule that they are of no use: a number that ends in a point stays
illegal, and a string that is not closed stays illegal or is closed on a later line, with the line feed
inside.

## What this module delivers

- `Lexeme.next_newline`: the first lexeme of a text that goes on on a new line.
- `Token.significantAt_newline`: the tokens of a text that goes on on a new line are the tokens of the
  text and those of the rest, up to such an illegal token at the end.
-/

set_option autoImplicit false

namespace TypedScheme

open Text

namespace Lexeme

variable {more : List Char}

/-! ## Runs of characters -/

/-- A class without the line feed ends in front of it. -/
theorem takeWhile_newline {p : Char → Bool} (hp : p '\n' = false) (cs : List Char) :
    (cs ++ '\n' :: more).takeWhile p = cs.takeWhile p := by
  induction cs with
  | nil => simp [hp]
  | cons c cs ih => simp [List.takeWhile_cons, ih]

theorem dropWhile_newline {p : Char → Bool} (hp : p '\n' = false) (cs : List Char) :
    (cs ++ '\n' :: more).dropWhile p = cs.dropWhile p ++ '\n' :: more := by
  induction cs with
  | nil => simp [hp]
  | cons c cs ih =>
    simp only [List.cons_append, List.dropWhile_cons, ih]
    split <;> rfl

/-- A line feed is a boundary, as the end of the text is. -/
theorem atBoundary_newline (cs : List Char) : atBoundary (cs ++ '\n' :: more) = atBoundary cs := by
  cases cs with
  | nil => rfl
  | cons c cs => rfl

theorem head?_newline {cs : List Char} (h : cs ≠ []) :
    (cs ++ '\n' :: more).head? = cs.head? := by
  cases cs with
  | nil => exact absurd rfl h
  | cons c cs => rfl

theorem startsWithDigit_newline (cs : List Char) :
    startsWithDigit (cs ++ '\n' :: more) = startsWithDigit cs := by
  cases cs with
  | nil => rfl
  | cons c cs => rfl

/-! ## The lexemes of each kind -/

/-- The same lexeme, in front of a text that goes on on a new line. -/
def goesOn (more : List Char) (r : Lexeme × List Char) : Lexeme × List Char :=
  (r.1, r.2 ++ '\n' :: more)

/-- A run that cannot hold a line feed ends in front of it. -/
theorem run_newline {p : Char → Bool} (hp : p '\n' = false) (kind : Token.Kind) (cs : List Char) :
    run kind p (cs ++ '\n' :: more) = goesOn more (run kind p cs) := by
  rw [run, takeWhile_newline hp, dropWhile_newline hp]
  rfl

theorem malformed_newline (fault : LexicalFault) (covers rest : List Char) :
    malformed fault covers (rest ++ '\n' :: more) = goesOn more (malformed fault covers rest) := by
  rw [malformed, takeWhile_newline (by decide), dropWhile_newline (by decide)]
  rfl

/-- An atom ends in front of a line feed as it does at the end of the text. -/
theorem atom_newline (kind : Token.Kind) (fault : Option Char → LexicalFault)
    (covers rest : List Char) :
    atom kind fault covers (rest ++ '\n' :: more) = goesOn more (atom kind fault covers rest) := by
  unfold atom
  rw [atBoundary_newline]
  split
  · rfl
  · rename_i hboundary
    -- The end of the text is a boundary, so there is a character at fault.
    have hne : rest ≠ [] := fun h => hboundary (by simp [h, atBoundary])
    rw [head?_newline hne, malformed_newline]

/-- A line feed is no part of a symbol. -/
theorem continuesSymbol_newline [IdentifierClasses] : continuesSymbol '\n' = false :=
  (continuesSymbol_of_lt (by decide)).trans (by decide)

theorem symbol_newline [IdentifierClasses] (c : Char) (rest : List Char) :
    symbol c (rest ++ '\n' :: more) = goesOn more (symbol c rest) := by
  rw [symbol, takeWhile_newline continuesSymbol_newline, dropWhile_newline continuesSymbol_newline,
    atom_newline]
  rfl

theorem hash_newline [IdentifierClasses] (rest : List Char) :
    hash (rest ++ '\n' :: more) = goesOn more (hash rest) := by
  unfold hash
  dsimp only
  rw [takeWhile_newline continuesSymbol_newline, dropWhile_newline continuesSymbol_newline,
    atBoundary_newline, takeWhile_newline (by decide), dropWhile_newline (by decide)]
  split <;> rfl

/-- A number goes on as it is, or it ends in a point. -/
theorem number_newline (sign rest more : List Char) :
    number sign (rest ++ '\n' :: more) = goesOn more (number sign rest) ∨
      (number sign rest).1.kind = .illegal ∧
        (number sign (rest ++ '\n' :: more)).1.kind = .illegal := by
  unfold number
  dsimp only
  rw [takeWhile_newline (by decide), dropWhile_newline (by decide)]
  cases hrest : rest.dropWhile isDigit with
  | nil => exact .inl (atom_newline .number .inNumber _ [])
  | cons c after =>
    by_cases hc : c = '.'
    · subst hc
      simp only [List.cons_append, takeWhile_newline (show isDigit '\n' = false by decide),
        dropWhile_newline (show isDigit '\n' = false by decide)]
      -- Without digits behind the point both are illegal, but the message may name the line feed.
      split
      · exact .inr ⟨rfl, rfl⟩
      · exact .inl (atom_newline _ _ _ _)
    · refine .inl ?_
      have hmatch : atom .number .inNumber (sign ++ rest.takeWhile isDigit)
          (c :: after ++ '\n' :: more) = goesOn more _ := atom_newline _ _ _ _
      split
      · rename_i h
        exact absurd (List.cons.inj h).1 hc
      · split
        · rename_i h
          exact absurd (List.cons.inj h).1 hc
        · exact hmatch

theorem stringTail_of_ne {c : Char} (hescape : c ≠ '\\') (hquote : c ≠ '"') (rest : List Char) :
    stringTail (c :: rest) = { stringTail rest with covers := c :: (stringTail rest).covers } := by
  rw [stringTail]
  · intro x ys h
    exact absurd h hescape
  · exact hquote

/-- A closed string stays as it is, and one that is not closed takes in the line feed. -/
theorem stringTail_newline (cs more : List Char) :
    if (stringTail cs).closed then
      stringTail (cs ++ '\n' :: more) =
        { stringTail cs with rest := (stringTail cs).rest ++ '\n' :: more }
    else '\n' ∈ (stringTail (cs ++ '\n' :: more)).covers := by
  fun_induction stringTail cs with
  | case1 => simp [stringTail_of_ne]
  | case2 c rest t ih =>
    simp only [List.cons_append, stringTail]
    split at ih
    · rename_i hclosed
      simp [t, hclosed, ih]
    · rename_i hclosed
      simp [t, hclosed, ih]
  | case3 rest => simp [stringTail]
  | case4 c rest hescape hquote t ih =>
    by_cases hc : c = '\\'
    · -- A backslash at the end of the text takes the line feed with it.
      have hrest : rest = [] := by
        cases rest with
        | nil => rfl
        | cons x ys => exact absurd rfl (hescape x ys hc)
      subst hrest hc
      simp [t, stringTail]
    · rw [List.cons_append, stringTail_of_ne hc hquote]
      split at ih
      · rename_i hclosed
        simp [t, hclosed, ih]
      · rename_i hclosed
        simp [t, hclosed, ih]

/-- A string literal with a line feed behind its opening quote. -/
def SpansLines (cs : List Char) : Prop := ∃ inside, cs = '"' :: inside ∧ '\n' ∈ inside

/-- A string goes on as it is, or it is not closed yet: behind the line feed it stays illegal or is
closed on a later line. -/
theorem string_newline (rest more : List Char) :
    string (rest ++ '\n' :: more) = goesOn more (string rest) ∨
      (string rest).1.kind = .illegal ∧
        ((string (rest ++ '\n' :: more)).1.kind = .illegal ∨
          (string (rest ++ '\n' :: more)).1.kind = .string ∧
            SpansLines (string (rest ++ '\n' :: more)).1.covers) := by
  have h := stringTail_newline rest more
  split at h
  · rename_i hclosed
    refine .inl ?_
    simp only [string, h, hclosed]
    split
    · rename_i hopen
      simp at hopen
    · split <;> rfl
  · rename_i hclosed
    refine .inr ⟨by simp [string, hclosed], ?_⟩
    unfold string
    dsimp only
    split
    · exact .inl rfl
    · split
      · exact .inl rfl
      · exact .inr ⟨rfl, _, rfl, h⟩

/-! ## The first lexeme -/

/-- What becomes of the first lexeme of a text that goes on on a new line. -/
inductive Continued [IdentifierClasses] (cs more : List Char) : Prop
  | same : next (cs ++ '\n' :: more) = goesOn more (next cs) → Continued cs more
  | blank : (∀ c ∈ cs, isBlank c = true) → Continued cs more
  | illegal : (next cs).1.kind = .illegal → (next (cs ++ '\n' :: more)).1.kind = .illegal →
      Continued cs more
  | string : (next cs).1.kind = .illegal → (next (cs ++ '\n' :: more)).1.kind = .string →
      SpansLines (next (cs ++ '\n' :: more)).1.covers → Continued cs more

theorem SymbolStart.newline [IdentifierClasses] {c : Char} {rest : List Char} (h : SymbolStart c rest) :
    SymbolStart c (rest ++ '\n' :: more) :=
  { h with not_signed := by rw [startsWithDigit_newline]; exact h.not_signed }

theorem continued_of_number [IdentifierClasses] {sign rest : List Char} {c : Char} {cs : List Char}
    (h : next (c :: cs) = number sign rest)
    (h' : next (c :: (cs ++ '\n' :: more)) = number sign (rest ++ '\n' :: more)) :
    Continued (c :: cs) more := by
  rcases number_newline sign rest more with hsame | ⟨hkind, hkind'⟩
  · exact .same (by rw [List.cons_append, h', hsame, h])
  · exact .illegal (by rw [h, hkind]) (by rw [List.cons_append, h', hkind'])

/-- White space that ends before the text does is not touched by what follows the text. -/
theorem run_isBlank_append {cs : List Char} (h : ¬∀ c ∈ cs, isBlank c = true) (more : List Char) :
    run .whitespace isBlank (cs ++ '\n' :: more) =
      goesOn more (run .whitespace isBlank cs) := by
  have hdrop : cs.dropWhile isBlank ≠ [] := fun hnil => h (List.dropWhile_eq_nil_iff.1 hnil)
  have htake : (cs.takeWhile isBlank).length ≠ cs.length := by
    intro hlength
    have := congrArg List.length (List.takeWhile_append_dropWhile (p := isBlank) (l := cs))
    rw [List.length_append, hlength] at this
    exact hdrop (List.length_eq_zero_iff.1 (by omega))
  simp [run, goesOn, List.takeWhile_append, List.dropWhile_append, hdrop, htake]

/-- The first lexeme stays the same, but white space at the end of the text is joined with the line
feed, and an illegal token at the end stays illegal or becomes a string with the line feed inside. -/
theorem next_newline [IdentifierClasses] {cs : List Char} (hcs : cs ≠ []) (more : List Char) :
    Continued cs more := by
  obtain ⟨c, rest, rfl⟩ := List.exists_cons_of_ne_nil hcs
  obtain ⟨r, hr⟩ : ∃ r, next (c :: rest) = r := ⟨_, rfl⟩
  have hbranch := hr ▸ next_branch c rest
  cases hbranch with
  | blank h =>
    -- Only blanks up to the end of the text are joined with the line feed.
    by_cases hall : ∀ x ∈ c :: rest, isBlank x = true
    · exact .blank hall
    · refine .same ?_
      rw [hr, ← run_isBlank_append hall]
      exact (Branch.blank h).next_eq
  | comment h =>
    refine .same ?_
    rw [hr, ← run_newline (by decide)]
    exact (Branch.comment h).next_eq
  | string h =>
    have hnext : next (c :: (rest ++ '\n' :: more)) = string (rest ++ '\n' :: more) :=
      (Branch.string h).next_eq
    rcases string_newline rest more with hsame | ⟨hkind, hkind' | ⟨hkind', hlines⟩⟩
    · exact .same (by rw [List.cons_append, hnext, hsame, hr])
    · exact .illegal (by rw [hr, hkind]) (by rw [List.cons_append, hnext, hkind'])
    · exact .string (by rw [hr, hkind]) (by rw [List.cons_append, hnext, hkind'])
        (by rw [List.cons_append, hnext]; exact hlines)
  | hash h =>
    refine .same ?_
    rw [hr, ← hash_newline]
    exact (Branch.hash h).next_eq
  | digits h => exact continued_of_number hr (Branch.digits h).next_eq
  | signed h hdigit =>
    exact continued_of_number hr
      (Branch.signed h ((startsWithDigit_newline rest).trans hdigit)).next_eq
  | symbol h =>
    refine .same ?_
    rw [hr, ← symbol_newline]
    exact (Branch.symbol h.newline).next_eq
  | punctuation h =>
    refine .same ?_
    rw [hr]
    exact (Branch.punctuation h).next_eq
  | unexpected h =>
    refine .same ?_
    rw [hr]
    exact (Branch.unexpected h).next_eq

end Lexeme

open Lexeme

namespace Token

/-- The tokens of a text that goes on on a new line are those of the text and then those of the rest,
unless an illegal token at the end of the text stays illegal or becomes a string with a line feed. -/
theorem significantAt_newline [IdentifierClasses] (p : Position) (cs more : List Char) :
    significantAt p (cs ++ '\n' :: more) =
        significantAt p cs ++ significantAt (p.after cs) ('\n' :: more) ∨
      ∃ ts t rest t' rest', significantAt p cs = ts ++ t :: rest ∧ t.kind = .illegal ∧
        significantAt p (cs ++ '\n' :: more) = ts ++ t' :: rest' ∧
        (t'.kind = .illegal ∨ t'.kind = .string ∧ SpansLines t'.text.toList) := by
  by_cases hcs : cs = []
  · exact .inl (by simp [hcs])
  have hne : cs ++ '\n' :: more ≠ [] := by simp
  -- The induction is on the number of characters after the first lexeme.
  cases next_newline hcs more with
  | same hnext =>
    have hafter : p.after cs = (p.after (next cs).1.covers).after (next cs).2 := by
      rw [← Position.after_append, covers_append_rest]
    rw [significantAt_of_ne_nil p hcs, significantAt_of_next hne hnext, hafter]
    generalize (if (next cs).1.kind.isLayout then [] else [(next cs).1.token p]) = first
    rcases significantAt_newline (p.after (next cs).1.covers) (next cs).2 more with
      h | ⟨ts, t, rest, t', rest', h, hkind, h', hkind'⟩
    · exact .inl (by rw [h, List.append_assoc])
    · refine .inr ⟨first ++ ts, t, rest, t', rest', ?_, hkind, ?_, hkind'⟩
      · rw [h, List.append_assoc]
      · rw [h', List.append_assoc]
  | blank h =>
    refine .inl ?_
    have hnone : significantAt p cs = [] := by
      simpa using significantAt_blanks (p := p) h []
    rw [significantAt_blanks h, hnone, List.nil_append]
  | illegal h h' =>
    exact .inr ⟨[], _, _, _, _, significantAt_of_kind p hcs (by rw [h]; rfl), h,
      significantAt_of_kind p hne (by rw [h']; rfl), .inl h'⟩
  | string h h' hlines =>
    have hsound := eq_sound_of_kind_ne hne (by simp [h'])
    refine .inr ⟨[], _, _, _, _, significantAt_of_kind p hcs (by rw [h]; rfl), h,
      significantAt_of_kind p hne (by rw [h']; rfl), .inr ⟨h', ?_⟩⟩
    rw [hsound, h']
    simpa [Lexeme.token, Lexeme.text, sound, showsText] using hlines
termination_by cs.length
decreasing_by exact length_rest_lt hcs

end Token

end TypedScheme
