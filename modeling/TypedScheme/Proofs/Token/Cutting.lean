import TypedScheme.Proofs.Datum.Places
import TypedScheme.Proofs.Token.Words

/-!
# Pieces of a text

A text that is cut off at the end of one of its tokens keeps the tokens in front of the cut. What ends a
symbol or a number is the character behind it, and at a cut that is the end of the text, which ends them
as well. Illegal tokens are left out, since their message may name the character behind them.

## What this module delivers

- `Lexeme.next_covers`: the characters of a lexeme are the same lexeme in front of any delimiter.
- `Lexeme.next_cut`: the first lexeme of a text is that of every shorter text that still has all its
  characters.
- `Token.Between.significantAt_take`: the tokens between two offsets of a text are those of the piece of
  the text between them.
-/

set_option autoImplicit false

namespace TypedScheme

open Text

namespace Lexeme

variable {cs rest : List Char}

/-! ## Runs and atoms -/

/-- A run of characters of a class is one also if the text behind it is cut off. -/
theorem takeWhile_cut {p : Char → Bool} (h : rest <+: cs.dropWhile p) :
    (cs.takeWhile p ++ rest).takeWhile p = cs.takeWhile p ∧
      (cs.takeWhile p ++ rest).dropWhile p = rest := by
  refine Numeral.takeWhile_run (fun c hc => List.mem_takeWhile_imp hc) rest fun c hc => ?_
  -- The first character behind the run is the same as before.
  obtain ⟨tail, htail⟩ := h
  have hnot := List.head?_dropWhile_not p cs
  rw [← htail, List.head?_append, hc] at hnot
  exact hnot

theorem run_cut {kind : Token.Kind} {p : Char → Bool} (h : rest <+: cs.dropWhile p) :
    run kind p (cs.takeWhile p ++ rest) = (sound kind (cs.takeWhile p), rest) := by
  rw [run, (takeWhile_cut h).1, (takeWhile_cut h).2]

theorem atBoundary_cut (h : rest <+: cs) (hcs : atBoundary cs = true) :
    atBoundary rest = true := by
  cases rest with
  | nil => rfl
  | cons c rest =>
    obtain ⟨tail, rfl⟩ := h
    exact hcs

/-- An atom that is not illegal ends in front of a delimiter. -/
theorem atBoundary_of_atom {kind : Token.Kind} {fault : Option Char → LexicalFault}
    {covers : List Char} (h : (atom kind fault covers rest).1.kind ≠ .illegal) :
    atBoundary rest = true ∧ atom kind fault covers rest = (sound kind covers, rest) := by
  unfold atom at h ⊢
  split at h
  · next hboundary => exact ⟨hboundary, if_pos hboundary⟩
  · exact absurd rfl h

theorem atBoundary_of_number {sign : List Char} (h : (number sign cs).1.kind ≠ .illegal) :
    atBoundary (number sign cs).2 = true := by
  unfold number at h ⊢
  dsimp only at h ⊢
  split at h
  · split at h
    · exact absurd rfl h
    · next hempty =>
      rw [if_neg hempty, (atBoundary_of_atom h).2]
      exact (atBoundary_of_atom h).1
  · rw [(atBoundary_of_atom h).2]
    exact (atBoundary_of_atom h).1

/-! ## One lexeme -/

theorem next_number_covers [IdentifierClasses] {sign digits : List Char} (hsign : sign ∈ Numeral.signs)
    (hdigit : startsWithDigit digits = true) (h : (number sign digits).1.kind ≠ .illegal)
    (hrest : atBoundary rest = true) :
    next ((number sign digits).1.covers ++ rest) = ((number sign digits).1, rest) := by
  rcases soundOrIllegal_number sign digits with hsound | hillegal
  · have hkind : (number sign digits).1.kind = .number := congrArg Lexeme.kind hsound
    obtain ⟨whole, part, hplain, hcovers⟩ := exists_plain_of_number hsign hdigit hkind
    rw [hcovers, next_number hplain hrest, ← hcovers, ← hsound]
  · exact absurd hillegal h

theorem next_symbol_covers [IdentifierClasses] {c : Char} (hstart : SymbolStart c cs)
    (h : (symbol c cs).1.kind ≠ .illegal) (hrest : atBoundary rest = true) :
    next ((symbol c cs).1.covers ++ rest) = ((symbol c cs).1, rest) := by
  obtain ⟨-, hatom⟩ := atBoundary_of_atom h
  have hnext : next (c :: cs) = symbol c cs := (Branch.symbol hstart).next_eq
  have htext : IsSymbolText (next (c :: cs)).1.covers :=
    isSymbolText_of_next (by rw [hnext, symbol, hatom]; rfl)
  rw [hnext, symbol, hatom] at htext
  rw [symbol, hatom]
  exact next_symbol htext hrest

theorem atBoundary_of_hash [IdentifierClasses] (h : (hash cs).1.kind ≠ .illegal) :
    atBoundary (hash cs).2 = true := by
  unfold hash at h ⊢
  dsimp only at h ⊢
  split at h
  · next hboolean =>
    rw [if_pos hboolean]
    exact ((Bool.and_eq_true _ _).mp hboolean).2
  · exact absurd rfl h

theorem next_hash_covers [IdentifierClasses] (h : (hash cs).1.kind ≠ .illegal)
    (hrest : atBoundary rest = true) :
    next ((hash cs).1.covers ++ rest) = ((hash cs).1, rest) := by
  unfold hash at h ⊢
  dsimp only at h ⊢
  split at h
  · next hboolean =>
    rw [if_pos hboolean]
    obtain ⟨hknown, -⟩ := (Bool.and_eq_true _ _).mp hboolean
    have hword : ∀ c ∈ cs.takeWhile continuesSymbol, continuesSymbol c = true :=
      fun c hc => List.mem_takeWhile_imp hc
    obtain ⟨htake, hdrop⟩ := takeWhile_append_of_atBoundary
      (fun _ => continuesSymbol_of_isDelimiter) hword hrest
    change next ('#' :: (cs.takeWhile continuesSymbol ++ rest)) = _
    rw [(Branch.hash rfl).next_eq, hash, htake, hdrop]
    exact if_pos (by rw [hknown, hrest]; rfl)
  · exact absurd rfl h

/-- A string ends at its closing quote, whatever follows. -/
theorem stringTail_covers (h : (stringTail cs).closed = true) (rest : List Char) :
    stringTail ((stringTail cs).covers ++ rest) = { stringTail cs with rest := rest } := by
  fun_induction stringTail cs with
  | case1 => cases h
  | case2 c cs t ih =>
    change stringTail ('\\' :: c :: (t.covers ++ rest)) = _
    rw [stringTail, ih h]
  | case3 cs => rfl
  | case4 c cs hslash hquote t ih =>
    change stringTail (c :: (t.covers ++ rest)) = _
    rw [stringTail_of_ne (ne_backslash_of_closed hslash h) hquote, ih h]

theorem next_string_covers [IdentifierClasses] (h : (string cs).1.kind ≠ .illegal) (rest : List Char) :
    next ((string cs).1.covers ++ rest) = ((string cs).1, rest) := by
  unfold string at h ⊢
  dsimp only at h ⊢
  split at h
  · exact absurd rfl h
  · next hclosed =>
    split at h
    · exact absurd rfl h
    · next hescaped =>
      rw [if_neg hclosed, if_neg hescaped]
      change next ('"' :: ((stringTail cs).covers ++ rest)) = _
      rw [(Branch.string rfl).next_eq, string, stringTail_covers (by simpa using hclosed)]
      dsimp only
      rw [if_neg hclosed, if_neg hescaped]

/-- The characters of a lexeme that is no layout are the same lexeme in front of any delimiter. -/
theorem next_covers [IdentifierClasses] (hcs : cs ≠ []) (hkind : (next cs).1.kind ≠ .illegal)
    (hlayout : (next cs).1.kind.isLayout = false) (hrest : atBoundary rest = true) :
    next ((next cs).1.covers ++ rest) = ((next cs).1, rest) := by
  obtain ⟨c, cs, rfl⟩ := List.exists_cons_of_ne_nil hcs
  have h := next_branch c cs
  generalize next (c :: cs) = r at h hkind hlayout ⊢
  cases h with
  | blank | comment => cases hlayout
  | string => exact next_string_covers hkind rest
  | hash => exact next_hash_covers hkind hrest
  | digits hdigit => exact next_number_covers (by simp [Numeral.signs]) hdigit hkind hrest
  | signed hsign hdigit =>
    exact next_number_covers (by simpa [Numeral.signs] using hsign) hdigit hkind hrest
  | symbol hstart => exact next_symbol_covers hstart hkind hrest
  | punctuation hpunctuation => exact (Branch.punctuation hpunctuation).next_eq
  | unexpected => exact absurd rfl hkind

/-- The first lexeme of a text is that of the text up to any place behind it. -/
theorem next_cut [IdentifierClasses] (hcs : cs ≠ []) (hkind : (next cs).1.kind ≠ .illegal)
    (hrest : rest <+: (next cs).2) : next ((next cs).1.covers ++ rest) = ((next cs).1, rest) := by
  obtain ⟨c, cs, rfl⟩ := List.exists_cons_of_ne_nil hcs
  have h := next_branch c cs
  generalize next (c :: cs) = r at h hkind hrest ⊢
  cases h with
  | blank hblank =>
    have hnext := @run_cut (c :: cs) rest .whitespace isBlank hrest
    change next ((c :: cs).takeWhile isBlank ++ rest) = (sound _ ((c :: cs).takeWhile isBlank), rest)
    rw [← hnext, List.takeWhile_cons_of_pos hblank]
    exact (Branch.blank hblank).next_eq
  | comment hcomment =>
    have hnext := @run_cut (c :: cs) rest .comment (· ≠ '\n') hrest
    change next ((c :: cs).takeWhile (· ≠ '\n') ++ rest) =
      (sound _ ((c :: cs).takeWhile (· ≠ '\n')), rest)
    rw [← hnext, List.takeWhile_cons_of_pos (by simp [hcomment])]
    exact (Branch.comment hcomment).next_eq
  | string => exact next_string_covers hkind rest
  | hash => exact next_hash_covers hkind (atBoundary_cut hrest (atBoundary_of_hash hkind))
  | digits hdigit =>
    exact next_number_covers (by simp [Numeral.signs]) hdigit hkind
      (atBoundary_cut hrest (atBoundary_of_number hkind))
  | signed hsign hdigit =>
    exact next_number_covers (by simpa [Numeral.signs] using hsign) hdigit hkind
      (atBoundary_cut hrest (atBoundary_of_number hkind))
  | symbol hstart =>
    -- An atom ends at a delimiter, and what is left of the rest starts with it or is empty.
    obtain ⟨hboundary, hatom⟩ := atBoundary_of_atom hkind
    rw [symbol, hatom] at hrest
    exact next_symbol_covers hstart hkind (atBoundary_cut hrest hboundary)
  | punctuation hpunctuation => exact (Branch.punctuation hpunctuation).next_eq
  | unexpected => exact absurd rfl hkind

end Lexeme

/-! ## Pieces -/

variable [IdentifierClasses]

namespace Cursor

variable {text : List Char} {a b : Nat}

/-- The token at an offset is that of a piece of the text that starts there and has all of it. -/
theorem next_take (ha : a < text.length) (hkind : (lexemeAt text a).kind ≠ .illegal)
    (hb : a + width text a ≤ b) :
    Lexeme.next ((text.drop a).take (b - a)) =
      (lexemeAt text a, (text.drop (a + width text a)).take (b - (a + width text a))) := by
  have hne : text.drop a ≠ [] := by simpa using ha
  have hrest : (Lexeme.next (text.drop a)).2 = text.drop (a + width text a) :=
    congrArg Cursor.rest (next_atOffset (Nat.le_of_lt ha))
  have hsplit : (text.drop a).take (b - a) = (lexemeAt text a).covers ++
      (text.drop (a + width text a)).take (b - (a + width text a)) := by
    rw [← take_width, ← List.drop_drop, ← List.take_add]
    congr 1
    omega
  rw [hsplit]
  exact Lexeme.next_cut hne hkind (hrest ▸ List.take_prefix _ _)

end Cursor

namespace Token

variable {text : List Char} {a b : Nat} {ts : List Token}

/-- The tokens of a piece of a text by the first lexeme in it. -/
theorem significantAt_take (ha : a < text.length)
    (hkind : (Cursor.lexemeAt text a).kind ≠ .illegal) (hb : a + Cursor.width text a ≤ b) :
    significantAt (.ofOffset text a) ((text.drop a).take (b - a)) =
      (if (Cursor.lexemeAt text a).kind.isLayout then []
        else [(Cursor.lexemeAt text a).token (.ofOffset text a)]) ++
      significantAt (.ofOffset text (a + Cursor.width text a))
        ((text.drop (a + Cursor.width text a)).take (b - (a + Cursor.width text a))) := by
  have hwidth := Cursor.width_pos ha
  have hne : (text.drop a).take (b - a) ≠ [] := by
    rw [ne_eq, List.take_eq_nil_iff, List.drop_eq_nil_iff]
    omega
  have hposition : (Position.ofOffset text a).after (Cursor.lexemeAt text a).covers = _ :=
    congrArg Cursor.position (Cursor.next_atOffset (Nat.le_of_lt ha))
  rw [significantAt_of_next hne (Cursor.next_take ha hkind hb), hposition]
  rfl

/-- The tokens of a piece of a text are those that stand in it. -/
theorem Between.significantAt_take (h : Between text a b ts) (hlegal : ∀ t ∈ ts, t.kind ≠ .illegal) :
    significantAt (.ofOffset text a) ((text.drop a).take (b - a)) = ts := by
  induction h with
  | nil => simp
  | layout ha hlayout hrest ih =>
    have hkind : (Cursor.lexemeAt text _).kind ≠ .illegal := fun hillegal => by
      rw [hillegal] at hlayout
      cases hlayout
    rw [Token.significantAt_take ha hkind hrest.le, if_pos hlayout, ih hlegal]
    rfl
  | token ht hrest ih =>
    obtain ⟨ha, rfl, rfl, hsignificant⟩ := ht
    obtain ⟨hkind, hlegal⟩ := List.forall_mem_cons.1 hlegal
    have hlayout : ¬ (Cursor.lexemeAt text _).kind.isLayout = true :=
      Bool.eq_false_iff.1 hsignificant
    rw [Token.significantAt_take ha hkind hrest.le, if_neg hlayout, ih hlegal]
    rfl

end Token

end TypedScheme
