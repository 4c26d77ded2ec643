import TypedScheme.Text.Quoted

/-!
# Quoted text, written and read

A character is written as itself or behind a backslash. Text without stray bytes that is written with
no escapes other than those of a quote, a backslash, a line feed, a tab and a carriage return is read
back as it was.

## What this module delivers

- `Text.Quoted.newline_not_mem_of_decode?`: a literal between double quotes stays on one line.
- `Text.Quoted.escapeLetters`, the letters behind backslashes, and `Text.Quoted.commonEscapes`.
- `Text.Quoted.encodeChar_cases`: the two ways in which a character is written.
- `Text.Quoted.decode?_pieces`: written text with common escapes is read back.
- `Text.Quoted.isText_of_decode?`: what is read from a literal with common escapes has no stray byte.
-/

set_option autoImplicit false

namespace TypedScheme.Text.Quoted

/-! ## Literals stay on one line -/

theorem isSome_of_foldl_numeral {base n : Nat} {value? : Char → Option Nat} {ds : List Char}
    {acc : Option Nat}
    (h : ds.foldl (fun acc d => do pure ((← acc) * base + (← value? d))) acc = some n) :
    acc.isSome ∧ ∀ d ∈ ds, (value? d).isSome := by
  induction ds generalizing acc with
  | nil => exact ⟨by simp [show acc = some n from h], by simp⟩
  | cons e ds ih =>
    obtain ⟨hacc, hds⟩ := ih h
    cases acc with
    | none => simp at hacc
    | some a =>
      refine ⟨rfl, List.forall_mem_cons.2 ⟨?_, hds⟩⟩
      cases he : value? e <;> simp [he] at hacc ⊢

/-- Every digit of a numeral has a value. -/
theorem isSome_of_numeral? {base n : Nat} {value? : Char → Option Nat} {ds : List Char}
    (h : numeral? base value? ds = some n) : ∀ d ∈ ds, (value? d).isSome :=
  (isSome_of_foldl_numeral h).2

/-- An escape has no line feed in it. -/
theorem newline_not_mem_of_escape? {mark letter : Char} {after : List Char} {piece : Piece}
    {width : Nat} (hmark : mark ≠ '\n') (h : escape? mark letter after = some (piece, width)) :
    letter ≠ '\n' ∧ '\n' ∉ after.take width := by
  -- A line feed is no digit of any base.
  have hdigit {base n : Nat} {value? : Char → Option Nat} {ds : List Char}
      (hvalue : value? '\n' = none) (h : numeral? base value? ds = some n) : '\n' ∉ ds := by
    intro hmem
    simpa [hvalue] using isSome_of_numeral? h _ hmem
  unfold escape? at h
  split at h
  · next width' isByte hwide =>
    -- A letter that takes a number of hexadecimal digits.
    have hletter : letter ≠ '\n' := by
      rintro rfl
      cases hwide
    split at h
    · cases h
    · split at h
      · next n hn =>
        have htake := hdigit (by decide) hn
        split at h
        · cases h
          exact ⟨hletter, htake⟩
        · obtain ⟨c, -, hc⟩ := Option.map_eq_some_iff.1 h
          cases hc
          exact ⟨hletter, htake⟩
      · cases h
  · split at h
    -- An octal number, of which the letter is the first digit, or else a letter alone.
    · split at h
      · cases h
      · split at h
        · next n hn =>
          have hdigits := hdigit (by decide) hn
          split at h
          · cases h
            simpa [eq_comm] using hdigits
          · cases h
        · cases h
    · obtain ⟨c, hc, hpiece⟩ := Option.map_eq_some_iff.1 h
      cases hpiece
      refine ⟨?_, by simp⟩
      rintro rfl
      simp [letterEscape?, hmark.symm] at hc

/-- What can be decoded has no line feed of its own. -/
theorem newline_not_mem_of_piecesFrom {mark : Char} (hmark : mark ≠ '\n') {skip : Nat}
    {cs : List Char} {ps : Pieces} (h : piecesFrom mark skip cs = some ps) : '\n' ∉ cs.drop skip := by
  fun_induction piecesFrom mark skip cs generalizing ps with
  | case1 => simp
  | case2 skip c rest ih => exact ih h
  | case3 rest hrest =>
    obtain rfl := List.isEmpty_iff.1 hrest
    simpa using hmark.symm
  | case4 => cases h
  | case5 => cases h
  | case6 => cases h
  | case7 letter after piece width hescape _ _ ih =>
    obtain ⟨ps', hps', -⟩ := Option.map_eq_some_iff.1 h
    obtain ⟨hletter, htake⟩ := newline_not_mem_of_escape? hmark hescape
    have hafter : '\n' ∉ after := by
      rw [← List.take_append_drop width after]
      exact fun hmem => (List.mem_append.1 hmem).elim htake (ih hps')
    simp [hletter.symm, hafter]
  | case8 => cases h
  | case9 c rest _ hnewline _ ih =>
    obtain ⟨ps', hps', -⟩ := Option.map_eq_some_iff.1 h
    simpa [Ne.symm hnewline] using ih hps'

/-- A literal between double quotes has no line feed. -/
theorem newline_not_mem_of_decode? {literal : String} {inside : List Char} {s : Pieces}
    (hliteral : literal.toList = '"' :: inside) (h : decode? literal = some s) : '\n' ∉ inside := by
  rw [decode?, hliteral] at h
  obtain ⟨ps, hps, -⟩ := Option.map_eq_some_iff.1 h
  exact newline_not_mem_of_piecesFrom (by decide) hps

/-! ## Escapes -/

/-- The letters that stand behind a backslash in a text. -/
def escapeLetters : List Char → List Char
  | [] => []
  | '\\' :: letter :: rest => letter :: escapeLetters rest
  | _ :: rest => escapeLetters rest

/-- The escapes of a line feed, a tab, a carriage return, a backslash and a quote. -/
def commonEscapes : List Char := ['n', 't', 'r', '\\', '"']

theorem escapeLetters_cons_of_ne {c : Char} (h : c ≠ '\\') (rest : List Char) :
    escapeLetters (c :: rest) = escapeLetters rest := by
  rw [escapeLetters]
  rintro _ _ h' -
  exact h h'

theorem escapeLetters_append {cs : List Char} (h : '\\' ∉ cs) (rest : List Char) :
    escapeLetters (cs ++ rest) = escapeLetters rest := by
  induction cs with
  | nil => rfl
  | cons c cs ih =>
    rw [List.mem_cons, not_or] at h
    obtain ⟨hc, hcs⟩ := h
    rw [List.cons_append, escapeLetters_cons_of_ne (Ne.symm hc), ih hcs]

/-- The letter that a control character is written with is read back as the character. -/
theorem letterEscape?_eq_of_control {c letter : Char} (h : controlLetter? c = some letter) :
    letterEscape? '"' letter = some c := by
  have hc (n : Nat) (hn : c.toNat = n) : c = Char.ofNat n := by rw [← hn, Char.ofNat_toNat]
  unfold controlLetter? at h
  split at h <;> cases h
  all_goals
    next hn => rw [hc _ hn]; rfl

theorem hexDigit_ne (n : Nat) (h : n < 16) : hexDigit n ≠ '\\' ∧ hexDigit n ≠ '"' := by
  have hall : ∀ n < 16, hexDigit n ≠ '\\' ∧ hexDigit n ≠ '"' := by decide
  exact hall n h

theorem hexDigits_ne {width n : Nat} : ∀ c ∈ hexDigits width n, c ≠ '\\' ∧ c ≠ '"' := by
  induction width generalizing n with
  | zero => simp [hexDigits]
  | succ width ih =>
    intro c hc
    rcases List.mem_append.1 hc with hc | hc
    · exact ih c hc
    · rw [List.mem_singleton.1 hc]
      exact hexDigit_ne _ (Nat.mod_lt n (by decide))

/-- A character is written as itself, or as an escape of which nothing behind the letter could end the
text. A common escape is only its letter and is read as the character. -/
theorem encodeChar_cases (c : Char) :
    (encodeChar '"' c = [c] ∧ c ≠ '"' ∧ c ≠ '\\' ∧ c ≠ '\n') ∨
    ∃ letter tail, encodeChar '"' c = '\\' :: letter :: tail ∧
      (∀ x ∈ tail, x ≠ '\\' ∧ x ≠ '"') ∧
      (letter ∈ commonEscapes → tail = [] ∧ letterEscape? '"' letter = some c) := by
  unfold encodeChar
  split
  · next hmark =>
    right
    refine ⟨c, [], rfl, by simp, fun _ => ⟨rfl, ?_⟩⟩
    simp only [Bool.or_eq_true, decide_eq_true_eq] at hmark
    rcases hmark with rfl | rfl <;> rfl
  split
  · next hmark hprintable =>
    left
    simp only [Bool.or_eq_true, decide_eq_true_eq, not_or] at hmark
    refine ⟨rfl, hmark.1, hmark.2, ?_⟩
    rintro rfl
    exact absurd hprintable (by decide)
  -- What cannot be printed has a letter of its own, or hexadecimal digits for its code.
  right
  split
  · next letter hletter =>
    exact ⟨letter, [], rfl, by simp, fun _ => ⟨rfl, letterEscape?_eq_of_control hletter⟩⟩
  · split
    · exact ⟨'x', _, rfl, hexDigits_ne, fun h => absurd h (by decide)⟩
    split
    · exact ⟨'u', _, rfl, hexDigits_ne, fun h => absurd h (by decide)⟩
    · exact ⟨'U', _, rfl, hexDigits_ne, fun h => absurd h (by decide)⟩

/-! ## Reading what was written -/

/-- Pieces without stray bytes. -/
def IsText (ps : Pieces) : Prop := ∀ piece ∈ ps, ∃ c, piece = .char c

theorem settle_eq_self {ps : Pieces} (h : IsText ps) : settle ps = ps := by
  unfold settle
  induction ps with
  | nil => rfl
  | cons piece ps ih =>
    obtain ⟨⟨c, rfl⟩, hps⟩ := List.forall_mem_cons.1 h
    rw [settleFrom, ih hps]
    rfl

/-- A common escape is one letter, which stands for a character. -/
theorem escape?_of_mem_commonEscapes {letter : Char} (h : letter ∈ commonEscapes)
    (after : List Char) :
    escape? '"' letter after = (letterEscape? '"' letter).map fun c => (.char c, 0) := by
  simp only [commonEscapes, List.mem_cons, List.not_mem_nil, or_false] at h
  rcases h with rfl | rfl | rfl | rfl | rfl <;> rfl

/-- What is encoded with common escapes is decoded again. -/
theorem piecesFrom_encode {s : Pieces} (hs : IsText s)
    (h : ∀ letter ∈ escapeLetters (encode '"' s ++ ['"']), letter ∈ commonEscapes) :
    piecesFrom '"' 0 (encode '"' s ++ ['"']) = some s := by
  induction s with
  | nil => rfl
  | cons piece s ih =>
    obtain ⟨⟨c, rfl⟩, hs'⟩ := List.forall_mem_cons.1 hs
    have hcons : encode '"' (.char c :: s) ++ ['"'] =
        encodeChar '"' c ++ (encode '"' s ++ ['"']) := by
      simp [encode, encodePiece]
    rw [hcons] at h ⊢
    rcases encodeChar_cases c with ⟨hself, hquote, hslash, hnewline⟩ | ⟨letter, tail, hescape, -, hcommon⟩
    · rw [hself, List.singleton_append] at h ⊢
      rw [escapeLetters_cons_of_ne hslash] at h
      rw [piecesFrom.eq_def]
      simp [hquote, hslash, hnewline, ih hs' h]
    · rw [hescape] at h ⊢
      obtain ⟨hletter, hrest⟩ := List.forall_mem_cons.1 h
      obtain ⟨rfl, hread⟩ := hcommon hletter
      have hfirst : escape? '"' letter (encode '"' s ++ ['"']) = some (.char c, 0) := by
        rw [escape?_of_mem_commonEscapes hletter, hread]
        rfl
      rw [List.cons_append, List.cons_append, List.nil_append, piecesFrom.eq_def]
      simp [hfirst, ih hs' hrest]

/-- Written text with common escapes is read back. -/
theorem decode?_pieces {s : Pieces} (hs : IsText s)
    (h : ∀ letter ∈ escapeLetters (pieces s).toList, letter ∈ commonEscapes) :
    decode? (pieces s) = some s := by
  rw [pieces, String.toList_ofList, List.cons_append, escapeLetters_cons_of_ne (by decide)] at h
  rw [decode?, pieces, String.toList_ofList]
  simp [piecesFrom_encode hs h, settle_eq_self hs]

/-- A text with common escapes gives no stray byte. -/
theorem isText_of_piecesFrom {cs : List Char} {ps : Pieces}
    (hcommon : ∀ letter ∈ escapeLetters cs, letter ∈ commonEscapes)
    (h : piecesFrom '"' 0 cs = some ps) : IsText ps := by
  generalize hskip : 0 = skip at h
  fun_induction piecesFrom '"' skip cs generalizing ps with
  | case1 => cases h
  | case2 => cases hskip
  | case3 =>
    cases h
    simp [IsText]
  | case4 => cases h
  | case5 => cases h
  | case6 => cases h
  | case7 letter after piece width hescape _ _ ih =>
    obtain ⟨ps', hps', rfl⟩ := Option.map_eq_some_iff.1 h
    obtain ⟨hletter, hafter⟩ := List.forall_mem_cons.1 hcommon
    rw [escape?_of_mem_commonEscapes hletter] at hescape
    obtain ⟨c, -, hpiece⟩ := Option.map_eq_some_iff.1 hescape
    cases hpiece
    exact List.forall_mem_cons.2 ⟨⟨c, rfl⟩, ih hafter rfl hps'⟩
  | case8 => cases h
  | case9 c rest _ _ hslash ih =>
    obtain ⟨ps', hps', rfl⟩ := Option.map_eq_some_iff.1 h
    rw [escapeLetters_cons_of_ne hslash] at hcommon
    exact List.forall_mem_cons.2 ⟨⟨c, rfl⟩, ih hcommon rfl hps'⟩

/-- What is read from a literal with common escapes has no stray byte. -/
theorem isText_of_decode? {literal : String} {inside : List Char} {s : Pieces}
    (hliteral : literal.toList = '"' :: inside)
    (hcommon : ∀ letter ∈ escapeLetters inside, letter ∈ commonEscapes)
    (h : decode? literal = some s) : IsText s := by
  rw [decode?, hliteral] at h
  obtain ⟨ps, hps, rfl⟩ := Option.map_eq_some_iff.1 h
  have htext := isText_of_piecesFrom hcommon hps
  rwa [settle_eq_self htext]

end TypedScheme.Text.Quoted
