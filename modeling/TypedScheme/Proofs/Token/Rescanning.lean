import TypedScheme.Proofs.Datum.Layout
import TypedScheme.Proofs.Token.Cutting
import TypedScheme.Proofs.Token.Writing

/-!
# Tokens written down again

The tokens of a text, written down in a row with one blank between two of them, are the text of the same
tokens: all that a text has beyond its tokens is layout. An illegal token has a message in place of its
characters and cannot be written down.

## What this module delivers

- `Token.Scanned.spells`: a token of a text is scanned again from its own characters in front of any
  delimiter.
- `Token.spacedText`, the text of tokens in a row, and `Token.exists_spells_spaced`.
- `Token.scanSpaced_spacedText`: the tokens of a text without illegal tokens, written down in a row, are
  scanned as the same tokens up to the end of the input.
-/

set_option autoImplicit false

namespace TypedScheme

open Text

/-! ## The characters of a token -/

namespace Lexeme

/-- A lexeme that is not illegal shows its text or is a character by itself. -/
theorem showsText_or_punctuation [IdentifierClasses] {cs : List Char} (hcs : cs ≠ [])
    (hkind : (next cs).1.kind ≠ .illegal) :
    showsText (next cs).1.kind = true ∨
      ∃ c, punctuation? c = some (next cs).1.kind ∧ (next cs).1.covers = [c] := by
  have hshows {kind : Token.Kind} {l : Lexeme} (hl : SoundOrIllegal kind l) (hlegal : l.kind ≠ .illegal)
      (h : showsText kind = true) : showsText l.kind = true := by
    rcases hl.kind with hl | hl
    · rw [hl, h]
    · exact absurd hl hlegal
  obtain ⟨c, rest, rfl⟩ := List.exists_cons_of_ne_nil hcs
  have h := next_branch c rest
  generalize next (c :: rest) = r at h hkind ⊢
  cases h with
  | blank | comment => exact .inl rfl
  | string => exact .inl (hshows (soundOrIllegal_string rest) hkind rfl)
  | hash => exact .inl (hshows (soundOrIllegal_hash rest) hkind rfl)
  | digits | signed => exact .inl (hshows (soundOrIllegal_number _ _) hkind rfl)
  | symbol => exact .inl (hshows (soundOrIllegal_atom _ _ _ _) hkind rfl)
  | punctuation hc => exact .inr ⟨c, hc, rfl⟩
  | unexpected => exact absurd rfl hkind

end Lexeme

namespace Token

open Lexeme

/-- A token is written with the characters it was scanned from. -/
theorem spelling_token [IdentifierClasses] {cs : List Char} (hcs : cs ≠ [])
    (hkind : (Lexeme.next cs).1.kind ≠ .illegal)
    (p : Position) : ((Lexeme.next cs).1.token p).spelling = (Lexeme.next cs).1.covers := by
  rcases showsText_or_punctuation hcs hkind with hshows | ⟨c, hc, hcovers⟩
  · rw [spelling_of_showsText hshows, Lexeme.token, eq_sound_of_kind_ne hcs hkind, Lexeme.text, sound]
    simp [hshows]
  · rw [hcovers]
    exact spelling_of_punctuation? hc

/-- A token of a text is scanned again from its own characters. -/
theorem Scanned.spells [IdentifierClasses] {t : Token} (h : t.Scanned) (hkind : t.kind ≠ .illegal)
    (hlayout : t.kind.isLayout = false) (p : Position) :
    ∃ t', Same t t' ∧ Spells p t.spelling [t'] := by
  obtain ⟨cs, q, hcs, rfl⟩ := h
  rw [spelling_token hcs hkind]
  exact ⟨(Lexeme.next cs).1.token p, ⟨rfl, rfl⟩, .word (covers_ne_nil hcs) hlayout rfl
    fun rest hrest => next_covers hcs hkind hlayout hrest⟩

/-! ## Tokens in a row -/

/-- The text of tokens in a row, with one blank between two of them. -/
def spacedText (ts : List Token) : String :=
  String.intercalate " " (ts.map fun t => String.ofList t.spelling)

theorem toList_spacedText (ts : List Token) :
    (spacedText ts).toList = [' '].intercalate (ts.map spelling) := by
  simp [spacedText, String.toList_intercalate, Function.comp_def]

/-- Tokens that are each scanned from their own characters are scanned from these in a row. A blank ends
whatever stands in front of it, so the tokens do not run into each other. -/
theorem exists_spells_spaced [IdentifierClasses] {ts : List Token}
    (h : ∀ t ∈ ts, ∀ p, ∃ t', Same t t' ∧ Spells p t.spelling [t']) (p : Position) :
    ∃ ts', List.Forall₂ Same ts ts' ∧ Spells p ([' '].intercalate (ts.map spelling)) ts' := by
  induction ts generalizing p with
  | nil => exact ⟨[], .nil, .nil p⟩
  | cons t ts ih =>
    obtain ⟨ht, hts⟩ := List.forall_mem_cons.1 h
    obtain ⟨t', hsame, hspells⟩ := ht p
    cases ts with
    | nil => exact ⟨[t'], .cons hsame .nil, by simpa using hspells⟩
    | cons u ts =>
      obtain ⟨ts', hsames, hrest⟩ := ih hts ((p.after t.spelling).step ' ')
      refine ⟨t' :: ts', .cons hsame hsames, ?_⟩
      rw [List.map_cons, List.map_cons, List.intercalate_cons_cons, List.append_assoc]
      exact hspells.append (.blank hrest) rfl

theorem map_content_of_same {us ts : List Token} (h : List.Forall₂ Same us ts) :
    ts.map content = us.map content := by
  induction h with
  | nil => rfl
  | cons hsame _ ih => rw [List.map_cons, List.map_cons, ih, content, content, hsame.1, hsame.2]

/-- The contents of the tokens up to the end of the input are those of the significant tokens and that
of the end. -/
theorem map_content_scanSpaced [IdentifierClasses] (source : String) :
    (scanSpaced source).map (fun s => s.token.content) =
      (significant source).map content ++ [(.endOfInput, "")] := by
  have htokens : (scanSpaced source).map Spaced.token =
      significant source ++ [(sound .endOfInput []).token (Position.start.after source.toList)] := by
    rw [scanSpaced, Spaced.group, map_token_groupFrom, scan_eq_placed, List.filter_append,
      significant_eq]
    rfl
  have hcontents := congrArg (List.map content) htokens
  rw [List.map_map, List.map_append] at hcontents
  exact hcontents

/-- Tokens scan again as themselves. If no token of a text is illegal, its tokens are written down with
their texts, or their characters in the case of punctuation, and with one blank between two of them, as a
text that has the same kinds and texts of tokens up to the end of the input. -/
theorem scanSpaced_spacedText [IdentifierClasses] (source : String)
    (hlegal : ∀ s ∈ scanSpaced source, s.token.kind ≠ .illegal) :
    (scanSpaced (spacedText (significant source))).map (fun s => (s.token.kind, s.token.text)) =
      (scanSpaced source).map fun s => (s.token.kind, s.token.text) := by
  have hspells : ∀ t ∈ significant source, ∀ p, ∃ t', Same t t' ∧ Spells p t.spelling [t'] := by
    intro t ht p
    have hscanned : t.Scanned := scanned_of_mem_significantAt (significant_eq source ▸ ht)
    have hlayout : t.kind.isLayout = false := by
      have := (List.mem_filter.1 ht).2
      simp only [Bool.and_eq_true, Bool.not_eq_true'] at this
      exact this.1
    rw [significant_eq_filter] at ht
    obtain ⟨s, hs, rfl⟩ := List.mem_map.1 (List.mem_filter.1 ht).1
    exact hscanned.spells (hlegal s hs) hlayout p
  -- Behind the last token there is no text left, which ends it as a delimiter does.
  obtain ⟨ts, hsame, hts⟩ := exists_spells_spaced hspells .start
  have hagain : significant (spacedText (significant source)) = ts := by
    have hall := hts [] rfl
    rwa [List.append_nil, significantAt_nil, List.append_nil, ← toList_spacedText,
      ← significant_eq] at hall
  have hcontents : (scanSpaced (spacedText (significant source))).map (fun s => s.token.content) =
      (scanSpaced source).map fun s => s.token.content := by
    rw [map_content_scanSpaced, map_content_scanSpaced, hagain, map_content_of_same hsame]
  exact hcontents

/-- A sign in front of a letter and one in front of digits, a lone period, a literal over two lines and
tokens without any layout between them. -/
theorem scanSpaced_spacedText_signs :
    let source := "(+a -5.2 .\"x\n\\\"\")'#true:b1 ; end"
    (∀ s ∈ scanSpaced source, s.token.kind ≠ .illegal) ∧
    spacedText (significant source) = "( +a -5.2 . \"x\n\\\"\" ) ' #true : b1" ∧
    (scanSpaced (spacedText (significant source))).map (fun s => (s.token.kind, s.token.text)) =
      (scanSpaced source).map fun s => (s.token.kind, s.token.text) := by
  intro source
  have hlegal : ∀ s ∈ scanSpaced source, s.token.kind ≠ .illegal := by decide +kernel
  exact ⟨hlegal, by decide +kernel, scanSpaced_spacedText source hlegal⟩

end Token

end TypedScheme
