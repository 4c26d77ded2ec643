import Mathlib.Data.List.Forall2
import TypedScheme.Proofs.Token.Words

/-!
# Writing tokens

A token is written as its text, and punctuation as its character. What is scanned from a text can be
written, and what is written is scanned as the same kind of token with the same text, unless it is a
number with an exponent or a string with an uncommon escape.

## What this module delivers

- `Token.Scanned t`: the token `t` comes from a text, with what that says about symbols, numbers and
  strings.
- `Token.Spells p cs ts`: the text `cs` at `p` is scanned as the tokens `ts` in front of any delimiter,
  with a rule for everything that text is put together from.
- `Token.Written t` and `Token.Written.spells`: what a written token is scanned as.
- `Token.Writes us cs`: the text `cs` is written for the tokens `us`, with the rules that text is put
  together by.
-/

set_option autoImplicit false

namespace TypedScheme

open Text

namespace Token

open Lexeme

/-! ## Tokens and their spelling -/

/-- A token can be scanned from its text: a number has no exponent, and a string only common
escapes. -/
def IsPlain (t : Token) : Prop :=
  (t.kind = .number → 'e' ∉ t.text.toList) ∧
    (t.kind = .string → ∀ letter ∈ Quoted.escapeLetters t.text.toList, letter ∈ Quoted.commonEscapes)

/-- The characters that a token is written with. -/
def spelling (t : Token) : List Char :=
  match t.kind with
  | .leftParen => ['(']
  | .rightParen => [')']
  | .quote => ['\'']
  | .period => ['.']
  | .colon => [':']
  | _ => t.text.toList

/-- The second token is what the text of the first is scanned as: the same, or an illegal one if the
text cannot be scanned. -/
def Rescans (t t' : Token) : Prop :=
  (t.IsPlain ∧ t'.kind = t.kind ∧ t'.text = t.text) ∨ (¬ t.IsPlain ∧ t'.kind = .illegal)

/-- The tokens agree but for their places. -/
def Same (t t' : Token) : Prop := t'.kind = t.kind ∧ t'.text = t.text

/-- A token that shows its text is written as this text. -/
theorem spelling_of_showsText {t : Token} (h : showsText t.kind = true) :
    t.spelling = t.text.toList := by
  unfold spelling
  split <;> rename_i hkind <;> simp [hkind, showsText] at h ⊢

theorem spelling_of_punctuation? {t : Token} {c : Char} (h : punctuation? c = some t.kind) :
    t.spelling = [c] := by
  obtain ⟨kind, span, text⟩ := t
  unfold punctuation? at h
  split at h <;> cases h <;> rfl

/-- Punctuation is scanned again as itself, wherever it stands. -/
theorem rescans_bare {t : Token} {c : Char} (hc : punctuation? c = some t.kind) (htext : t.text = "")
    (span : Span) : Rescans t (bare t.kind span) := by
  refine .inl ⟨?_, rfl, htext.symm⟩
  obtain ⟨kind, span', text⟩ := t
  unfold punctuation? at hc
  split at hc <;> cases hc <;> exact ⟨nofun, nofun⟩

/-- A plain token that shows its text is scanned again as itself. -/
theorem rescans_sound {t : Token} (p : Position) (hplain : t.IsPlain)
    (hshows : showsText t.kind = true) : Rescans t ((sound t.kind t.text.toList).token p) := by
  refine .inl ⟨hplain, rfl, ?_⟩
  simp [Lexeme.token, Lexeme.text, sound, hshows]

/-- Plain tokens are scanned as they were. -/
theorem same_of_rescans {us ts : List Token} (h : List.Forall₂ Rescans us ts)
    (hplain : ∀ t ∈ us, t.IsPlain) : List.Forall₂ Same us ts := by
  refine ((List.forall₂_and_left us ts).2 ⟨hplain, h⟩).imp ?_
  rintro t t' ⟨ht, ⟨-, hsame⟩ | ⟨hflaw, -⟩⟩
  · exact hsame
  · exact absurd ht hflaw

/-- Only plain tokens are scanned without an illegal token. -/
theorem isPlain_of_rescans {us ts : List Token} (h : List.Forall₂ Rescans us ts)
    (hlegal : ∀ t ∈ ts, t.kind ≠ .illegal) : ∀ t ∈ us, t.IsPlain := by
  induction h with
  | nil => simp
  | cons hrescans _ ih =>
    obtain ⟨ht, hts⟩ := List.forall_mem_cons.1 hlegal
    refine List.forall_mem_cons.2 ⟨?_, ih hts⟩
    rcases hrescans with ⟨hplain, -⟩ | ⟨-, hillegal⟩
    · exact hplain
    · exact absurd hillegal ht

variable [IdentifierClasses]

/-! ## Scanned tokens -/

/-- A token that a text starts with. -/
def Scanned (t : Token) : Prop := ∃ cs p, cs ≠ [] ∧ t = (Lexeme.next cs).1.token p

theorem scanned_of_mem_placed {cs : List Char} {p : Position} {t : Token}
    (ht : t ∈ placed p (lexemes cs)) : t.Scanned :=
  exists_of_mem_placed ht

/-- The significant tokens of a text come from it. -/
theorem scanned_of_mem_significantAt {cs : List Char} {p : Position} {t : Token}
    (ht : t ∈ significantAt p cs) : t.Scanned :=
  scanned_of_mem_placed (List.mem_filter.1 ht).1

namespace Scanned

variable {t : Token}

/-- A token that shows its text covers exactly this text. -/
theorem exists_next (h : t.Scanned) (hshows : showsText t.kind = true) :
    ∃ cs, (Lexeme.next cs).1.kind = t.kind ∧ (Lexeme.next cs).1.covers = t.text.toList := by
  obtain ⟨cs, p, hcs, rfl⟩ := h
  refine ⟨cs, rfl, ?_⟩
  have hlegal : (Lexeme.next cs).1.kind ≠ .illegal := by
    intro hillegal
    rw [Lexeme.token, hillegal] at hshows
    cases hshows
  have hsound := eq_sound_of_kind_ne hcs hlegal
  rw [Lexeme.token] at hshows ⊢
  rw [hsound, Lexeme.text, sound]
  simp [hshows]

/-- A symbol that comes from a text has the text of a symbol. -/
theorem isSymbolText (h : t.Scanned) (hkind : t.kind = .symbol) : IsSymbolText t.text.toList := by
  obtain ⟨cs, hnext, hcovers⟩ := h.exists_next (by rw [hkind]; rfl)
  rw [← hcovers]
  exact isSymbolText_of_next (hnext.trans hkind)

/-- A numeral stands for a finite number, if it stands for one at all. -/
theorem isFinite (h : t.Scanned) (hkind : t.kind = .number) {b : Binary64}
    (hb : Numeral.read? t.text = some b) : b.IsFinite := by
  obtain ⟨cs, hnext, hcovers⟩ := h.exists_next (by rw [hkind]; rfl)
  obtain ⟨sign, whole, part, hplain, hcovers'⟩ := exists_plain_of_next (hnext.trans hkind)
  have htext : t.text = String.ofList (Numeral.plain sign whole part) := by
    rw [← hcovers', hcovers, String.ofList_toList]
  rw [htext, Numeral.read?_plain hplain] at hb
  exact Binary64.isFinite_of_ofDecimal? hb

/-- A string that comes from a text is decoded to text, without stray bytes. -/
theorem isText (h : t.Scanned) (hkind : t.kind = .string) {s : Pieces}
    (hs : Quoted.decode? t.text = some s) : Quoted.IsText s := by
  obtain ⟨cs, hnext, hcovers⟩ := h.exists_next (by rw [hkind]; rfl)
  obtain ⟨inside, hinside, hcommon⟩ := exists_inside_of_next (hnext.trans hkind)
  exact Quoted.isText_of_decode? (hcovers.symm.trans hinside) hcommon hs

end Scanned

/-! ## Text and its tokens -/

/-- The text at a position is scanned as the tokens in front of any delimiter. -/
def Spells (p : Position) (cs : List Char) (ts : List Token) : Prop :=
  ∀ rest, atBoundary rest = true →
    significantAt p (cs ++ rest) = ts ++ significantAt (p.after cs) rest

namespace Spells

variable {p : Position} {cs ds : List Char} {ts us : List Token}

theorem nil (p : Position) : Spells p [] [] := fun _ _ => rfl

/-- Two texts are scanned one after the other, if the second starts with a delimiter. -/
theorem append (hcs : Spells p cs ts) (hds : Spells (p.after cs) ds us)
    (h : atBoundary ds = true) : Spells p (cs ++ ds) (ts ++ us) := by
  intro rest hrest
  have hboundary : atBoundary (ds ++ rest) = true := by
    cases ds with
    | nil => exact hrest
    | cons c ds => exact h
  rw [List.append_assoc, hcs _ hboundary, hds rest hrest, Position.after_append, List.append_assoc]

/-- A character that is a token by itself needs no delimiter after it. -/
theorem punctuation {c : Char} {kind : Kind} (hc : punctuation? c = some kind)
    (hcs : Spells (p.step c) cs ts) : Spells p (c :: cs) (bare kind ⟨p, p⟩ :: ts) := by
  intro rest hrest
  rw [List.cons_append, significantAt_punctuation hc, hcs rest hrest]
  rfl

theorem blank (hcs : Spells (p.step ' ') cs ts) : Spells p (' ' :: cs) ts := by
  intro rest hrest
  rw [List.cons_append, significantAt_blank (by decide), hcs rest hrest]
  rfl

/-- A text that is one lexeme in front of any delimiter is one token. -/
theorem word {l : Lexeme} (hne : cs ≠ []) (hkind : l.kind.isLayout = false) (hcovers : l.covers = cs)
    (h : ∀ rest, atBoundary rest = true → next (cs ++ rest) = (l, rest)) :
    Spells p cs [l.token p] := by
  intro rest hrest
  rw [significantAt_of_next (by simp [hne]) (h rest hrest), hkind, hcovers]
  rfl

end Spells

/-! ## Written tokens -/

/-- The tokens that stand for something written. -/
inductive Written : Token → Prop
  | symbol {t : Token} : t.kind = .symbol → IsSymbolText t.text.toList → Written t
  | punctuation {t : Token} {c : Char} : punctuation? c = some t.kind → t.text = "" → Written t
  | boolean {t : Token} {b : Bool} :
      t.kind = .boolean → t.text = Value.renderBoolean b → Written t
  | number {t : Token} {b : Binary64} :
      t.kind = .number → b.IsFinite → t.text = b.render → Written t
  | string {t : Token} {s : Pieces} :
      t.kind = .string → Quoted.IsText s → t.text = Quoted.pieces s → Written t

/-- A written number is scanned as a number, or as illegal if it has an exponent. -/
theorem spells_number {t : Token} {b : Binary64} (hkind : t.kind = .number) (hb : b.IsFinite)
    (htext : t.text = b.render) (p : Position) : ∃ t', Rescans t t' ∧ Spells p t.spelling [t'] := by
  rw [spelling_of_showsText (by rw [hkind]; rfl), htext]
  obtain ⟨sign, whole, part, hplain, ⟨hrender, -⟩ | ⟨tail, hrender, htail⟩⟩ :=
    Binary64.render_cases hb
  · have he : 'e' ∉ Numeral.plain sign whole part := by
      intro he
      simpa [Numeral.isDigit] using Numeral.mem_plain hplain he
    refine ⟨_, rescans_sound p (by simp [IsPlain, hkind, htext, hrender, he])
      (by simp [hkind, showsText]), ?_⟩
    rw [hkind, htext, hrender]
    refine .word ?_ rfl rfl fun rest hrest => next_number hplain hrest
    simp [Numeral.plain, hplain.whole_ne_nil]
  · -- The mark of the exponent is no delimiter, so the whole word is malformed.
    have hflaw : ¬ t.IsPlain := fun h => h.1 hkind (by rw [htext, hrender]; simp)
    obtain ⟨l, hnext, hcovers, hillegal⟩ := next_exponent hplain htail
    rw [hrender]
    exact ⟨l.token p, .inr ⟨hflaw, hillegal⟩, .word (by simp) (by rw [hillegal]; rfl) hcovers hnext⟩

/-- A written string is scanned as a string, or as illegal if it has an uncommon escape. -/
theorem spells_string {t : Token} {s : Pieces} (hkind : t.kind = .string) (hs : Quoted.IsText s)
    (htext : t.text = Quoted.pieces s) (p : Position) :
    ∃ t', Rescans t t' ∧ Spells p t.spelling [t'] := by
  obtain ⟨l, hnext, hcovers, hl⟩ := next_pieces hs
  have hrescans : Rescans t (l.token p) ∧ l.kind.isLayout = false := by
    rcases hl with ⟨hcommon, rfl⟩ | ⟨huncommon, hillegal⟩
    · have hsound := rescans_sound (t := t) p
        ⟨fun h => absurd (hkind.symm.trans h) (by decide), fun _ => by rw [htext]; exact hcommon⟩
        (by rw [hkind]; rfl)
      rw [hkind, htext] at hsound
      exact ⟨hsound, rfl⟩
    · refine ⟨.inr ⟨fun h => huncommon ?_, hillegal⟩, by rw [hillegal]; rfl⟩
      rw [← htext]
      exact h.2 hkind
  rw [spelling_of_showsText (by rw [hkind]; rfl), htext]
  -- A string ends at its own last quote, whatever follows.
  refine ⟨_, hrescans.1, .word ?_ hrescans.2 hcovers fun rest _ => hnext rest⟩
  simp [Quoted.pieces]

/-- A written token is scanned as one token. -/
theorem Written.spells {t : Token} (h : Written t) (p : Position) :
    ∃ t', Rescans t t' ∧ Spells p t.spelling [t'] := by
  cases h with
  | symbol hkind htext =>
    refine ⟨_, rescans_sound p (by simp [IsPlain, hkind]) (by simp [hkind, showsText]), ?_⟩
    obtain ⟨c, more, hcons, -, -⟩ := id htext
    rw [spelling_of_showsText (by rw [hkind]; rfl)]
    refine .word (by simp [hcons]) (by simp [sound, hkind, Kind.isLayout]) rfl fun rest hrest => ?_
    rw [hkind]
    exact next_symbol htext hrest
  | punctuation hc htext =>
    rw [spelling_of_punctuation? hc]
    exact ⟨_, rescans_bare hc htext _, .punctuation hc (.nil _)⟩
  | @boolean b hkind htext =>
    refine ⟨_, rescans_sound p (by simp [IsPlain, hkind]) (by simp [hkind, showsText]), ?_⟩
    rw [spelling_of_showsText (by rw [hkind]; rfl), hkind, htext]
    exact .word (by cases b <;> decide) rfl rfl fun rest hrest => next_boolean b hrest
  | number hkind hb htext => exact spells_number hkind hb htext p
  | string hkind hs htext => exact spells_string hkind hs htext p

theorem Written.text_of_punctuation? {t : Token} {c : Char} (h : Written t)
    (hc : punctuation? c = some t.kind) : t.text = "" := by
  obtain ⟨kind, span, text⟩ := t
  unfold punctuation? at hc
  split at hc <;> cases hc <;> cases h <;> first | assumption | contradiction

/-! ## Texts of tokens in a row -/

/-- A text is written for tokens: wherever it stands, it is scanned as them. -/
def Writes (us : List Token) (cs : List Char) : Prop :=
  ∀ p, ∃ ts, List.Forall₂ Rescans us ts ∧ Spells p cs ts

/-- A written token is written as its spelling. -/
theorem Written.writes {t : Token} (h : Written t) : Writes [t] t.spelling := by
  intro p
  obtain ⟨t', hrescans, hspells⟩ := h.spells p
  exact ⟨[t'], .cons hrescans .nil, hspells⟩

namespace Writes

variable {us vs : List Token} {cs ds : List Char}

theorem nil : Writes [] [] := fun p => ⟨[], .nil, .nil p⟩

/-- Texts for tokens in a row, of which the second starts at a boundary. -/
theorem append (hcs : Writes us cs) (hds : Writes vs ds) (h : atBoundary ds = true) :
    Writes (us ++ vs) (cs ++ ds) := by
  intro p
  obtain ⟨ts, hts, hspells⟩ := hcs p
  obtain ⟨ts', hts', hspells'⟩ := hds (p.after cs)
  exact ⟨ts ++ ts', List.rel_append hts hts', hspells.append hspells' h⟩

theorem punctuation {t : Token} {c : Char} (ht : Written t) (hc : punctuation? c = some t.kind)
    (hcs : Writes us cs) : Writes (t :: us) (c :: cs) := by
  intro p
  obtain ⟨ts, hts, hspells⟩ := hcs (p.step c)
  exact ⟨_, .cons (rescans_bare hc (ht.text_of_punctuation? hc) _) hts, hspells.punctuation hc⟩

theorem blank (hcs : Writes us cs) : Writes us (' ' :: cs) := by
  intro p
  obtain ⟨ts, hts, hspells⟩ := hcs (p.step ' ')
  exact ⟨ts, hts, hspells.blank⟩

end Writes

end Token

end TypedScheme
