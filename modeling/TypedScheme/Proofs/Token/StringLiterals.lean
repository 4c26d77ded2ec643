import TypedScheme.Expr.Parser
import TypedScheme.Proofs.Token.Extension
import TypedScheme.Proofs.Token.Writing

/-!
# String literals, scanned and read

A string is seen twice: the scanner looks for the quote that closes it and for unknown escapes, and what it
takes as a string is decoded later, by rules that know more escapes and no line feed. The two agree. What
is scanned as a string stands for a text by the rules of `Text.Quoted.StandsFor`, and the text is what both
expressions and quoted data read from it, as long as the literal stays on one line.

## What this module delivers

- `Text.Quoted.StandsFor`: the inside of a literal and the text that it stands for.
- `Lexeme.stringTail_of_standsFor` and `Lexeme.exists_standsFor`: the scanner takes exactly the insides of
  literals up to the quote behind them.
- `Text.Quoted.decode?_literal`: the decoder gives the text if there is no line feed.
- `Token.stringLiteral_scanned_and_read`: scanner and readers agree on all string tokens.
-/

set_option autoImplicit false

namespace TypedScheme

namespace Text.Quoted

/-! ## What a literal stands for -/

/-- The letters behind a backslash and the characters they stand for. -/
def denotedEscapes : List (Char × Char) :=
  [('n', '\n'), ('t', '\t'), ('r', '\r'), ('\\', '\\'), ('"', '"')]

/-- The inside of a literal stands for a text: each escape for its character, and every other character
for itself. -/
inductive StandsFor : List Char → List Char → Prop
  | nil : StandsFor [] []
  | escape {letter c : Char} {inside value : List Char} :
      (letter, c) ∈ denotedEscapes → StandsFor inside value →
      StandsFor ('\\' :: letter :: inside) (c :: value)
  | char {c : Char} {inside value : List Char} :
      c ≠ '"' → c ≠ '\\' → StandsFor inside value → StandsFor (c :: inside) (c :: value)

/-- The literal with some characters between the quotes. -/
def literal (inside : List Char) : String := String.ofList ('"' :: (inside ++ ['"']))

theorem toList_literal (inside : List Char) : (literal inside).toList = '"' :: (inside ++ ['"']) :=
  String.toList_ofList

theorem newline_mem_literal {inside : List Char} :
    '\n' ∈ (literal inside).toList ↔ '\n' ∈ inside := by
  simp [toList_literal]

variable {letter c : Char} {inside value : List Char}

theorem mem_commonEscapes_iff : letter ∈ commonEscapes ↔ ∃ c, (letter, c) ∈ denotedEscapes := by
  have hletters : commonEscapes = denotedEscapes.map Prod.fst := rfl
  simp [hletters]

/-- The decoder reads an escape as the character that it stands for. -/
theorem escape?_of_mem_denotedEscapes (h : (letter, c) ∈ denotedEscapes) (after : List Char) :
    escape? '"' letter after = some (.char c, 0) := by
  rw [escape?_of_mem_commonEscapes (mem_commonEscapes_iff.2 ⟨c, h⟩)]
  simp only [denotedEscapes, List.mem_cons, Prod.mk.injEq, List.not_mem_nil, or_false] at h
  rcases h with ⟨rfl, rfl⟩ | ⟨rfl, rfl⟩ | ⟨rfl, rfl⟩ | ⟨rfl, rfl⟩ | ⟨rfl, rfl⟩ <;> rfl

/-- Up to the closing quote the decoder takes one rule after the other. -/
theorem piecesFrom_of_standsFor (h : StandsFor inside value) (hline : '\n' ∉ inside) :
    piecesFrom '"' 0 (inside ++ ['"']) = some (value.map .char) := by
  induction h with
  | nil => rfl
  | escape hletter _ ih =>
    -- An escape is a letter, so the decoder goes on right behind it.
    simp only [List.mem_cons, not_or] at hline
    rw [List.cons_append, List.cons_append, piecesFrom.eq_def]
    simp [escape?_of_mem_denotedEscapes hletter, ih hline.2.2]
  | char hquote hslash _ ih =>
    simp only [List.mem_cons, not_or] at hline
    rw [List.cons_append, piecesFrom.eq_def]
    simp [hquote, hslash, Ne.symm hline.1, ih hline.2]

/-- A literal on one line is decoded to the text that it stands for. -/
theorem decode?_literal (h : StandsFor inside value) (hline : '\n' ∉ inside) :
    decode? (literal inside) = some (value.map .char) := by
  have htext : IsText (value.map .char) := by simp [IsText]
  rw [decode?, toList_literal]
  simp [piecesFrom_of_standsFor h hline, settle_eq_self htext]

/-- A literal with a line feed is not decoded, whatever it stands for. -/
theorem decode?_literal_of_newline (hline : '\n' ∈ inside) : decode? (literal inside) = none := by
  rw [Option.eq_none_iff_forall_ne_some]
  intro s hs
  exact newline_not_mem_of_decode? (toList_literal inside) hs (List.mem_append_left _ hline)

end Text.Quoted

open Text Text.Quoted

namespace Lexeme

/-! ## What the scanner takes as a string -/

/-- The scanner passes over the inside of a literal and stops at the quote behind it. -/
theorem stringTail_of_standsFor {inside value : List Char} (h : StandsFor inside value)
    (rest : List Char) : stringTail (inside ++ '"' :: rest) = ⟨inside ++ ['"'], true, true, rest⟩ := by
  induction h with
  | nil => rfl
  | escape hletter _ ih =>
    rw [List.cons_append, List.cons_append, stringTail, ih,
      isEscapable_iff.2 (mem_commonEscapes_iff.2 ⟨_, hletter⟩)]
    rfl
  | char hquote hslash _ ih =>
    rw [List.cons_append, stringTail_of_ne hslash hquote, ih]
    rfl

/-- What the scanner passes over up to a closing quote is the inside of a literal, if all escapes are
known. -/
theorem exists_standsFor {cs : List Char} (hclosed : (stringTail cs).closed = true)
    (h : (stringTail cs).wellEscaped = true) :
    ∃ inside value, (stringTail cs).covers = inside ++ ['"'] ∧ StandsFor inside value := by
  fun_induction stringTail cs with
  | case1 => cases hclosed
  | case2 letter rest t ih =>
    obtain ⟨hletter, hrest⟩ := (Bool.and_eq_true _ _).mp h
    obtain ⟨c, hc⟩ := mem_commonEscapes_iff.1 (isEscapable_iff.1 hletter)
    obtain ⟨inside, value, hcovers, hinside⟩ := ih hclosed hrest
    exact ⟨'\\' :: letter :: inside, c :: value, by rw [hcovers]; rfl, .escape hc hinside⟩
  | case3 rest => exact ⟨[], [], rfl, .nil⟩
  | case4 c rest hslash hquote t ih =>
    have hne : c ≠ '\\' := ne_backslash_of_closed hslash hclosed
    obtain ⟨inside, value, hcovers, hinside⟩ := ih hclosed h
    exact ⟨c :: inside, c :: value, by rw [hcovers]; rfl, .char hquote hne hinside⟩

/-- A literal is scanned as a string, whatever follows. -/
theorem next_literal [IdentifierClasses] {inside value : List Char} (h : StandsFor inside value)
    (rest : List Char) :
    next ((literal inside).toList ++ rest) = (sound .string (literal inside).toList, rest) := by
  rw [toList_literal, List.cons_append, List.append_assoc, List.singleton_append,
    (Branch.string rfl).next_eq, string, stringTail_of_standsFor h]
  rfl

end Lexeme

namespace Token

/-! ## Scanner and readers -/

/-- The text of a string token is a literal. -/
theorem Scanned.exists_literal [IdentifierClasses] {t : Token} (h : t.Scanned) (hkind : t.kind = .string) :
    ∃ inside value, t.text = literal inside ∧ StandsFor inside value := by
  obtain ⟨cs, hnext, hcovers⟩ := h.exists_next (by rw [hkind]; rfl)
  obtain ⟨rest, htail, hclosed, hescaped⟩ := Lexeme.exists_stringTail_of_next (hnext.trans hkind)
  obtain ⟨inside, value, hinside, hstands⟩ := Lexeme.exists_standsFor hclosed hescaped
  refine ⟨inside, value, ?_, hstands⟩
  rw [literal, ← hinside, ← htail, hcovers, String.ofList_toList]

/-- Expressions and quoted data read a string token in the same way. -/
theorem read_string {t : Token} (hkind : t.kind = .string) :
    Value.ofDatum (.atom t) = t.stringValue.map .string ∧
      ∀ n, (Expr.ofToken t).run n = (t.stringValue.map (.string t), n) := by
  rw [Value.ofDatum, Value.ofToken, Expr.ofToken, hkind]
  cases t.stringValue <;> exact ⟨rfl, fun _ => rfl⟩

theorem scanned_of_mem_scan [IdentifierClasses] {source : String} {t : Token} (ht : t ∈ scan source)
    (hkind : t.kind ≠ .endOfInput) : t.Scanned := by
  rw [scan_eq_placed, List.mem_append, List.mem_singleton] at ht
  rcases ht with ht | rfl
  · exact scanned_of_mem_placed ht
  · exact absurd rfl hkind

/-- Scanner and readers agree on string literals. Every string token of a text is a literal that stands
for some text. Quoted data and expressions both read this text from it if there is no line feed in the
literal, and both find the literal invalid if there is one. Conversely every literal that stands for a
text is scanned as one string token that ends with the closing quote, whatever follows. -/
theorem stringLiteral_scanned_and_read [IdentifierClasses] :
    (∀ source, ∀ t ∈ scan source, t.kind = .string →
      ∃ inside value, t.text = literal inside ∧ StandsFor inside value ∧
        ('\n' ∉ t.text.toList →
          Value.ofDatum (.atom t) = .ok (.string (value.map .char)) ∧
          ∀ n, (Expr.ofToken t).run n = (.ok (.string t (value.map .char)), n)) ∧
        ('\n' ∈ t.text.toList →
          Value.ofDatum (.atom t) = .error ⟨.invalidString t.text, t.span⟩ ∧
          ∀ n, (Expr.ofToken t).run n = (.error ⟨.invalidString t.text, t.span⟩, n))) ∧
    (∀ inside value, StandsFor inside value → ∀ p rest,
      Cursor.next ⟨p, (literal inside).toList ++ rest⟩ =
        (⟨.string, ⟨p, p.after ('"' :: inside)⟩, literal inside⟩,
          ⟨p.after (literal inside).toList, rest⟩)) := by
  constructor
  · intro source t ht hkind
    have hscanned := scanned_of_mem_scan ht (by rw [hkind]; decide)
    obtain ⟨inside, value, htext, hstands⟩ := hscanned.exists_literal hkind
    obtain ⟨hdatum, hexpr⟩ := read_string hkind
    refine ⟨inside, value, htext, hstands, fun hline => ?_, fun hline => ?_⟩
    · rw [htext, newline_mem_literal] at hline
      have hvalue : t.stringValue = .ok (value.map .char) := by
        rw [stringValue, htext, decode?_literal hstands hline]
      rw [hvalue] at hdatum hexpr
      exact ⟨hdatum, hexpr⟩
    · rw [htext, newline_mem_literal] at hline
      have hvalue : t.stringValue = .error ⟨.invalidString t.text, t.span⟩ := by
        rw [stringValue, htext, decode?_literal_of_newline hline]
      rw [hvalue] at hdatum hexpr
      exact ⟨hdatum, hexpr⟩
  · intro inside value hstands p rest
    have hdrop : (literal inside).toList.dropLast = '"' :: inside := by
      rw [toList_literal, ← List.cons_append, List.dropLast_concat]
    rw [Cursor.next, Lexeme.next_literal hstands]
    simp [Lexeme.token, Lexeme.span, Lexeme.text, Lexeme.sound, Lexeme.showsText, hdrop]

/-- Two literals in one text. The first has an escape for a line feed and one for a quote, and stands for
four characters. The second has a line feed of its own: it is scanned as a string, and no reader takes
it. -/
theorem stringLiteral_scanned_and_read_lineFeeds :
    let t : Token := ⟨.string, ⟨⟨0, 1, 1⟩, ⟨7, 1, 8⟩⟩, "\"a\\n\\\"b\""⟩
    let u : Token := ⟨.string, ⟨⟨9, 1, 10⟩, ⟨13, 2, 2⟩⟩, "\"c\nd\""⟩
    (scan "\"a\\n\\\"b\" \"c\nd\"").filter (·.kind = .string) = [t, u] ∧
      Value.ofDatum (.atom t) = .ok (.string (['a', '\n', '"', 'b'].map .char)) ∧
      (∀ n, (Expr.ofToken t).run n = (.ok (.string t (['a', '\n', '"', 'b'].map .char)), n)) ∧
      Value.ofDatum (.atom u) = .error ⟨.invalidString u.text, u.span⟩ ∧
      ∀ n, (Expr.ofToken u).run n = (.error ⟨.invalidString u.text, u.span⟩, n) := by
  intro t u
  have hscan : (scan "\"a\\n\\\"b\" \"c\nd\"").filter (·.kind = .string) = [t, u] := by
    decide +kernel
  have hmem : ∀ x ∈ [t, u], x ∈ scan "\"a\\n\\\"b\" \"c\nd\"" :=
    fun x hx => (List.mem_filter.1 (hscan ▸ hx)).1
  obtain ⟨hread, -⟩ := stringLiteral_scanned_and_read
  obtain ⟨inside, value, htext, hstands, hvalue, -⟩ := hread _ t (hmem t (by simp)) rfl
  obtain ⟨-, -, -, -, -, hinvalid⟩ := hread _ u (hmem u (by simp)) rfl
  -- The decoder gives the one text that the literal stands for.
  have hline : '\n' ∉ t.text.toList := by decide
  obtain rfl : value = ['a', '\n', '"', 'b'] := by
    have hdecode := decode?_literal hstands (newline_mem_literal.not.1 (htext ▸ hline))
    have htextDecode : decode? t.text = some (['a', '\n', '"', 'b'].map .char) := by decide +kernel
    rw [← htext, htextDecode] at hdecode
    exact List.map_injective_iff.2 (fun _ _ h => Piece.char.inj h) (Option.some.inj hdecode).symm
  exact ⟨hscan, (hvalue hline).1, (hvalue hline).2, (hinvalid (by decide)).1, (hinvalid (by decide)).2⟩

end Token

end TypedScheme
