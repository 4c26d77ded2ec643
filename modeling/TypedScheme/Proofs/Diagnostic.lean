import TypedScheme.Diagnostic
import TypedScheme.Proofs.Expr.FaultPlaces
import TypedScheme.Proofs.Expr.Nesting

/-!
# Carets under the text at fault

An error with a place is shown with the line where it starts and with carets below that line. The line
is found by splitting the source at its line feeds, and the first caret by counting characters of the
line, so both have to agree with the positions that were counted along the text. The number in front of
the line has a field of four characters. The margin of the carets is made for such a field, so from line
10000 on the carets stand too far to the left.

## What this module delivers

- `Text.IsLineAt text offset number before rest`: the line of a text around a character, with
  `Text.exists_isLineAt` and `Text.IsLineAt.getElem?_splitOn`.
- `SourceError.ArisesFrom source e`: the error `e` comes from parsing or checking a source text, and
  `Diagnostic.exists_marks`, its place.
- `Diagnostic.carets_under_fault`: where the carets of a diagnostic stand.
-/

set_option autoImplicit false

namespace TypedScheme

/-! ## The lines of a text -/

namespace Text

/-- A text has one line more than line feeds. -/
theorem length_splitOn (text : List Char) :
    (text.splitOn '\n').length = text.count '\n' + 1 := by
  induction text with
  | nil => rfl
  | cons c text ih =>
    rw [List.splitOn_cons_eq_if_modifyHead]
    by_cases hc : c = '\n'
    · simp [hc, ih]
    · simp [hc, ih]

/-- The line of a text around the character at an offset. Its number counts from one, `before` are its
characters in front of that character, and `rest` are that character and those after it. -/
def IsLineAt (text : List Char) (offset number : Nat) (before rest : List Char) : Prop :=
  ∃ start stop, text = start ++ (before ++ rest ++ stop) ∧
    start.length + before.length = offset ∧ number = start.count '\n' + 1 ∧
    (start = [] ∨ ∃ cs, start = cs ++ ['\n']) ∧ '\n' ∉ before ++ rest ∧
    (stop = [] ∨ ∃ cs, stop = '\n' :: cs)

variable {text before rest : List Char} {offset number : Nat}

/-- The first line of a text ends at the first line feed. -/
theorem exists_splitOn_cons {line stop : List Char} (hline : '\n' ∉ line)
    (hstop : stop = [] ∨ ∃ cs, stop = '\n' :: cs) :
    ∃ lines, (line ++ stop).splitOn '\n' = line :: lines := by
  rcases hstop with rfl | ⟨cs, rfl⟩
  · rw [List.append_nil, List.splitOn_eq_singleton hline]
    exact ⟨[], rfl⟩
  · rw [List.splitOn_append_cons_self_of_not_mem hline]
    exact ⟨_, rfl⟩

/-- A line is found by its number among the lines of the text. -/
theorem IsLineAt.getElem?_splitOn (h : IsLineAt text offset number before rest) :
    (text.splitOn '\n')[number - 1]? = some (before ++ rest) := by
  obtain ⟨start, stop, rfl, -, rfl, hstart, hline, hstop⟩ := h
  obtain ⟨lines, hlines⟩ := exists_splitOn_cons hline hstop
  rcases hstart with rfl | ⟨cs, rfl⟩
  · rw [List.nil_append, hlines]
    rfl
  · -- The lines before the line feed are as many as the line feeds up to it.
    have hlength := length_splitOn cs
    rw [List.append_assoc, List.singleton_append, List.splitOn_append_cons_self, hlines,
      List.getElem?_append_right (by simp [hlength])]
    simp [hlength]

theorem dropWhile_newline (cs : List Char) :
    cs.dropWhile (· ≠ '\n') = [] ∨ ∃ ds, cs.dropWhile (· ≠ '\n') = '\n' :: ds := by
  induction cs with
  | nil => exact .inl rfl
  | cons c cs ih =>
    by_cases hc : c = '\n'
    · exact .inr ⟨cs, by simp [hc]⟩
    · simpa [hc] using ih

theorem newline_not_mem_takeWhile (cs : List Char) : '\n' ∉ cs.takeWhile (· ≠ '\n') := by
  intro h
  simpa using List.mem_takeWhile_imp h

/-- A character other than a line feed is on a line, whose number and whose part before the character
are those that a position counts. -/
theorem exists_isLineAt {c : Char} (hoffset : text[offset]? = some c) (hc : c ≠ '\n') :
    ∃ before after, IsLineAt text offset ((text.take offset).count '\n' + 1) before (c :: after) ∧
      before.length = ((text.take offset).reverse.takeWhile (· ≠ '\n')).length := by
  obtain ⟨hlt, rfl⟩ := List.getElem?_eq_some_iff.1 hoffset
  -- The text in front of the character is cut behind its last line feed, and the text after the
  -- character in front of its first one.
  have hfront : ((text.take offset).reverse.dropWhile (· ≠ '\n')).reverse ++
      ((text.take offset).reverse.takeWhile (· ≠ '\n')).reverse = text.take offset := by
    rw [← List.reverse_append, List.takeWhile_append_dropWhile, List.reverse_reverse]
  have hback : (text.drop (offset + 1)).takeWhile (· ≠ '\n') ++
      (text.drop (offset + 1)).dropWhile (· ≠ '\n') = text.drop (offset + 1) :=
    List.takeWhile_append_dropWhile
  have hbefore := newline_not_mem_takeWhile (text.take offset).reverse
  have hafter := newline_not_mem_takeWhile (text.drop (offset + 1))
  refine ⟨((text.take offset).reverse.takeWhile (· ≠ '\n')).reverse,
    (text.drop (offset + 1)).takeWhile (· ≠ '\n'),
    ⟨((text.take offset).reverse.dropWhile (· ≠ '\n')).reverse,
      (text.drop (offset + 1)).dropWhile (· ≠ '\n'), ?_, ?_, ?_, ?_, ?_, dropWhile_newline _⟩,
    List.length_reverse⟩
  · rw [List.append_assoc, ← List.append_assoc, hfront, List.cons_append, hback,
      ← List.drop_eq_getElem_cons hlt, List.take_append_drop]
  · rw [← List.length_append, hfront, List.length_take, Nat.min_eq_left (Nat.le_of_lt hlt)]
  · have hzero : ((text.take offset).reverse.takeWhile (· ≠ '\n')).reverse.count '\n' = 0 := by
      rw [List.count_reverse, List.count_eq_zero.2 hbefore]
    conv_lhs => rw [← hfront, List.count_append, hzero, Nat.add_zero]
  · rcases dropWhile_newline (text.take offset).reverse with hnil | ⟨cs, hcs⟩
    · exact .inl (by rw [hnil]; rfl)
    · exact .inr ⟨cs.reverse, by rw [hcs, List.reverse_cons]⟩
  · intro hmem
    rcases List.mem_append.1 hmem with hmem | hmem
    · exact hbefore (List.mem_reverse.1 hmem)
    · rcases List.mem_cons.1 hmem with heq | hmem
      · exact hc heq.symm
      · exact hafter hmem

end Text

/-! ## Where errors come from -/

/-- An error comes from a source text: the text is no program, or the check of its program fails. -/
inductive SourceError.ArisesFrom (source : String) : SourceError → Prop
  | malformed {k k' : Nat} {e : SyntaxError} :
      (Program.parse source).runFrom k = (.error e, k') → ArisesFrom source (.malformed e)
  | illTyped {k k' last : Nat} {tracing : Bool} {p : Program} {e : TypeError} :
      (Program.parse source).runFrom k = (.ok p, k') →
      ((p.check .empty).runFrom last tracing).result = .error e → ArisesFrom source (.illTyped e)

namespace Diagnostic

/-- An error with a place marks a piece of its source text. -/
theorem exists_marks {source : String} {e : SourceError} (he : e.ArisesFrom source)
    (hplace : (ofSourceError e).span.isAbsent = false) :
    ∃ a b, (ofSourceError e).span.Marks source.toList a b := by
  cases he with
  | malformed hparse =>
    rcases Program.placed_of_parse hparse with habsent | hmarks
    · exact absurd hplace (by simp [ofSourceError, ofSyntaxError, habsent])
    · exact hmarks
  | illTyped hparse hcheck =>
    rename_i error
    change error.span.isAbsent = false at hplace
    change ∃ a b, error.span.Marks source.toList a b
    rcases Program.exists_inside_of_check hparse hcheck with ⟨-, hspan⟩ | ⟨hne, f, hf, hspan⟩
    · rw [hspan] at hplace
      cases hplace
    · obtain ⟨a, b, -, hlaid⟩ := Program.exists_laid_of_parse hparse hne hf
      rw [hspan]
      exact ⟨a, b, hlaid.marks⟩

/-! ## Labels and margins -/

/-- The number of a line has four characters up to 9999, and more from there on. -/
theorem length_gutter (n : Nat) :
    4 ≤ (gutter n).toList.length ∧ ((gutter n).toList.length = 4 ↔ n < 10000) := by
  have hdigits : (toString n).length ≤ 4 ↔ n < 10 ^ 4 := by
    rw [Nat.toString_eq_repr]
    exact Nat.length_repr_le_iff (by decide)
  have hlength : (gutter n).toList.length = 4 - (toString n).length + (toString n).length := by
    rw [gutter, String.toList_append, List.length_append, String.toList_ofList,
      List.length_replicate, String.length_toList]
  omega

theorem newline_not_mem_gutter (n : Nat) : '\n' ∉ (gutter n).toList := by
  intro h
  rw [gutter, String.toList_append, String.toList_ofList] at h
  rcases List.mem_append.1 h with h | h
  · exact absurd (List.eq_of_mem_replicate h) (by decide)
  · rw [Nat.toString_eq_repr, Nat.repr_eq_ofList_toDigits, String.toList_ofList] at h
    exact absurd (Nat.isDigit_of_mem_toDigits (by decide) (by decide) h) (by decide)

/-- The characters in front of a line of the source. -/
def label (n : Nat) : List Char := (gutter n).toList ++ " | ".toList

/-- The characters in front of the carets under a column. -/
def margin (column : Nat) : List Char := "     | ".toList ++ List.replicate (column - 1) ' '

/-- A source line stands behind its label. -/
theorem toList_sourceLine (n : Nat) (line : String) :
    (sourceLine n line).toList = label n ++ line.toList ++ ['\n'] := by
  rw [sourceLine, String.toList_append, String.toList_append, String.toList_append]
  rfl

/-- The carets stand behind a margin of blanks. -/
theorem toList_caretLine (column width : Nat) :
    (caretLine column width).toList = margin column ++ List.replicate width '^' ++ ['\n'] := by
  have hcarets : (String.ofList (List.replicate (column - 1) ' ' ++
      List.replicate width '^')).toList = _ := String.toList_ofList
  rw [caretLine, String.toList_append, String.toList_append, hcarets, ← List.append_assoc]
  rfl

theorem length_label (n : Nat) : (label n).length = (gutter n).toList.length + 3 := by
  rw [label, List.length_append]
  rfl

theorem length_margin (column : Nat) : (margin column).length = column - 1 + 7 := by
  have hbar : "     | ".toList.length = 7 := by decide
  unfold margin
  rw [List.length_append, List.length_replicate, hbar]
  exact Nat.add_comm 7 (column - 1)

theorem newline_not_mem_label (n : Nat) : '\n' ∉ label n := by
  intro h
  rcases List.mem_append.1 h with h | h
  · exact newline_not_mem_gutter n h
  · exact absurd h (by decide)

/-- A margin has only blanks and a bar. -/
theorem eq_of_mem_margin {column : Nat} {c : Char} (h : c ∈ margin column) : c = ' ' ∨ c = '|' := by
  have hbar : ("     | ".toList.all fun d => d = ' ' ∨ d = '|') = true := by decide
  rcases List.mem_append.1 h with h | h
  · exact of_decide_eq_true (List.all_eq_true.1 hbar c h)
  · exact .inl (List.eq_of_mem_replicate h)

/-- A text shows a line behind a label, and below it a number of carets behind a margin. -/
def ShowsCarets (shown label line margin : List Char) (width : Nat) : Prop :=
  ∃ above below, shown = above ++ (label ++ line ++ '\n' :: (margin ++ List.replicate width '^' ++
      '\n' :: below)) ∧
    (∃ cs, above = cs ++ ['\n']) ∧ '\n' ∉ label ∧ '\n' ∉ margin ∧ '^' ∉ margin ∧ 0 < width

/-- A diagnostic with a place has the line of its place, the carets under it, and a line feed in front of
both. -/
theorem exists_toList_located (d : Diagnostic) (heading name source : String) (color : Bool) :
    ∃ above below, (d.located heading name source color).toList =
      (above ++ ['\n']) ++
        (label (lineOf d.span (Text.lines source).length) ++
          ((Text.lines source).getD (lineOf d.span (Text.lines source).length - 1) "").toList ++
        '\n' :: (margin (columnOf d.span) ++ List.replicate (widthOf d.span) '^' ++ '\n' :: below)) := by
  unfold located
  dsimp only
  generalize Text.lines source = lines
  generalize lineOf d.span lines.length = line
  generalize (if line < lines.length then sourceLine (line + 1) (lines.getD line "") else "") = next
  -- Whatever the heading is, it ends with two line feeds, and so does nothing but a line before.
  have hshape : ∀ title message : String, ∃ above below,
      (title ++ (message ++ "\n\n") ++
        (if 1 < line then sourceLine (line - 1) (lines.getD (line - 2) "") else "") ++
        sourceLine line (lines.getD (line - 1) "") ++
        caretLine (columnOf d.span) (widthOf d.span) ++ next).toList =
      (above ++ ['\n']) ++ (label line ++ (lines.getD (line - 1) "").toList ++
        '\n' :: (margin (columnOf d.span) ++ List.replicate (widthOf d.span) '^' ++
          '\n' :: below)) := by
    intro title message
    split
    · refine ⟨title.toList ++ (message ++ "\n\n").toList ++ label (line - 1) ++
        (lines.getD (line - 2) "").toList, next.toList, ?_⟩
      simp only [String.toList_append, toList_sourceLine, toList_caretLine, List.append_assoc,
        List.cons_append, List.nil_append]
    · refine ⟨title.toList ++ message.toList ++ ['\n'], next.toList, ?_⟩
      have hfeeds : "\n\n".toList = ['\n', '\n'] := rfl
      simp only [String.append_empty, String.toList_append, toList_sourceLine, toList_caretLine,
        hfeeds, List.append_assoc, List.cons_append, List.nil_append]
  exact hshape _ _

/-! ## Lines, columns and widths of places -/

variable {text : List Char} {a b : Nat} {s : Span}

/-- A span that marks a piece of the text is shown on the line that the piece starts on. -/
theorem lineOf_of_marks (h : s.Marks text a b) {count : Nat}
    (hcount : (text.take a).count '\n' + 1 ≤ count) :
    lineOf s count = (text.take a).count '\n' + 1 := by
  have hline : s.first.line = 1 + ((text.take a).count '\n' : Int) := by rw [h.eq]; rfl
  unfold lineOf
  rw [if_neg (by omega), if_neg (by omega)]
  omega

/-- A span that marks a piece of the text is shown from the column that the piece starts at. -/
theorem columnOf_of_marks (h : s.Marks text a b) :
    columnOf s = ((text.take a).reverse.takeWhile (· ≠ '\n')).length + 1 := by
  have hcolumn : s.first.column =
      1 + (((text.take a).reverse.takeWhile (· ≠ '\n')).length : Int) := by rw [h.eq]; rfl
  unfold columnOf
  rw [if_neg (by omega)]
  omega

theorem widthOf_pos (s : Span) : 0 < widthOf s := by
  unfold widthOf
  split
  · next h =>
    simp only [Bool.and_eq_true, decide_eq_true_eq] at h
    omega
  · exact Nat.one_pos

/-- There are as many carets as positions in a place on one line. -/
theorem widthOf_of_marks (h : s.Marks text a b) (hline : s.last.line = s.first.line) :
    (widthOf s : Int) = s.last.offset - s.first.offset + 1 := by
  have hlt := h.lt
  have hle := h.le
  have hcolumn : s.last.column = s.first.column + (b - 1 - a : Nat) := by
    rw [h.eq] at hline ⊢
    exact Position.column_ofOffset_sub (by omega) (by omega) hline
  rw [h.first_offset, h.last_offset]
  unfold widthOf
  split
  · omega
  · next hwidth =>
    have hsame : ¬ s.first.column < s.last.column := by simpa [hline] using hwidth
    omega

theorem exists_render_eq_located {e : SourceError}
    (hplace : (ofSourceError e).span.isAbsent = false) (name source : String) (color : Bool) :
    ∃ heading, (ofSourceError e).render name source color =
      (ofSourceError e).located heading name source color := by
  cases e with
  | malformed error => exact ⟨malformedHeading, if_neg (by rw [hplace]; decide)⟩
  | illTyped error => exact ⟨error.kind.title, if_neg (by rw [hplace]; decide)⟩

/-- An error with a place is shown with the whole line on which it starts and with carets below that
line, as many as the place has positions if it ends on the line. The first caret stands under the first
character of the place exactly if the number of the line has at most four digits. -/
theorem carets_under_fault {source : String} {e : SourceError} (he : e.ArisesFrom source)
    (hplace : (ofSourceError e).span.isAbsent = false) (name : String) (color : Bool) :
    ∃ (offset number : Nat) (before : List Char) (c : Char) (after label margin : List Char)
      (width : Nat),
      (ofSourceError e).span.first.offset = offset ∧ (ofSourceError e).span.first.line = number ∧
      Text.IsLineAt source.toList offset number before (c :: after) ∧
      ShowsCarets ((ofSourceError e).render name source color).toList label (before ++ c :: after)
        margin width ∧
      (margin.length = label.length + before.length ↔ number < 10000) ∧
      ((ofSourceError e).span.last.line = (ofSourceError e).span.first.line →
        (width : Int) =
          (ofSourceError e).span.last.offset - (ofSourceError e).span.first.offset + 1) := by
  obtain ⟨a, b, hmarks⟩ := exists_marks he hplace
  obtain ⟨c, hc, hblank⟩ := hmarks.visible
  have hfeed : c ≠ '\n' := by
    rintro rfl
    exact absurd hblank (by decide)
  obtain ⟨before, after, hline, hbefore⟩ := Text.exists_isLineAt hc hfeed
  -- The line that is shown is the one that the position of the place counts.
  have hlines := hline.getElem?_splitOn
  obtain ⟨hcount, -⟩ := List.getElem?_eq_some_iff.1 hlines
  have hget : (Text.lines source).getD ((source.toList.take a).count '\n' + 1 - 1) "" =
      String.ofList (before ++ c :: after) := by
    rw [Text.lines, List.getD_eq_getElem?_getD, List.getElem?_map, hlines]
    rfl
  have hnumber : lineOf (ofSourceError e).span (Text.lines source).length =
      (source.toList.take a).count '\n' + 1 := by
    refine lineOf_of_marks hmarks ?_
    rw [Text.lines, List.length_map]
    omega
  have hcolumn : columnOf (ofSourceError e).span = before.length + 1 := by
    rw [columnOf_of_marks hmarks, hbefore]
  obtain ⟨heading, hrender⟩ := exists_render_eq_located hplace name source color
  obtain ⟨above, below, hshown⟩ :=
    exists_toList_located (ofSourceError e) heading name source color
  rw [← hrender, hnumber, hcolumn, hget, String.toList_ofList] at hshown
  have hmargin : ∀ d : Char, d ≠ ' ' → d ≠ '|' → d ∉ margin (before.length + 1) :=
    fun d hspace hbar hmem => (eq_of_mem_margin hmem).elim hspace hbar
  have hfirst : (ofSourceError e).span.first.line = ((source.toList.take a).count '\n' + 1 : Nat) := by
    rw [hmarks.eq]
    exact Int.add_comm 1 _
  refine ⟨a, _, before, c, after, _, _, widthOf (ofSourceError e).span, hmarks.first_offset, hfirst,
    hline, ⟨above ++ ['\n'], below, hshown, ⟨above, rfl⟩, newline_not_mem_label _,
      hmargin _ (by decide) (by decide), hmargin _ (by decide) (by decide), widthOf_pos _⟩, ?_,
    widthOf_of_marks hmarks⟩
  obtain ⟨hwide, hnarrow⟩ := length_gutter ((source.toList.take a).count '\n' + 1)
  rw [length_label, length_margin]
  omega

/-! ## A line that is too far down -/

/-- A parenthesis that closes nothing is at fault after any number of line feeds. -/
theorem arisesFrom_feeds (n : Nat) :
    SourceError.ArisesFrom (.ofList (List.replicate n '\n' ++ [')']))
      (.malformed ⟨.unexpectedClose, ⟨⟨n, n + 1, 1⟩, ⟨n, n + 1, 1⟩⟩⟩) := by
  have hposition : Position.start.after (List.replicate n '\n') = ⟨n, n + 1, 1⟩ := by
    induction n with
    | zero => rfl
    | succ n ih =>
      rw [List.replicate_succ', Position.after_append, ih]
      rfl
  have hblank : ∀ c ∈ List.replicate n '\n', Text.isBlank c = true := by
    intro c hc
    rw [List.eq_of_mem_replicate hc]
    decide
  have hread : Datum.readAll (.ofList (List.replicate n '\n' ++ [')'])) =
      .error ⟨.unexpectedClose, ⟨⟨n, n + 1, 1⟩, ⟨n, n + 1, 1⟩⟩⟩ := by
    rw [Datum.readAll, Token.significant_eq, String.toList_ofList,
      Token.significantAt_blanks hblank, hposition, Token.significantAt_punctuation rfl,
      Token.significantAt_nil]
    rfl
  have hparse : (Program.parse (.ofList (List.replicate n '\n' ++ [')']))).runFrom 0 =
      (.error ⟨.unexpectedClose, ⟨⟨n, n + 1, 1⟩, ⟨n, n + 1, 1⟩⟩⟩, 0) := by
    rw [Program.parse, hread]
    rfl
  exact .malformed hparse

/-- On line 10000 the caret stands to the left of the character that it is meant for. -/
theorem carets_under_fault_too_far_left :
    ∃ (source : String) (e : SourceError) (before after label margin : List Char) (c : Char)
      (width : Nat),
      e.ArisesFrom source ∧ (ofSourceError e).span.isAbsent = false ∧
      Text.IsLineAt source.toList 9999 10000 before (c :: after) ∧
      ShowsCarets ((ofSourceError e).render "" source false).toList label (before ++ c :: after)
        margin width ∧
      margin.length ≠ label.length + before.length ∧ width = 1 := by
  have harises := arisesFrom_feeds 9999
  obtain ⟨offset, number, before, c, after, label, margin, width, hoffset, hnumber, hline, hshows,
    haligned, hwidth⟩ := carets_under_fault harises rfl "" false
  obtain rfl : 9999 = offset := Int.ofNat_inj.1 hoffset
  obtain rfl : 10000 = number := Int.ofNat_inj.1 hnumber
  refine ⟨_, _, before, after, label, margin, c, width, harises, rfl, hline, hshows, ?_, ?_⟩
  · intro heq
    exact absurd (haligned.1 heq) (by decide)
  · exact Int.ofNat_inj.1 (hwidth rfl)

end Diagnostic

end TypedScheme
