import Mathlib.Data.List.GetD
import Mathlib.Data.List.Induction
import TypedScheme.Proofs.Token.Lexemes

/-!
# Scanning with a buffer

A cursor holds all the text that remains and carries its position along. A scanner need not: it can read
one character at a time, keep those of the token under way in a buffer, step back over what it has looked
at, and note no more of its position than an offset and the offsets at which lines start. The line and the
column of an offset are then searched for in the table of lines. Such a scanner gives the tokens of a
cursor, call after call.

## What this module delivers

- `Scanner`, with the steps `Scanner.advance`, `Scanner.retreat` and `Scanner.peek`, and with
  `Scanner.nextToken`, which scans one token and forgets its characters.
- `Scanner.search` with `Scanner.search_eq`: search by halving finds where a predicate starts to hold.
- `Scanner.At before token rest s`: the scanner `s` has scanned `before`, is inside of a token of which it
  has passed `token`, and has `rest` in front of it. Every step keeps this.
- `Scanner.At.positionOf_eq`: the table of lines gives the positions that are counted along the text.
- `Scanner.Gives before r out`: the scan `out` of one token comes to the lexeme and the rest `r`, with a
  lemma for every kind of token and `Scanner.gives_scanToken` for all of them.
- `Scanner.call_eq`: the tokens of a scanner are those of a cursor.
-/

set_option autoImplicit false

namespace TypedScheme

open Text Lexeme

/-- A scanner that reads its text one character at a time. Its buffer holds the characters of the token
under way and those after it that have been read, and a mark where the end of the text has been seen. -/
structure Scanner where
  /-- The character in front of the scanner, unless that is the end of the text. -/
  current : Option Char
  /-- The offset of this character in the text. -/
  offset : Nat
  /-- Where this character is in the buffer. -/
  index : Nat
  buffer : List (Option Char)
  unread : List Char
  /-- The offsets of the text at which lines start, as far as it has been scanned. -/
  lineStarts : List Nat

namespace Scanner

/-! ## Steps -/

/-- The scanner in front of a text, of which it has read the first character. -/
def ofText (text : List Char) : Scanner := ⟨text.head?, 0, 0, [text.head?], text.tail, [0]⟩

/-- Passes the current character. The next one is taken from the buffer or, at its end, read. -/
def advance (s : Scanner) : Scanner :=
  match s.current with
  | none => s
  | some c =>
    let lineStarts := if c = '\n' then s.lineStarts ++ [s.offset + 1] else s.lineStarts
    if s.index + 1 < s.buffer.length then
      ⟨s.buffer.getD (s.index + 1) none, s.offset + 1, s.index + 1, s.buffer, s.unread, lineStarts⟩
    else
      ⟨s.unread.head?, s.offset + 1, s.index + 1, s.buffer ++ [s.unread.head?], s.unread.tail,
        lineStarts⟩

/-- Goes back by one character, if there is one in the buffer. A line that starts behind the scanner is
struck out again, but never the first. -/
def retreat (s : Scanner) : Scanner :=
  if 0 < s.index then
    ⟨s.buffer.getD (s.index - 1) none, s.offset - 1, s.index - 1, s.buffer, s.unread,
      if 1 < s.lineStarts.length && s.offset - 1 < s.lineStarts.getLastD 0 then s.lineStarts.dropLast
      else s.lineStarts⟩
  else s

/-- The character after the current one, and the scanner where it was. -/
def peek (s : Scanner) : Option Char × Scanner :=
  if s.current = none then (none, s) else (s.advance.current, s.advance.retreat)

/-- The characters of the token under way. -/
def pending (s : Scanner) : String := String.ofList ((s.buffer.take s.index).filterMap id)

/-- Drops the characters of a token that is over. -/
def release (s : Scanner) : Scanner :=
  { s with current := s.buffer.getD s.index none, index := 0, buffer := s.buffer.drop s.index }

/-- Whether there is a current character, of a class. -/
def sees (s : Scanner) (p : Char → Bool) : Bool := s.current.any p

/-- Whether the current character ends an atom, as the end of the text does. -/
def atDelimiter (s : Scanner) : Bool := s.current.all isDelimiter

/-- What is left to scan, in the buffer and behind it. -/
def ahead (s : Scanner) : Nat :=
  s.unread.length + (s.buffer.length - s.index) + s.current.toList.length

theorem ahead_advance_lt {s : Scanner} {c : Char} (h : s.current = some c) :
    s.advance.ahead < s.ahead := by
  have hcurrent (o : Option Char) : o.toList.length ≤ 1 := by cases o <;> simp
  unfold advance
  simp only [h]
  split
  · have hnext := hcurrent (s.buffer.getD (s.index + 1) none)
    simp only [ahead, h, Option.toList_some, List.length_singleton]
    omega
  · cases hunread : s.unread <;>
      simp only [ahead, h, hunread, List.head?_nil, List.head?_cons, List.tail_nil, List.tail_cons,
        List.length_append, List.length_cons, List.length_nil, Option.toList_some,
        Option.toList_none] <;> omega

theorem ahead_advance_le (s : Scanner) : s.advance.ahead ≤ s.ahead := by
  cases h : s.current with
  | none =>
    unfold advance
    simp [h]
  | some c => exact Nat.le_of_lt (ahead_advance_lt h)

/-- Passes characters of a class, as long as there are any. -/
def skipWhile (p : Char → Bool) (s : Scanner) : Scanner :=
  match _h : s.current with
  | none => s
  | some c => if p c then skipWhile p s.advance else s
termination_by s.ahead
decreasing_by exact ahead_advance_lt _h

/-! ## Positions -/

/-- Searches a number from `low` to `high` by halving, for the first that satisfies a predicate. -/
def search (p : Nat → Bool) (low high : Nat) : Nat :=
  if low < high then
    if p ((low + high) / 2) then search p low ((low + high) / 2)
    else search p ((low + high) / 2 + 1) high
  else low
termination_by high - low

/-- The position of an offset that has been scanned: its line is the last that starts at or before it. -/
def positionOf (s : Scanner) (offset : Nat) : Position :=
  let line := search (fun i => offset < s.lineStarts.getD i 0) 0 s.lineStarts.length - 1
  ⟨offset, line + 1, offset - s.lineStarts.getD line 0 + 1⟩

/-- The span from one offset to another, or to the same if the other lies before it. -/
def spanOf (s : Scanner) (first last : Nat) : Span :=
  ⟨s.positionOf first, s.positionOf (if last < first then first else last)⟩

/-! ## Tokens -/

/-- The token from an offset up to the scanner. -/
def tokenFrom (s : Scanner) (kind : Token.Kind) (start : Nat) (text : String) : Token :=
  ⟨kind, s.spanOf start (s.offset - 1), text⟩

/-- A run of characters of a class. -/
def run (kind : Token.Kind) (p : Char → Bool) (s : Scanner) : Token × Scanner :=
  let s' := s.skipWhile p
  (s'.tokenFrom kind s.offset s'.pending, s')

/-- The rest of a malformed atom, up to the next delimiter. -/
def illegalAtom (start : Nat) (fault : Option Char → LexicalFault) (s : Scanner) : Token × Scanner :=
  let s' := s.skipWhile (!isDelimiter ·)
  (s'.tokenFrom .illegal start (fault s.current).message, s')

/-- An atom that must end here. -/
def atom (kind : Token.Kind) (start : Nat) (fault : Option Char → LexicalFault) (s : Scanner) :
    Token × Scanner :=
  if s.atDelimiter then (s.tokenFrom kind start s.pending, s) else s.illegalAtom start fault

/-- A symbol. -/
def symbol [IdentifierClasses] (s : Scanner) : Token × Scanner :=
  (s.advance.skipWhile continuesSymbol).atom .symbol s.offset .inSymbol

/-- A number behind its sign. -/
def unsigned (start : Nat) (s : Scanner) : Token × Scanner :=
  let whole := s.skipWhile isDigit
  if whole.current = some '.' then
    let point := whole.advance
    let part := point.skipWhile isDigit
    if part.offset = point.offset then part.illegalAtom start .noFraction
    else part.atom .number start .inNumber
  else whole.atom .number start .inNumber

/-- A number. -/
def number (s : Scanner) : Token × Scanner :=
  (if s.sees (fun c => c = '+' || c = '-') then s.advance else s).unsigned s.offset

/-- A literal that starts with a hash sign. -/
def hash [IdentifierClasses] (s : Scanner) : Token × Scanner :=
  let word := s.advance.skipWhile continuesSymbol
  if (Token.booleans.lookup word.pending).isSome && word.atDelimiter then
    (word.tokenFrom .boolean s.offset word.pending, word)
  else
    let s' := word.skipWhile (!isDelimiter ·)
    (s'.tokenFrom .illegal s.offset (LexicalFault.unknownLiteral s'.pending).message, s')

/-- Passes the character behind a backslash, and says what is wrong with it. -/
def escape (s : Scanner) : String × Scanner :=
  match s.current with
  | none => ("escape sequence not terminated", s)
  | some c => (if isEscapable c then "" else LexicalFault.unknownEscape.message, s.advance)

theorem ahead_escape_le (s : Scanner) : s.escape.2.ahead ≤ s.ahead := by
  unfold escape
  split
  · exact Nat.le_refl _
  · exact ahead_advance_le s

/-- The rest of a string behind its opening quote. The message is that of the first wrong escape. -/
def stringRest (start : Nat) (message : String) (s : Scanner) : Token × Scanner :=
  match _h : s.current with
  | none => (⟨.illegal, s.spanOf start s.offset, LexicalFault.unterminatedString.message⟩, s)
  | some c =>
    if c = '"' then
      let s' := s.advance
      (if message = "" then s'.tokenFrom .string start s'.pending
        else s'.tokenFrom .illegal start message, s')
    else if c = '\\' then
      let escaped := s.advance.escape
      stringRest start (if message = "" then escaped.1 else message) escaped.2
    else stringRest start message s.advance
termination_by s.ahead
decreasing_by
  · exact Nat.lt_of_le_of_lt (ahead_escape_le _) (ahead_advance_lt _h)
  · exact ahead_advance_lt _h

/-- A token of one character, or the end of the input. -/
def single (s : Scanner) : Token × Scanner :=
  let s' := s.advance
  let span := s'.spanOf s.offset s.offset
  match s.current with
  | none => (⟨.endOfInput, span, ""⟩, s')
  | some c =>
    match punctuation? c with
    | some kind => (⟨kind, span, ""⟩, s')
    | none => (⟨.illegal, span, (LexicalFault.unexpected c).message⟩, s')

/-- Whether a number starts here: with a digit, or with a sign and a digit behind it. -/
def startsNumber (s : Scanner) : Bool × Scanner :=
  if s.sees isDigit then (true, s)
  else if s.sees fun c => c = '+' || c = '-' then (s.peek.1.any isDigit, s.peek.2)
  else (false, s)

/-- The token in front of the scanner, and the scanner behind it. -/
def scanToken [IdentifierClasses] (s : Scanner) : Token × Scanner :=
  if s.sees isBlank then s.run .whitespace isBlank
  else if s.sees (· = ';') then s.run .comment (· ≠ '\n')
  else if s.sees (· = '"') then s.advance.stringRest s.offset ""
  else if s.sees (· = '#') then s.hash
  else if s.startsNumber.1 then s.startsNumber.2.number
  else if s.startsNumber.2.sees startsSymbol then s.startsNumber.2.symbol
  else s.startsNumber.2.single

/-- The token in front of the scanner, and the scanner when it has dropped the token. -/
def nextToken [IdentifierClasses] (s : Scanner) : Token × Scanner :=
  (s.scanToken.1, s.scanToken.2.release)

/-- The scanner after a number of calls. -/
def after [IdentifierClasses] (s : Scanner) : Nat → Scanner
  | 0 => s
  | i + 1 => (after s i).nextToken.2

/-- The token that a call gives after a number of calls. -/
def call [IdentifierClasses] (s : Scanner) (i : Nat) : Token := (s.after i).nextToken.1

/-! ## The table of lines -/

/-- The offsets behind the line feeds of a text that starts at an offset. -/
def breaks : Nat → List Char → List Nat
  | _, [] => []
  | k, c :: cs => if c = '\n' then (k + 1) :: breaks (k + 1) cs else breaks (k + 1) cs

/-- The offsets at which the lines of a text start. -/
def lineStartsOf (text : List Char) : List Nat := 0 :: breaks 0 text

theorem breaks_append (k : Nat) (cs ds : List Char) :
    breaks k (cs ++ ds) = breaks k cs ++ breaks (k + cs.length) ds := by
  induction cs generalizing k with
  | nil => rfl
  | cons c cs ih =>
    rw [List.cons_append, breaks, breaks, ih, List.length_cons, Nat.add_right_comm k 1, ← Nat.add_assoc]
    split <;> rfl

theorem mem_breaks {k x : Nat} {cs : List Char} (h : x ∈ breaks k cs) : k < x ∧ x ≤ k + cs.length := by
  induction cs generalizing k with
  | nil => cases h
  | cons c cs ih =>
    have hrest (h : x ∈ breaks (k + 1) cs) : k < x ∧ x ≤ k + (cs.length + 1) := by
      have := ih h
      omega
    rw [breaks] at h
    split at h
    · rcases List.mem_cons.1 h with rfl | h
      · simp
      · exact hrest h
    · exact hrest h

theorem lineStartsOf_append (cs ds : List Char) :
    lineStartsOf (cs ++ ds) = lineStartsOf cs ++ breaks cs.length ds := by
  rw [lineStartsOf, breaks_append, Nat.zero_add, lineStartsOf, List.cons_append]

theorem lineStartsOf_concat (cs : List Char) (c : Char) :
    lineStartsOf (cs ++ [c]) =
      if c = '\n' then lineStartsOf cs ++ [cs.length + 1] else lineStartsOf cs := by
  rw [lineStartsOf_append, breaks, breaks]
  split <;> simp

theorem le_of_mem_lineStartsOf {x : Nat} {cs : List Char} (h : x ∈ lineStartsOf cs) : x ≤ cs.length := by
  rcases List.mem_cons.1 h with rfl | h
  · exact Nat.zero_le _
  · have := mem_breaks h
    omega

theorem getLastD_lineStartsOf_le (cs : List Char) : (lineStartsOf cs).getLastD 0 ≤ cs.length := by
  have hmem : (lineStartsOf cs).getLastD 0 ∈ 0 :: lineStartsOf cs := List.getLastD_mem_cons
  rcases List.mem_cons.1 hmem with h | h
  · rw [h]
    exact Nat.zero_le _
  · exact le_of_mem_lineStartsOf h

/-- The position behind a text, by the starts of its lines: there are as many as the position has lines,
and the last of them is where its columns are counted from. -/
theorem start_after_eq (cs : List Char) :
    Position.start.after cs =
      ⟨cs.length, (lineStartsOf cs).length, cs.length - (lineStartsOf cs).getLastD 0 + 1⟩ := by
  induction cs using List.reverseRecOn with
  | nil => rfl
  | append_singleton cs c ih =>
    rw [Position.after_append, ih, lineStartsOf_concat]
    by_cases hc : c = '\n'
    · simp [Position.after, Position.step, hc]
    · simp [Position.after, Position.step, hc]
      omega

/-- Search by halving finds the number from which on a predicate holds. -/
theorem search_eq {p : Nat → Bool} {k low high : Nat} (hlow : low ≤ k) (hhigh : k ≤ high)
    (hfalse : ∀ i < k, p i = false) (htrue : ∀ i, k ≤ i → i < high → p i = true) :
    search p low high = k := by
  fun_induction search p low high with
  | case1 low high hlt hp ih =>
    -- The predicate holds in the middle, so it starts to hold there or before.
    have hmiddle : k ≤ (low + high) / 2 := by
      by_contra hk
      rw [hfalse _ (by omega)] at hp
      cases hp
    exact ih hlow hmiddle fun i hi hlt => htrue i hi (by omega)
  | case2 low high hlt hp ih =>
    have hmiddle : (low + high) / 2 < k := by
      by_contra hk
      exact hp (htrue _ (by omega) (by omega))
    exact ih hmiddle hhigh htrue
  | case3 low high hlt => omega

/-- The lines that start up to an offset come first in the table, and the others after them. -/
theorem lineStartsOf_eq_append {cs : List Char} {k : Nat} (hk : k ≤ cs.length) :
    lineStartsOf cs = lineStartsOf (cs.take k) ++ breaks k (cs.drop k) := by
  conv_lhs => rw [← List.take_append_drop k cs]
  rw [lineStartsOf_append, List.length_take_of_le hk]

/-- The search in the table of lines finds how many of them start up to an offset. -/
theorem search_lineStartsOf {cs : List Char} {k : Nat} (hk : k ≤ cs.length) :
    search (fun i => k < (lineStartsOf cs).getD i 0) 0 (lineStartsOf cs).length =
      (lineStartsOf (cs.take k)).length := by
  have htake : (cs.take k).length = k := List.length_take_of_le hk
  rw [lineStartsOf_eq_append hk]
  refine search_eq (Nat.zero_le _) (by simp) (fun i hi => ?_) fun i hi hlt => ?_
  · have hmem := le_of_mem_lineStartsOf (List.getElem_mem hi)
    rw [List.getD_append _ _ _ _ hi, List.getD_eq_getElem _ _ hi]
    simp only [decide_eq_false_iff_not]
    omega
  · rw [List.length_append] at hlt
    have hmem := mem_breaks (List.getElem_mem (show i - (lineStartsOf (cs.take k)).length <
      (breaks k (cs.drop k)).length by omega))
    rw [List.getD_append_right _ _ _ _ hi, List.getD_eq_getElem _ _ (by omega)]
    exact decide_eq_true hmem.1

/-- The last line that starts up to an offset, by its number in the table. -/
theorem getD_lineStartsOf {cs : List Char} {k : Nat} (hk : k ≤ cs.length) :
    (lineStartsOf cs).getD ((lineStartsOf (cs.take k)).length - 1) 0 =
      (lineStartsOf (cs.take k)).getLastD 0 := by
  have hpos : 0 < (lineStartsOf (cs.take k)).length := Nat.succ_pos _
  rw [lineStartsOf_eq_append hk, List.getD_append _ _ _ _ (by omega), List.getD_eq_getElem _ _ (by omega)]
  rw [List.getLastD_eq_getLast?, List.getLast?_eq_getElem?, List.getElem?_eq_getElem (by omega)]
  rfl

/-- The table of the lines of a text gives the positions of its offsets. -/
theorem positionOf_eq {s : Scanner} {seen : List Char} (h : s.lineStarts = lineStartsOf seen) {k : Nat}
    (hk : k ≤ seen.length) : s.positionOf k = Position.start.after (seen.take k) := by
  rw [start_after_eq, List.length_take_of_le hk, positionOf, h, search_lineStartsOf hk,
    getD_lineStartsOf hk]
  congr 1

/-! ## Where a scanner is -/

/-- A scanner has scanned `before`, is inside of a token of which it has passed `token`, and has `rest` in
front of it. Its buffer holds the token and a first part of the rest, with a mark behind the rest if the
end of the text has been seen. -/
structure At (before token rest : List Char) (s : Scanner) : Prop where
  current : s.current = rest.head?
  offset : s.offset = before.length + token.length
  index : s.index = token.length
  index_lt : s.index < s.buffer.length
  buffer : s.buffer <+: (token ++ rest).map some ++ [none]
  unread : s.unread = (token ++ rest).drop s.buffer.length
  lineStarts : s.lineStarts = lineStartsOf (before ++ token)

theorem getD_map_some_concat (cs : List Char) (i : Nat) : (cs.map some ++ [none]).getD i none = cs[i]? := by
  rcases Nat.lt_or_ge i cs.length with hi | hi
  · rw [List.getD_append _ _ _ _ (by simpa using hi), List.getD_eq_getElem?_getD, List.getElem?_map]
    cases cs[i]? <;> rfl
  · rw [List.getD_append_right _ _ _ _ (by simpa using hi), List.getElem?_eq_none hi]
    cases i - (cs.map some).length <;> rfl

namespace At

variable {before token rest : List Char} {c : Char} {s : Scanner}

theorem ofText (text : List Char) : At [] [] text (ofText text) where
  current := rfl
  offset := rfl
  index := rfl
  index_lt := Nat.zero_lt_one
  buffer := by cases text <;> simp [Scanner.ofText]
  unread := by simp [Scanner.ofText]
  lineStarts := rfl

/-- The buffer holds the characters of the text at their places. -/
theorem getD_buffer (h : At before token rest s) {i : Nat} (hi : i < s.buffer.length) :
    s.buffer.getD i none = (token ++ rest)[i]? := by
  obtain ⟨more, hmore⟩ := h.buffer
  rw [← getD_map_some_concat, ← hmore, List.getD_append _ _ _ _ hi]

/-- A scanner at the end of its buffer has read nothing behind the current character. -/
theorem read_eq (h : At before token (c :: rest) s) (hend : ¬s.index + 1 < s.buffer.length) :
    s.buffer = (token ++ [c]).map some ∧ s.unread = rest := by
  have hlength : s.buffer.length = token.length + 1 := by
    have := h.index
    have := h.index_lt
    omega
  constructor
  · have hpart : (token ++ [c]).map some <+: (token ++ c :: rest).map some ++ [none] :=
      ⟨rest.map some ++ [none], by simp⟩
    exact (List.prefix_of_prefix_length_le h.buffer hpart (by simp [hlength])).eq_of_length
      (by simp [hlength])
  · rw [h.unread, hlength, List.append_cons]
    exact List.drop_left' (by simp)

/-- Passing a character makes it one of the token. -/
theorem advance (h : At before token (c :: rest) s) : At before (token ++ [c]) rest s.advance := by
  have hcurrent : s.current = some c := h.current
  have hindex := h.index
  have htext : token ++ [c] ++ rest = token ++ c :: rest := by simp
  have hlines : (if c = '\n' then s.lineStarts ++ [s.offset + 1] else s.lineStarts) =
      lineStartsOf (before ++ (token ++ [c])) := by
    rw [← List.append_assoc, lineStartsOf_concat, h.lineStarts, h.offset, List.length_append]
  unfold Scanner.advance
  rw [hcurrent]
  dsimp only
  split
  · rename_i hlt
    refine ⟨?_, ?_, ?_, hlt, htext ▸ h.buffer, htext ▸ h.unread, hlines⟩
    · rw [h.getD_buffer hlt, hindex]
      cases rest <;> simp
    · simp [h.offset, Nat.add_assoc]
    · simp [hindex]
  · rename_i hend
    obtain ⟨hbuffer, hunread⟩ := h.read_eq hend
    rw [hunread, hbuffer]
    refine ⟨rfl, ?_, ?_, ?_, ?_, ?_, hlines⟩
    · simp [h.offset, Nat.add_assoc]
    · simp [hindex]
    · simp [hindex]
    · cases rest with
      | nil => simp
      | cons d rest => exact ⟨rest.map some ++ [none], by simp⟩
    · simp

/-- Going back takes the last character out of the token. -/
theorem retreat (h : At before (token ++ [c]) rest s) : At before token (c :: rest) s.retreat := by
  have hindex : s.index = token.length + 1 := by simpa using h.index
  have hoffset : s.offset = before.length + token.length + 1 := by
    simpa [Nat.add_assoc] using h.offset
  have htext : token ++ [c] ++ rest = token ++ c :: rest := by simp
  have hlines : (if 1 < s.lineStarts.length && s.offset - 1 < s.lineStarts.getLastD 0 then
      s.lineStarts.dropLast else s.lineStarts) = lineStartsOf (before ++ token) := by
    rw [h.lineStarts, ← List.append_assoc, lineStartsOf_concat, hoffset]
    by_cases hc : c = '\n'
    · -- The line that starts behind the line feed is struck out.
      have hlength : 0 < (lineStartsOf (before ++ token)).length := Nat.succ_pos _
      simp [hc, List.length_pos_iff.1 hlength]
    · -- No line starts behind what has been passed.
      have hlast := getLastD_lineStartsOf_le (before ++ token)
      rw [List.length_append] at hlast
      rw [if_neg hc, if_neg]
      simp only [Bool.and_eq_true, decide_eq_true_eq]
      omega
  unfold Scanner.retreat
  rw [if_pos (by omega)]
  refine ⟨?_, ?_, ?_, ?_, htext ▸ h.buffer, htext ▸ h.unread, hlines⟩
  · have hlt := h.index_lt
    rw [h.getD_buffer (by omega), hindex]
    simp
  · simp [hoffset]
  · simp [hindex]
  · exact Nat.lt_of_le_of_lt (Nat.sub_le _ _) h.index_lt

/-- Looking at the character after the current one leaves a scanner where it is. -/
theorem peek (h : At before token (c :: rest) s) :
    s.peek.1 = rest.head? ∧ At before token (c :: rest) s.peek.2 := by
  have hcurrent : s.current ≠ none := by simp [h.current]
  rw [Scanner.peek, if_neg hcurrent]
  exact ⟨h.advance.current, h.advance.retreat⟩

/-- Passing the characters of a class passes all that stand in front of the scanner. -/
theorem skipWhile (h : At before token rest s) (p : Char → Bool) :
    At before (token ++ rest.takeWhile p) (rest.dropWhile p) (s.skipWhile p) := by
  induction rest generalizing token s with
  | nil =>
    have hcurrent : s.current = none := h.current
    rw [Scanner.skipWhile]
    split
    · simpa using h
    · simp_all
  | cons c rest ih =>
    have hcurrent : s.current = some c := h.current
    rw [Scanner.skipWhile]
    split
    · simp_all
    · rename_i d hd
      obtain rfl : d = c := by simpa [hcurrent] using hd.symm
      by_cases hp : p d = true
      · simpa [hp] using ih h.advance
      · simpa [hp] using h

/-- Dropping the token puts it to what has been scanned. -/
theorem release (h : At before token rest s) : At (before ++ token) [] rest s.release := by
  have hindex := h.index
  have hlt := h.index_lt
  refine ⟨?_, ?_, rfl, ?_, ?_, ?_, ?_⟩
  · show s.buffer.getD s.index none = _
    rw [h.getD_buffer hlt, hindex]
    cases rest <;> simp
  · simp [Scanner.release, h.offset]
  · simp only [Scanner.release, List.length_drop]
    omega
  · obtain ⟨more, hmore⟩ := h.buffer
    refine ⟨more, ?_⟩
    have hdrop := congrArg (List.drop token.length) hmore
    rw [List.drop_append_of_le_length (by omega)] at hdrop
    simpa [Scanner.release, hindex] using hdrop
  · show s.unread = rest.drop (s.buffer.drop s.index).length
    rw [h.unread, List.drop_append, List.drop_eq_nil_of_le (by omega), List.nil_append,
      List.length_drop, hindex]
  · simpa [Scanner.release] using h.lineStarts

/-- The characters of the token under way. -/
theorem pending_eq (h : At before token rest s) : s.pending = String.ofList token := by
  have htake : s.buffer.take s.index = token.map some := by
    obtain ⟨more, hmore⟩ := h.buffer
    have hlt := h.index_lt
    have htake := congrArg (List.take s.index) hmore
    rw [List.take_append_of_le_length (by omega), h.index] at htake
    rw [h.index, htake]
    simp
  rw [pending, htake]
  simp

/-- The positions of the characters of the token under way, and of the one after it. -/
theorem positionOf_eq (h : At before token rest s) {m : Nat} (hm : m ≤ token.length) :
    s.positionOf (before.length + m) = (Position.start.after before).after (token.take m) := by
  rw [Scanner.positionOf_eq h.lineStarts (by rw [List.length_append]; omega), List.take_length_add_append,
    Position.after_append]

/-- Whether a scanner sees a character of a class is decided by the first character of the rest. -/
theorem sees_cons (h : At before token (c :: rest) s) (p : Char → Bool) : s.sees p = p c := by
  rw [sees, h.current, List.head?_cons, Option.any_some]

theorem atDelimiter_eq (h : At before token rest s) : s.atDelimiter = atBoundary rest := by
  rw [atDelimiter, h.current]
  cases rest <;> rfl

/-- The span from the start of the token under way to one of its characters, or to the one after it. -/
theorem spanOf_eq (h : At before token rest s) {m : Nat} (hm : m ≤ token.length) :
    s.spanOf before.length (before.length + m) =
      ⟨Position.start.after before, (Position.start.after before).after (token.take m)⟩ := by
  have hfirst := h.positionOf_eq (Nat.zero_le _)
  rw [List.take_zero, Position.after_nil, Nat.add_zero] at hfirst
  rw [spanOf, if_neg (by omega), hfirst, h.positionOf_eq hm]

theorem spanOf_start (h : At before token rest s) : s.spanOf before.length before.length =
    ⟨Position.start.after before, Position.start.after before⟩ :=
  h.spanOf_eq (Nat.zero_le _)

/-- The token under way, if it ends here, is that of the lexeme with its characters. -/
theorem tokenFrom_eq {l : Lexeme} (h : At before l.covers rest s) (hne : l.covers ≠ [])
    (hruns : l.runsOut = false) :
    s.tokenFrom l.kind before.length l.text = l.token (Position.start.after before) := by
  have hpos := List.length_pos_iff.2 hne
  have hoffset : s.offset - 1 = before.length + (l.covers.length - 1) := by
    have := h.offset
    omega
  rw [tokenFrom, hoffset, h.spanOf_eq (Nat.sub_le _ _), ← List.dropLast_eq_take, Lexeme.token,
    Lexeme.span, hruns]
  rfl

end At

/-! ## One token -/

/-- The scan of a token that starts behind `before` gives the token of a lexeme, and the scanner is then
behind the characters of the lexeme and in front of what is left. -/
structure Gives (before : List Char) (r : Lexeme × List Char) (out : Token × Scanner) : Prop where
  token : out.1 = r.1.token (Position.start.after before)
  place : At before r.1.covers r.2 out.2

section Gives

variable {before covers rest : List Char} {s : Scanner} {kind : Token.Kind}

theorem gives_sound (h : At before covers rest s) (hne : covers ≠ []) (hshows : showsText kind = true) :
    Gives before (sound kind covers, rest) (s.tokenFrom kind before.length s.pending, s) := by
  refine ⟨?_, h⟩
  have htext : (sound kind covers).text = s.pending := by
    rw [h.pending_eq]
    exact if_pos hshows
  rw [← htext]
  exact At.tokenFrom_eq (l := sound kind covers) h hne rfl

theorem gives_illegal {fault : LexicalFault} (h : At before covers rest s) (hne : covers ≠ []) :
    Gives before (⟨.illegal, covers, some fault, false⟩, rest)
      (s.tokenFrom .illegal before.length fault.message, s) :=
  ⟨At.tokenFrom_eq (l := ⟨.illegal, covers, some fault, false⟩) h hne rfl, h⟩

theorem gives_run {p : Char → Bool} (h : At before [] rest s) (hne : rest.takeWhile p ≠ [])
    (hshows : showsText kind = true) : Gives before (Lexeme.run kind p rest) (s.run kind p) := by
  have hoffset : s.offset = before.length := h.offset
  rw [Scanner.run, hoffset]
  exact gives_sound (h.skipWhile p) hne hshows

theorem gives_illegalAtom {fault : Option Char → LexicalFault} (h : At before covers rest s)
    (hne : covers ≠ []) :
    Gives before (malformed (fault rest.head?) covers rest)
      (s.illegalAtom before.length fault) := by
  rw [Scanner.illegalAtom, h.current]
  exact gives_illegal (h.skipWhile _) (by simp [hne])

theorem gives_atom {fault : Option Char → LexicalFault} (h : At before covers rest s)
    (hne : covers ≠ []) (hshows : showsText kind = true) :
    Gives before (Lexeme.atom kind fault covers rest) (s.atom kind before.length fault) := by
  rw [Scanner.atom, h.atDelimiter_eq, Lexeme.atom]
  split
  · exact gives_sound h hne hshows
  · exact gives_illegalAtom h hne

theorem gives_symbol [IdentifierClasses] {c : Char} (h : At before [] (c :: rest) s) :
    Gives before (Lexeme.symbol c rest) s.symbol := by
  have hoffset : s.offset = before.length := h.offset
  rw [Scanner.symbol, hoffset]
  exact gives_atom (h.advance.skipWhile continuesSymbol) (by simp) rfl

/-- A number, behind its sign or without one. -/
theorem gives_unsigned {sign : List Char} (h : At before sign rest s)
    (hne : sign ++ rest.takeWhile isDigit ≠ []) :
    Gives before (Lexeme.number sign rest) (s.unsigned before.length) := by
  have hwhole := h.skipWhile isDigit
  unfold Scanner.unsigned Lexeme.number
  dsimp only
  split
  · rename_i more hmore
    rw [hmore] at hwhole
    have hpart := hwhole.advance.skipWhile isDigit
    rw [List.append_assoc, List.singleton_append] at hpart
    -- The point is passed, and then as many digits as the scanner moves on.
    have hdigits : (((s.skipWhile isDigit).advance.skipWhile isDigit).offset =
        (s.skipWhile isDigit).advance.offset) ↔ (more.takeWhile isDigit).isEmpty = true := by
      rw [hpart.offset, hwhole.advance.offset, List.isEmpty_iff, ← List.length_eq_zero_iff]
      simp only [List.length_append, List.length_cons, List.length_nil]
      omega
    have hcurrent : (s.skipWhile isDigit).current = some '.' := hwhole.current
    rw [if_pos hcurrent]
    by_cases hempty : (more.takeWhile isDigit).isEmpty = true
    · rw [if_pos (hdigits.2 hempty), if_pos hempty]
      exact gives_illegalAtom hpart (by simp)
    · rw [if_neg (hdigits.not.2 hempty), if_neg hempty]
      exact gives_atom hpart (by simp) rfl
  · rename_i hpoint
    rw [if_neg]
    · exact gives_atom hwhole hne rfl
    · rw [hwhole.current]
      intro hhead
      obtain ⟨more, hmore⟩ := List.head?_eq_some_iff.1 hhead
      exact hpoint more hmore

theorem gives_hash [IdentifierClasses] (h : At before [] ('#' :: rest) s) :
    Gives before (Lexeme.hash rest) s.hash := by
  have hoffset : s.offset = before.length := h.offset
  have hword : At before ('#' :: rest.takeWhile continuesSymbol) (rest.dropWhile continuesSymbol)
      (s.advance.skipWhile continuesSymbol) := h.advance.skipWhile continuesSymbol
  have hall := hword.skipWhile (!isDelimiter ·)
  unfold Scanner.hash Lexeme.hash
  dsimp only
  rw [hoffset, hword.atDelimiter_eq, hword.pending_eq, hall.pending_eq]
  split
  · rw [← hword.pending_eq]
    exact gives_sound hword (by simp) rfl
  · exact gives_illegal hall (by simp)

/-- At the end of the text a string is not closed, whatever was wrong with it before. -/
theorem gives_stringRest_end (h : At before covers [] s) (message : String) :
    Gives before (⟨.illegal, covers, some .unterminatedString, true⟩, [])
      (s.stringRest before.length message) := by
  have hcurrent : s.current = none := h.current
  rw [stringRest]
  split
  · refine ⟨?_, h⟩
    rw [h.offset, h.spanOf_eq (Nat.le_refl _), List.take_length]
    rfl
  · simp_all

/-- The rest of a string behind `covers`, where `bad` tells whether an unknown escape has been passed. -/
def stringFrom (covers : List Char) (bad : Bool) (t : StringTail) : Lexeme × List Char :=
  if !t.closed then (⟨.illegal, covers ++ t.covers, some .unterminatedString, true⟩, t.rest)
  else if bad || !t.wellEscaped then (⟨.illegal, covers ++ t.covers, some .unknownEscape, false⟩, t.rest)
  else (sound .string (covers ++ t.covers), t.rest)

/-- The message of a string of which `bad` tells whether an unknown escape has been passed. -/
def escapeMessage (bad : Bool) : String := if bad then LexicalFault.unknownEscape.message else ""

/-- The first message is kept. -/
theorem escapeMessage_or (bad bad' : Bool) :
    (if escapeMessage bad = "" then escapeMessage bad' else escapeMessage bad) =
      escapeMessage (bad || bad') := by
  cases bad <;> rfl

theorem stringFrom_append (covers part : List Char) (bad known : Bool) (t : StringTail) :
    stringFrom covers bad ⟨part ++ t.covers, t.closed, known && t.wellEscaped, t.rest⟩ =
      stringFrom (covers ++ part) (bad || !known) t := by
  simp only [stringFrom, List.append_assoc, Bool.not_and, Bool.or_assoc]

theorem stringRest_of_current {c : Char} (h : s.current = some c) (start : Nat) (message : String) :
    s.stringRest start message =
      if c = '"' then
        (if message = "" then s.advance.tokenFrom .string start s.advance.pending
          else s.advance.tokenFrom .illegal start message, s.advance)
      else if c = '\\' then
        s.advance.escape.2.stringRest start (if message = "" then s.advance.escape.1 else message)
      else s.advance.stringRest start message := by
  rw [stringRest]
  split
  · simp_all
  · rename_i d hd
    obtain rfl : d = c := by simpa [h] using hd.symm
    rfl

theorem At.escape_eq {c : Char} (h : At before covers (c :: rest) s) :
    s.escape = (escapeMessage (!isEscapable c), s.advance) := by
  have hcurrent : s.current = some c := h.current
  unfold escape
  rw [hcurrent]
  dsimp only
  cases isEscapable c <;> rfl

theorem gives_stringRest (h : At before covers rest s) (hne : covers ≠ []) (bad : Bool) :
    Gives before (stringFrom covers bad (stringTail rest))
      (s.stringRest before.length (escapeMessage bad)) := by
  fun_induction stringTail rest generalizing covers s bad with
  | case1 => simpa [stringFrom] using gives_stringRest_end h (escapeMessage bad)
  | case2 c rest t =>
    rename_i ih
    -- A backslash takes the character behind it along, whatever that is.
    have hescape := h.advance.escape_eq
    have hrest := ih h.advance.advance (by simp) (bad || !isEscapable c)
    rw [stringRest_of_current h.current, if_neg (by decide), if_pos rfl, hescape, escapeMessage_or]
    rw [List.append_assoc, List.singleton_append, ← stringFrom_append] at hrest
    exact hrest
  | case3 rest =>
    have hclosed := h.advance
    rw [stringRest_of_current h.current, if_pos rfl]
    cases bad with
    | false => exact gives_sound hclosed (by simp) rfl
    | true => exact gives_illegal hclosed (by simp)
  | case4 c rest hescape hquote =>
    rename_i ih
    rw [stringRest_of_current h.current, if_neg hquote]
    by_cases hslash : c = '\\'
    · -- Behind the backslash the text ends.
      obtain rfl : rest = [] := by
        cases rest with
        | nil => rfl
        | cons d rest => exact (hescape d rest hslash rfl).elim
      have hcurrent : s.advance.current = none := h.advance.current
      rw [if_pos hslash, escape, hcurrent]
      exact gives_stringRest_end h.advance _
    · have hrest := ih h.advance (by simp) bad
      rw [if_neg hslash]
      rw [← Bool.or_false bad, ← Bool.not_true, ← stringFrom_append, Bool.not_true, Bool.or_false] at hrest
      exact hrest

/-- A string from its opening quote on. -/
theorem gives_string (h : At before [] ('"' :: rest) s) :
    Gives before (Lexeme.string rest) (s.advance.stringRest s.offset "") := by
  have hoffset : s.offset = before.length := h.offset
  rw [hoffset]
  exact gives_stringRest h.advance (by simp) false

/-- The end of the input. -/
theorem gives_end (h : At before [] [] s) : Gives before (sound .endOfInput [], []) s.single := by
  have hcurrent : s.current = none := h.current
  have hadvance : s.advance = s := by
    unfold advance
    rw [hcurrent]
  unfold single
  dsimp only
  rw [hcurrent, hadvance, show s.offset = before.length from h.offset, h.spanOf_start]
  exact ⟨rfl, h⟩

/-- A token of one character. -/
theorem gives_single {c : Char} (h : At before [] (c :: rest) s) :
    (∀ kind, punctuation? c = some kind → Gives before (sound kind [c], rest) s.single) ∧
      (punctuation? c = none →
        Gives before (⟨.illegal, [c], some (.unexpected c), false⟩, rest) s.single) := by
  have hcurrent : s.current = some c := h.current
  have hoffset : s.offset = before.length := h.offset
  unfold single
  dsimp only
  rw [hcurrent, hoffset, h.advance.spanOf_start]
  dsimp only
  refine ⟨fun kind hkind => ?_, fun hnone => ?_⟩
  · rw [hkind]
    refine ⟨?_, h.advance⟩
    unfold punctuation? at hkind
    split at hkind <;> cases hkind <;> rfl
  · rw [hnone]
    exact ⟨rfl, h.advance⟩

/-- A number, from its sign or its first digit on. -/
theorem gives_number {c : Char} (h : At before [] (c :: rest) s) :
    (isDigit c = true → Gives before (Lexeme.number [] (c :: rest)) s.number) ∧
      (c = '+' ∨ c = '-' → Gives before (Lexeme.number [c] rest) s.number) := by
  have hoffset : s.offset = before.length := h.offset
  rw [Scanner.number, hoffset, h.sees_cons]
  refine ⟨fun hdigit => ?_, fun hsign => ?_⟩
  · have hsign : (c = '+' || c = '-') = false := by
      rw [← Bool.not_eq_true]
      intro hsign
      simp only [Bool.or_eq_true, decide_eq_true_eq] at hsign
      rcases hsign with rfl | rfl <;> simp [isDigit] at hdigit
    rw [hsign]
    exact gives_unsigned h (by simp [hdigit])
  · rw [if_pos (by simpa using hsign)]
    exact gives_unsigned h.advance (by simp)

/-- Whether a number starts here, and the scanner is where it was. -/
theorem At.startsNumber {c : Char} (h : At before [] (c :: rest) s) :
    s.startsNumber.1 = (isDigit c || ((c = '+' || c = '-') && startsWithDigit rest)) ∧
      At before [] (c :: rest) s.startsNumber.2 := by
  have hpeek := h.peek
  have hhead : rest.head?.any isDigit = startsWithDigit rest := by cases rest <;> rfl
  rw [Scanner.startsNumber, h.sees_cons, h.sees_cons]
  split
  · rename_i hdigit
    exact ⟨by simp [hdigit], h⟩
  · rename_i hdigit
    split
    · rename_i hsign
      exact ⟨by simp [hdigit, hsign, hpeek.1, hhead], hpeek.2⟩
    · rename_i hsign
      exact ⟨by simp [hdigit, hsign], h⟩

/-- At the end of the text a scanner sees no character of any class. -/
theorem scanToken_end [IdentifierClasses] (h : At before [] [] s) : s.scanToken = s.single := by
  have hcurrent : s.current = none := h.current
  have hsees (p : Char → Bool) : s.sees p = false := by rw [sees, hcurrent, Option.any_none]
  have hnumber : s.startsNumber = (false, s) := by
    rw [Scanner.startsNumber, hsees, hsees]
    rfl
  rw [scanToken, hsees, hsees, hsees, hsees, hnumber, hsees]
  rfl

/-- The scan of a token gives the first lexeme of the text in front of the scanner. -/
theorem gives_scanToken [IdentifierClasses] (h : At before [] rest s) :
    Gives before (Lexeme.next rest) s.scanToken := by
  cases rest with
  | nil =>
    rw [scanToken_end h]
    exact gives_end h
  | cons c rest =>
    obtain ⟨hnumber, hplace⟩ := h.startsNumber
    unfold scanToken Lexeme.next
    rw [h.sees_cons, h.sees_cons, h.sees_cons, h.sees_cons, hplace.sees_cons]
    simp only [decide_eq_true_eq]
    split
    · rename_i hblank
      exact gives_run h (by simp [hblank]) rfl
    split
    · rename_i hcomment
      exact gives_run h (by simp [hcomment]) rfl
    split
    · rename_i hquote
      exact gives_string (hquote ▸ h)
    split
    · rename_i hhash
      exact gives_hash (hhash ▸ h)
    -- Two branches of the lexeme are one of the scanner, which looks at the sign again.
    by_cases hdigit : isDigit c = true
    · rw [if_pos hdigit, if_pos (hnumber.trans (by simp [hdigit]))]
      exact (gives_number hplace).1 hdigit
    by_cases hsigned : ((c = '+' || c = '-') && startsWithDigit rest) = true
    · rw [if_neg hdigit, if_pos hsigned, if_pos (hnumber.trans (by simp [hsigned]))]
      simp only [Bool.and_eq_true, Bool.or_eq_true, decide_eq_true_eq] at hsigned
      exact (gives_number hplace).2 hsigned.1
    have hnone : ¬ s.startsNumber.1 = true := by
      rw [hnumber, Bool.or_eq_true]
      exact not_or.2 ⟨hdigit, hsigned⟩
    rw [if_neg hdigit, if_neg hsigned, if_neg hnone]
    split
    · exact gives_symbol hplace
    · split
      · exact (gives_single hplace).1 _ ‹_›
      · exact (gives_single hplace).2 ‹_›

end Gives

/-! ## All tokens -/

/-- One call keeps a scanner and a cursor at one place, and both give the same token. -/
theorem nextToken_eq [IdentifierClasses] {before rest : List Char} {s : Scanner}
    (h : At before [] rest s) :
    s.nextToken.1 = (Cursor.next ⟨Position.start.after before, rest⟩).1 ∧
      ∃ before' rest', At before' [] rest' s.nextToken.2 ∧
        (Cursor.next ⟨Position.start.after before, rest⟩).2 = ⟨Position.start.after before', rest'⟩ := by
  obtain ⟨htoken, hplace⟩ := gives_scanToken h
  refine ⟨htoken, before ++ (Lexeme.next rest).1.covers, (Lexeme.next rest).2, hplace.release, ?_⟩
  rw [Position.after_append]
  rfl

/-- After any number of calls a scanner and a cursor are at one place of their text. -/
theorem exists_at_after [IdentifierClasses] (text : List Char) (i : Nat) :
    ∃ before rest, At before [] rest ((ofText text).after i) ∧
      (Cursor.mk .start text).after i = ⟨Position.start.after before, rest⟩ := by
  induction i with
  | zero => exact ⟨[], text, .ofText text, rfl⟩
  | succ i ih =>
    obtain ⟨before, rest, hplace, hcursor⟩ := ih
    obtain ⟨-, before', rest', hplace', hcursor'⟩ := nextToken_eq hplace
    exact ⟨before', rest', hplace', by rw [Cursor.after, hcursor, hcursor']⟩

/-- A scanner gives the tokens of a cursor, call after call. -/
theorem call_eq [IdentifierClasses] (source : String) (i : Nat) :
    (ofText source.toList).call i = (Cursor.ofSource source).call i := by
  obtain ⟨before, rest, hplace, hcursor⟩ := exists_at_after source.toList i
  rw [call, (nextToken_eq hplace).1, Cursor.call, Cursor.ofSource, hcursor]

end Scanner

end TypedScheme
