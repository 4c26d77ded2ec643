import Mathlib.Data.List.Induction
import Mathlib.Data.Nat.Find
import TypedScheme.Proofs.Token.Buffered

/-!
# The tokens of a text tile it

A cursor that is asked for token after token goes through the text without gaps and without a step
back, and then stays at its end. Where it stands after any number of calls is an offset of the text,
and everything else about it follows from that offset: the text that remains and the position, whose
line and column are counted here from the text alone and not from the position before.

## What this module delivers

- `Position.ofOffset`, the position of a character by its offset, with `Position.start_after`: counting
  along the text gives the same, and `Position.line_after` and `Position.column_after`: lines and
  columns along a text.
- `Lexeme.Coherent`: which lexemes are illegal and which run to the end of the input.
- `Token.Occupies text a b t`: the token `t` stands for the characters from `a` up to `b`.
- `Cursor.occupies_next`, what one call does, and `Cursor.after_eq` with `Cursor.occupies_call`, what
  all calls do.
- `Token.scan_tiles`: the tokens of a text occupy it from its start to its end, and a scanner with a buffer
  gives the same ones.
-/

set_option autoImplicit false

namespace TypedScheme

open Text

/-! ## Positions by offset -/

namespace Position

/-- The position of the character at an offset: one more than the line feeds before it, and one more
than the characters after the last of them. -/
def ofOffset (text : List Char) (k : Nat) : Position :=
  ⟨k, 1 + (text.take k).count '\n', 1 + ((text.take k).reverse.takeWhile (· ≠ '\n')).length⟩

/-- Counting along a text gives the position of the character after it. -/
theorem start_after (cs : List Char) : start.after cs = ofOffset cs cs.length := by
  induction cs using List.reverseRecOn with
  | nil => rfl
  | append_singleton cs c ih =>
    rw [after_append, ih, ofOffset, ofOffset, List.take_length, List.take_length]
    by_cases hc : c = '\n'
    · simp [after, step, hc]
      omega
    · simp [after, step, hc]
      omega

/-- The position of an offset is what is counted along the text before it. -/
theorem ofOffset_eq {text : List Char} {k : Nat} (hk : k ≤ text.length) :
    ofOffset text k = start.after (text.take k) := by
  rw [start_after, List.length_take, Nat.min_eq_left hk, ofOffset, ofOffset, List.take_take,
    Nat.min_self]

/-- The characters from one offset to another lead from the position of the one to that of the other. -/
theorem ofOffset_after {text : List Char} {a m : Nat} (h : a + m ≤ text.length) :
    (ofOffset text a).after ((text.drop a).take m) = ofOffset text (a + m) := by
  rw [ofOffset_eq (by omega), ofOffset_eq h, ← after_append, List.take_add]

theorem offset_after (p : Position) (cs : List Char) :
    (p.after cs).offset = p.offset + cs.length := by
  induction cs generalizing p with
  | nil => simp
  | cons c cs ih =>
    have hstep : (p.step c).offset = p.offset + 1 := by
      unfold step
      split <;> rfl
    change ((p.step c).after cs).offset = _
    rw [ih, hstep, List.length_cons]
    omega

/-- Along a text, lines go up by one with every line feed. -/
theorem line_after (p : Position) (cs : List Char) :
    (p.after cs).line = p.line + cs.count '\n' := by
  induction cs generalizing p with
  | nil => simp
  | cons c cs ih =>
    change ((p.step c).after cs).line = _
    rw [ih, step]
    split
    · next hc =>
      simp [hc]
      omega
    · next hc => simp [hc]

/-- Along a text without line feeds, columns go up by one with every character. -/
theorem column_after (p : Position) {cs : List Char} (h : '\n' ∉ cs) :
    (p.after cs).column = p.column + cs.length := by
  induction cs generalizing p with
  | nil => simp
  | cons c cs ih =>
    obtain ⟨hc, hcs⟩ := List.ne_and_not_mem_of_not_mem_cons h
    change ((p.step c).after cs).column = _
    rw [ih _ hcs, step, if_neg fun heq => hc heq.symm]
    simp
    omega

/-- Behind a line feed the column does not depend on where the text starts. -/
theorem column_after_of_mem (p q : Position) {cs : List Char} (h : '\n' ∈ cs) :
    (p.after cs).column = (q.after cs).column := by
  induction cs generalizing p q with
  | nil => cases h
  | cons c cs ih =>
    change ((p.step c).after cs).column = ((q.step c).after cs).column
    by_cases hcs : '\n' ∈ cs
    · exact ih _ _ hcs
    · obtain rfl : '\n' = c := (List.mem_cons.1 h).resolve_right hcs
      rw [column_after _ hcs, column_after _ hcs]
      rfl

/-- Two positions of a text on one line are as many columns apart as characters. -/
theorem column_ofOffset_sub {text : List Char} {a b : Nat} (hab : a ≤ b) (hb : b ≤ text.length)
    (hline : (ofOffset text b).line = (ofOffset text a).line) :
    (ofOffset text b).column = (ofOffset text a).column + (b - a : Nat) := by
  have hafter := @ofOffset_after text a (b - a) (by omega)
  rw [Nat.add_sub_cancel' hab] at hafter
  rw [← hafter, line_after] at hline
  have hcount : ((text.drop a).take (b - a)).count '\n' = 0 := by omega
  rw [← hafter, column_after _ (List.count_eq_zero.1 hcount), List.length_take, List.length_drop,
    Nat.min_eq_left (by omega)]

end Position

/-! ## Illegal lexemes -/

/-- Only one fault has the message of a string that is not closed. -/
theorem LexicalFault.message_eq_iff {f : LexicalFault} :
    f.message = unterminatedString.message ↔ f = .unterminatedString := by
  refine ⟨fun h => ?_, fun h => by rw [h]⟩
  -- Three characters tell the messages apart.
  have hhead := congrArg (fun s => s.toList.take 3) h
  unfold message at hhead
  cases f with
  | unterminatedString => rfl
  | inSymbol | inNumber | noFraction | unknownLiteral | unknownEscape | unexpected =>
    simp [toString] at hhead

namespace Lexeme

/-- The fault of a lexeme tells whether it is illegal and whether it runs to the end of the input, and
nothing is left of the text then. -/
structure Coherent (r : Lexeme × List Char) : Prop where
  illegal : r.1.kind = .illegal ↔ r.1.fault.isSome
  runsOut : r.1.runsOut = true ↔ r.1.fault = some .unterminatedString
  rest : r.1.runsOut = true → r.2 = []

theorem coherent_sound {kind : Token.Kind} (h : kind ≠ .illegal) (covers rest : List Char) :
    Coherent (sound kind covers, rest) :=
  ⟨by simp [sound, h], by simp [sound], by simp [sound]⟩

theorem coherent_illegal {fault : LexicalFault} (h : fault ≠ .unterminatedString)
    (covers rest : List Char) : Coherent (⟨.illegal, covers, some fault, false⟩, rest) :=
  ⟨by simp, by simp [h], by simp⟩

/-- An atom is of its kind, or its fault makes it illegal; it never runs out of text. -/
theorem coherent_atom {kind : Token.Kind} (hkind : kind ≠ .illegal)
    {fault : Option Char → LexicalFault} (hfault : ∀ c, fault c ≠ .unterminatedString)
    (covers rest : List Char) : Coherent (atom kind fault covers rest) := by
  unfold atom
  split
  · exact coherent_sound hkind covers rest
  · exact coherent_illegal (hfault _) _ _

theorem coherent_number (sign rest : List Char) : Coherent (number sign rest) := by
  unfold number
  dsimp only
  split
  · split
    · exact coherent_illegal (by simp) _ _
    · exact coherent_atom (by simp) (by simp) _ _
  · exact coherent_atom (by simp) (by simp) _ _

theorem coherent_hash [IdentifierClasses] (rest : List Char) : Coherent (hash rest) := by
  unfold hash
  dsimp only
  split
  · exact coherent_sound (by simp) _ _
  · exact coherent_illegal (by simp) _ _

/-- A string that is not closed takes all the text. -/
theorem stringTail_rest {cs : List Char} (h : (stringTail cs).closed = false) :
    (stringTail cs).rest = [] := by
  fun_induction stringTail cs with
  | case1 => rfl
  | case2 c rest t ih => exact ih h
  | case3 rest => cases h
  | case4 c rest _ _ t ih => exact ih h

/-- Only a string runs out of text, and exactly if it is not closed. -/
theorem coherent_string (rest : List Char) : Coherent (string rest) := by
  unfold string
  dsimp only
  split
  · rename_i hclosed
    exact ⟨by simp, by simp, fun _ => stringTail_rest (by simpa using hclosed)⟩
  · split
    · exact coherent_illegal (by simp) _ _
    · exact coherent_sound (by simp) _ _

/-- Every lexeme is coherent. -/
theorem coherent_next [IdentifierClasses] (cs : List Char) : Coherent (next cs) := by
  cases cs with
  | nil => exact coherent_sound (by simp) _ _
  | cons c rest =>
    have h := next_branch c rest
    generalize next (c :: rest) = r at h ⊢
    cases h with
    | blank => exact coherent_sound (by simp) _ _
    | comment => exact coherent_sound (by simp) _ _
    | string => exact coherent_string rest
    | hash => exact coherent_hash rest
    | digits => exact coherent_number _ _
    | signed => exact coherent_number _ _
    | symbol => exact coherent_atom (by simp) (by simp) _ _
    | @punctuation kind h =>
      refine coherent_sound ?_ _ _
      unfold punctuation? at h
      split at h <;> cases h <;> simp
    | unexpected => exact coherent_illegal (by simp) _ _

/-- An illegal lexeme carries the message of its fault. -/
theorem Coherent.text_eq_message {r : Lexeme × List Char} (h : Coherent r)
    (hkind : r.1.kind = .illegal) : ∃ f, r.1.fault = some f ∧ r.1.text = f.message := by
  obtain ⟨f, hf⟩ := Option.isSome_iff_exists.1 (h.illegal.1 hkind)
  exact ⟨f, hf, by rw [text, hf]⟩

end Lexeme

/-! ## What a token occupies -/

namespace Token

/-- A string that is not closed before the end of the input. -/
def IsUnterminatedString (t : Token) : Prop :=
  t.kind = .illegal ∧ t.text = LexicalFault.unterminatedString.message

instance : DecidablePred IsUnterminatedString := fun t =>
  inferInstanceAs (Decidable (t.kind = .illegal ∧ t.text = LexicalFault.unterminatedString.message))

/-- The kinds of token whose text is what they stand for. -/
def textKinds : List Kind := [.whitespace, .comment, .number, .boolean, .string, .symbol]

/-- A token stands for the characters of a text from the offset `a` up to the offset `b`, of which there
is at least one. It spans from the first of them to the last, but a string that is not closed stands for
all the rest of the text and spans to the end of the input. -/
structure Occupies (text : List Char) (a b : Nat) (t : Token) : Prop where
  kind : t.kind ≠ .endOfInput
  lt : a < b
  le : b ≤ text.length
  first : t.span.first = .ofOffset text a
  last : t.span.last = .ofOffset text (if t.IsUnterminatedString then text.length else b - 1)
  runsOut : t.IsUnterminatedString → b = text.length
  data : t.kind ∈ textKinds → t.text = String.ofList ((text.drop a).take (b - a))

end Token

/-- The token of a lexeme shows whether the lexeme ran out of text. -/
theorem Lexeme.Coherent.isUnterminatedString_iff {r : Lexeme × List Char} (h : Coherent r)
    (p : Position) : (r.1.token p).IsUnterminatedString ↔ r.1.runsOut = true := by
  rw [h.runsOut]
  constructor
  · rintro ⟨hkind, htext⟩
    obtain ⟨f, hf, hmessage⟩ := h.text_eq_message hkind
    rw [hf, LexicalFault.message_eq_iff.1 (hmessage.symm.trans htext)]
  · intro hf
    exact ⟨h.illegal.2 (by simp [hf]), by simp [token, text, hf]⟩

/-! ## Calls -/

namespace Cursor

variable [IdentifierClasses]

/-- The cursor at an offset of a text. -/
def atOffset (text : List Char) (k : Nat) : Cursor := ⟨.ofOffset text k, text.drop k⟩

/-- The lexeme at an offset of a text. -/
def lexemeAt (text : List Char) (a : Nat) : Lexeme := (Lexeme.next (text.drop a)).1

/-- The number of characters of a text that the token at an offset stands for. -/
def width (text : List Char) (a : Nat) : Nat := (lexemeAt text a).covers.length

variable {text : List Char} {a : Nat}

theorem take_width (text : List Char) (a : Nat) :
    (text.drop a).take (width text a) = (lexemeAt text a).covers := by
  conv_lhs => rw [← Lexeme.covers_append_rest (text.drop a)]
  exact List.take_left

/-- A token ends in its text. -/
theorem add_width_le (ha : a ≤ text.length) : a + width text a ≤ text.length := by
  have hlength := congrArg List.length (Lexeme.covers_append_rest (text.drop a))
  rw [List.length_append, List.length_drop] at hlength
  rw [width, lexemeAt]
  omega

/-- A token before the end of the text has a character. -/
theorem width_pos (ha : a < text.length) : 0 < width text a :=
  List.length_pos_iff.2 (Lexeme.covers_ne_nil (by simpa using ha))

/-- The cursor after a token is as far on as the token is wide. -/
theorem next_atOffset (ha : a ≤ text.length) :
    (atOffset text a).next.2 = atOffset text (a + width text a) := by
  have hrest : (Lexeme.next (text.drop a)).2 = text.drop (a + width text a) := by
    rw [← List.drop_drop]
    conv_rhs => rw [← Lexeme.covers_append_rest (text.drop a)]
    exact List.drop_left.symm
  rw [atOffset, atOffset, ← Position.ofOffset_after (add_width_le ha), take_width, ← hrest]
  rfl

/-- A lexeme that runs out of text covers all that is left of it. -/
theorem add_width_eq_of_runsOut (ha : a ≤ text.length) (h : (lexemeAt text a).runsOut = true) :
    a + width text a = text.length := by
  have hcovers := Lexeme.covers_append_rest (text.drop a)
  rw [(Lexeme.coherent_next (text.drop a)).rest h, List.append_nil] at hcovers
  rw [width, lexemeAt, hcovers, List.length_drop]
  omega

/-- A lexeme ends at its last character, and at the end of the input if it runs out of text. -/
theorem span_last_lexemeAt (ha : a < text.length) :
    ((lexemeAt text a).span (.ofOffset text a)).last =
      .ofOffset text (if (lexemeAt text a).runsOut = true then text.length
        else a + width text a - 1) := by
  have hwidth := width_pos ha
  have hle := add_width_le (Nat.le_of_lt ha)
  change (Position.ofOffset text a).after (if (lexemeAt text a).runsOut = true then
    (lexemeAt text a).covers else (lexemeAt text a).covers.dropLast) = _
  split
  · rename_i hruns
    rw [← take_width, Position.ofOffset_after hle, add_width_eq_of_runsOut (Nat.le_of_lt ha) hruns]
  · -- The last character of the lexeme is the one before the last of those it covers.
    rw [List.dropLast_eq_take, ← take_width, List.take_take, List.length_take, List.length_drop,
      Nat.min_eq_left (by omega), Nat.min_eq_left (by omega), Position.ofOffset_after (by omega)]
    congr 1
    omega

/-- A lexeme of a kind that shows its text has the characters it covers as its text. -/
theorem text_lexemeAt (ha : a < text.length) (hkind : (lexemeAt text a).kind ∈ Token.textKinds) :
    (lexemeAt text a).text = String.ofList (lexemeAt text a).covers := by
  have hne : text.drop a ≠ [] := by simpa using ha
  have hshows : (lexemeAt text a).kind ≠ .illegal ∧
      Lexeme.showsText (lexemeAt text a).kind = true := by
    generalize (lexemeAt text a).kind = kind at hkind
    revert kind
    decide
  have hsound : lexemeAt text a = Lexeme.sound _ _ := Lexeme.eq_sound_of_kind_ne hne hshows.1
  rw [hsound]
  exact if_pos hshows.2

/-- A token before the end of a text occupies as many characters as it is wide. -/
theorem occupies_next (ha : a < text.length) :
    ((atOffset text a).next.1).Occupies text a (a + width text a) := by
  have hne : text.drop a ≠ [] := by simpa using ha
  have hwidth := width_pos ha
  -- Only a string that is not closed runs out of text.
  have hiff : (atOffset text a).next.1.IsUnterminatedString ↔ (lexemeAt text a).runsOut = true :=
    (Lexeme.coherent_next (text.drop a)).isUnterminatedString_iff _
  refine ⟨?kind, by omega, add_width_le (Nat.le_of_lt ha), rfl, ?last, ?runsOut, ?data⟩
  case kind => exact Lexeme.kind_ne_endOfInput hne
  case last =>
    simp only [hiff]
    exact span_last_lexemeAt ha
  case runsOut => exact fun h => add_width_eq_of_runsOut (Nat.le_of_lt ha) (hiff.1 h)
  case data =>
    intro hkind
    rw [Nat.add_sub_cancel_left, take_width]
    exact text_lexemeAt ha hkind

/-- At the end of a text a cursor gives the end of the input and stays. -/
theorem next_atEnd (text : List Char) :
    (atOffset text text.length).next =
      (.bare .endOfInput ⟨.ofOffset text text.length, .ofOffset text text.length⟩,
        atOffset text text.length) := by
  rw [atOffset, List.drop_length]
  rfl

/-- The offset where the token of a call starts. -/
def offset (text : List Char) : Nat → Nat
  | 0 => 0
  | i + 1 => offset text i + width text (offset text i)

/-- After any number of calls a cursor is at an offset of the text. -/
theorem after_eq (text : List Char) (i : Nat) :
    offset text i ≤ text.length ∧ (atOffset text 0).after i = atOffset text (offset text i) := by
  induction i with
  | zero => exact ⟨Nat.zero_le _, rfl⟩
  | succ i ih =>
    obtain ⟨hle, heq⟩ := ih
    exact ⟨add_width_le hle, by rw [after, heq, next_atOffset hle]; rfl⟩

/-- A cursor that has not reached the end has passed a character with every call. -/
theorem le_offset {i : Nat} (h : ∀ j < i, offset text j ≠ text.length) : i ≤ offset text i := by
  induction i with
  | zero => exact Nat.zero_le _
  | succ i ih =>
    have hi := ih fun j hj => h j (by omega)
    have hlt := Nat.lt_of_le_of_ne (after_eq text i).1 (h i (by omega))
    have := width_pos hlt
    rw [offset]
    omega

/-- Some call reaches the end of the text. -/
theorem exists_offset_eq (text : List Char) : ∃ i, offset text i = text.length := by
  by_contra hnone
  have hlow : text.length + 1 ≤ offset text (text.length + 1) :=
    le_offset fun j _ hj => hnone ⟨j, hj⟩
  have hhigh := (after_eq text (text.length + 1)).1
  omega

/-- The number of calls after which a cursor is at the end of a text. -/
def count (text : List Char) : Nat := Nat.find (exists_offset_eq text)

theorem offset_count (text : List Char) : offset text (count text) = text.length :=
  Nat.find_spec (exists_offset_eq text)

theorem offset_lt {i : Nat} (h : i < count text) : offset text i < text.length :=
  Nat.lt_of_le_of_ne (after_eq text i).1 (Nat.find_min (exists_offset_eq text) h)

theorem count_le (text : List Char) : count text ≤ text.length := by
  have h : count text ≤ offset text (count text) := le_offset fun j hj => Nat.ne_of_lt (offset_lt hj)
  rwa [offset_count] at h

/-- A cursor that has reached the end is there after every further call. -/
theorem offset_of_count_le {i : Nat} (h : count text ≤ i) : offset text i = text.length := by
  induction i, h using Nat.le_induction with
  | base => exact offset_count text
  | succ i _ ih =>
    have hle : text.length + width text text.length ≤ text.length := add_width_le (Nat.le_refl _)
    rw [offset, ih]
    omega

/-- From the last call on there is nothing but the end of the input. -/
theorem call_of_count_le {i : Nat} (h : count text ≤ i) :
    (atOffset text 0).call i =
      .bare .endOfInput ⟨.ofOffset text text.length, .ofOffset text text.length⟩ := by
  rw [call, (after_eq text i).2, offset_of_count_le h, next_atEnd]

/-- Every call before the last gives a token that occupies the text up to where the next one starts. -/
theorem occupies_call {i : Nat} (h : i < count text) :
    ((atOffset text 0).call i).Occupies text (offset text i) (offset text (i + 1)) := by
  rw [call, (after_eq text i).2]
  exact occupies_next (offset_lt h)

/-! ## All tokens -/

theorem after_succ (c : Cursor) (i : Nat) : c.after (i + 1) = c.next.2.after i := by
  induction i with
  | zero => rfl
  | succ i ih => rw [after, ih]; rfl

theorem tokensWithin_succ (fuel : Nat) (c : Cursor) :
    (tokensWithin (fuel + 1) c).1 =
      if c.next.1.kind = .endOfInput then [c.next.1]
      else c.next.1 :: (tokensWithin fuel c.next.2).1 := by
  rw [tokensWithin]
  dsimp only
  split <;> rfl

/-- The tokens up to the end of the input are those of the calls up to the first that gives it. -/
theorem tokensWithin_eq_map_call {n fuel : Nat} (hn : n ≤ fuel) {c : Cursor}
    (hend : (c.call n).kind = .endOfInput) (hbefore : ∀ i < n, (c.call i).kind ≠ .endOfInput) :
    (tokensWithin fuel c).1 = (List.range (n + 1)).map c.call := by
  induction fuel generalizing n c with
  | zero =>
    obtain rfl : n = 0 := by omega
    rfl
  | succ fuel ih =>
    cases n with
    | zero =>
      rw [tokensWithin_succ]
      exact if_pos hend
    | succ n =>
      have hcall (i : Nat) : c.next.2.call i = c.call (i + 1) := by rw [call, call, after_succ]
      have hfirst : c.next.1.kind ≠ .endOfInput := hbefore 0 (by omega)
      have hrest := ih (c := c.next.2) (Nat.le_of_succ_le_succ hn) (by rw [hcall]; exact hend)
        fun i hi => by rw [hcall]; exact hbefore (i + 1) (by omega)
      rw [tokensWithin_succ, if_neg hfirst, hrest, List.range_succ_eq_map (n := n + 1), List.map_cons,
        List.map_map]
      exact congrArg (c.next.1 :: ·) (List.map_congr_left fun i _ => hcall i)

end Cursor

namespace Token

/-- The tokens of a significant token and the layout in front of it. -/
def Spaced.tokens (s : Spaced) : List Token := s.layout ++ [s.token]

/-- Tokens that end in a significant one are grouped without loss. -/
theorem Spaced.flatMap_groupFrom {last : Token} (hlast : last.kind.isLayout = false)
    (layout ts : List Token) :
    (groupFrom layout (ts ++ [last])).flatMap Spaced.tokens = layout ++ (ts ++ [last]) := by
  induction ts generalizing layout with
  | nil => simp [groupFrom, hlast, Spaced.tokens]
  | cons t ts ih =>
    rw [List.cons_append, groupFrom]
    split
    · rw [ih, List.append_assoc, List.singleton_append]
    · rw [List.flatMap_cons, ih, Spaced.tokens]
      simp

/-- A group is a significant token behind layout. -/
theorem Spaced.isLayout_of_mem_groupFrom {layout ts : List Token}
    (hlayout : ∀ t ∈ layout, t.kind.isLayout = true) {s : Spaced} (hs : s ∈ groupFrom layout ts) :
    (∀ t ∈ s.layout, t.kind.isLayout = true) ∧ s.token.kind.isLayout = false := by
  induction ts generalizing layout with
  | nil => cases hs
  | cons t ts ih =>
    rw [groupFrom] at hs
    split at hs
    · rename_i ht
      exact ih (List.forall_mem_append.2 ⟨hlayout, by simpa using ht⟩) hs
    · rename_i ht
      rcases List.mem_cons.1 hs with rfl | hs
      · exact ⟨hlayout, by simpa using ht⟩
      · exact ih (by simp) hs

/-- The tokens of a text tile it. Calls give tokens that occupy the text one after the other, from its
start to its end, and then the end of the input at the end of the text, again and again. The tokens of
the text are those of the calls up to the first end of the input. Grouping the tokens of any number of
calls that reach the end puts layout in front of the significant token after it and loses none. A scanner
that reads the text one character at a time and searches its positions in a table of lines gives the same
token at every call. -/
theorem scan_tiles [IdentifierClasses] (source : String) :
    let text := source.toList
    let call := (Cursor.ofSource source).call
    ∃ (count : Nat) (offset : Nat → Nat),
      offset 0 = 0 ∧ offset count = text.length ∧
      (∀ i < count, (call i).Occupies text (offset i) (offset (i + 1))) ∧
      (∀ i, count ≤ i → call i =
        bare .endOfInput ⟨.ofOffset text text.length, .ofOffset text text.length⟩) ∧
      scan source = (List.range (count + 1)).map call ∧
      (∀ m, count < m →
        (Spaced.group ((List.range m).map call)).flatMap Spaced.tokens = (List.range m).map call ∧
        ∀ s ∈ Spaced.group ((List.range m).map call),
          (∀ t ∈ s.layout, t.kind.isLayout = true) ∧ s.token.kind.isLayout = false) ∧
      ∀ i, (Scanner.ofText text).call i = call i := by
  intro text call
  have hend {i : Nat} (hi : Cursor.count text ≤ i) : call i =
      bare .endOfInput ⟨.ofOffset text text.length, .ofOffset text text.length⟩ :=
    Cursor.call_of_count_le hi
  have hoccupies {i : Nat} (hi : i < Cursor.count text) : (call i).Occupies text _ _ :=
    Cursor.occupies_call hi
  refine ⟨Cursor.count text, Cursor.offset text, rfl, Cursor.offset_count text,
    fun i hi => hoccupies hi, fun i hi => hend hi, ?_, fun m hm => ⟨?_, fun s hs => ?_⟩,
    Scanner.call_eq source⟩
  · exact Cursor.tokensWithin_eq_map_call (Cursor.count_le text)
      (congrArg Token.kind (hend (Nat.le_refl _))) fun i hi => (hoccupies hi).kind
  · obtain ⟨m, rfl⟩ : ∃ k, m = k + 1 := ⟨m - 1, by omega⟩
    -- The last of the calls gives the end of the input, which is no layout.
    rw [List.range_succ, List.map_append, List.map_singleton]
    exact Spaced.flatMap_groupFrom (by rw [hend (Nat.le_of_lt_succ hm)]; rfl) [] _
  · exact Spaced.isLayout_of_mem_groupFrom (by simp) hs

end Token

end TypedScheme
