import TypedScheme.Expr.Parser
import TypedScheme.Proofs.Datum.Completion
import TypedScheme.Proofs.Token.Tiling

/-!
# Where data stand in a text

The significant tokens of a text stand in it one after the other, with layout between them. A datum
keeps its tokens in that order, so the place of a datum reaches from the first character of its first
token to the last character of its last one.

## What this module delivers

- `Span.Marks text a b s`: the span `s` is that of the characters from the offset `a` up to the offset
  `b`, the first of which can be seen.
- `Token.Between text lo hi ts`: the tokens `ts` are the significant ones of a text between two offsets,
  with `Token.between_significantAt` and `Token.between_append`.
- `Datum.Stands text a b d`: the datum `d` stands in a text from the offset `a` up to the offset `b`,
  with `Datum.standAll_of_readAll` and `Datum.Stands.marks`.
- `Program.exists_standAll_unwrap`: the forms of a program stand in its text.
- `Datum.exists_span_of_readAll`: a text that cannot be read is at fault at one of its tokens.
-/

set_option autoImplicit false

namespace TypedScheme

open Text

/-! ## Spans by offset -/

namespace Position

variable {text : List Char} {a b : Nat}

/-- Columns are counted from one. -/
theorem column_ofOffset_pos (text : List Char) (a : Nat) : 0 < (ofOffset text a).column := by
  change (0 : Int) < 1 + ((text.take a).reverse.takeWhile (· ≠ '\n')).length
  omega

theorem column_ofOffset_ne_zero (text : List Char) (a : Nat) : (ofOffset text a).column ≠ 0 :=
  Int.ne_of_gt (column_ofOffset_pos text a)

/-- Of two positions of a text the earlier is the one with the smaller offset. -/
theorem earlier_ofOffset (h : a ≤ b) :
    (ofOffset text a).earlier (ofOffset text b) = ofOffset text a := by
  rw [earlier, if_neg (column_ofOffset_ne_zero _ _), if_neg (column_ofOffset_ne_zero _ _)]
  rcases Nat.lt_or_eq_of_le h with hlt | rfl
  · exact if_pos (Int.ofNat_lt.2 hlt)
  · exact ite_self _

theorem later_ofOffset (h : a ≤ b) :
    (ofOffset text a).later (ofOffset text b) = ofOffset text b := by
  rw [later, if_neg (column_ofOffset_ne_zero _ _), if_neg (column_ofOffset_ne_zero _ _)]
  exact if_neg (Int.not_lt.2 (Int.ofNat_le.2 h))

end Position

namespace Span

variable {text : List Char} {a b c d : Nat} {s t : Span}

/-- The span of the characters of a text from the offset `a` up to the offset `b`. -/
def ofOffsets (text : List Char) (a b : Nat) : Span := ⟨.ofOffset text a, .ofOffset text (b - 1)⟩

/-- A span is that of the characters of a text from the offset `a` up to the offset `b`, of which the
first is there and can be seen. The span may go on to the end of the input, which counts as one more
character. -/
structure Marks (text : List Char) (a b : Nat) (s : Span) : Prop where
  lt : a < b
  le : b ≤ text.length + 1
  eq : s = ofOffsets text a b
  visible : ∃ c, text[a]? = some c ∧ isBlank c = false

/-- A span that marks a piece of a text is not absent. -/
theorem Marks.isAbsent (h : s.Marks text a b) : s.isAbsent = false := by
  rw [h.eq]
  have hcolumn := Position.column_ofOffset_ne_zero text a
  simp [Span.isAbsent, ofOffsets, hcolumn]

theorem Marks.first_offset (h : s.Marks text a b) : s.first.offset = a := by
  rw [h.eq]
  rfl

theorem Marks.last_offset (h : s.Marks text a b) : s.last.offset = b - 1 := by
  have hlt := h.lt
  rw [h.eq]
  change ((b - 1 : Nat) : Int) = b - 1
  omega

/-- Two spans in the order of the text are covered by the characters from the first to the last. -/
theorem Marks.cover (hs : s.Marks text a b) (ht : t.Marks text c d) (hac : a ≤ c) (hbd : b ≤ d) :
    (s.cover t).Marks text a d := by
  refine ⟨Nat.lt_of_lt_of_le hs.lt hbd, ht.le, ?_, hs.visible⟩
  rw [hs.eq, ht.eq, Span.cover, ofOffsets, ofOffsets, Position.earlier_ofOffset hac,
    Position.later_ofOffset (by omega)]
  rfl

/-- Spans one after the other are covered by a span from the start of the first to the end of the
second. -/
theorem Marks.cover_of_le (hs : s.Marks text a b) (hbc : b ≤ c) (ht : t.Marks text c d) :
    (s.cover t).Marks text a d := by
  have hlt := hs.lt
  have hlt' := ht.lt
  exact hs.cover ht (by omega) (by omega)

end Span

/-! ## Tokens one after the other -/

/-- A significant token does not start with a blank. -/
theorem Lexeme.isBlank_of_next [IdentifierClasses] {c : Char} {rest : List Char}
    (h : (next (c :: rest)).1.kind.isLayout = false) : isBlank c = false := by
  by_contra hblank
  rw [(Branch.blank (by simpa using hblank) : Branch c rest _).next_eq] at h
  cases h

namespace Token

variable [IdentifierClasses]
variable {text : List Char} {a b lo hi : Nat} {t : Token} {ts us : List Token}

/-- A significant token of a text stands for its characters from the offset `a` up to the offset `b`. -/
structure Stands (text : List Char) (a b : Nat) (t : Token) : Prop where
  start : a < text.length
  stop : b = a + Cursor.width text a
  token : t = (Cursor.atOffset text a).next.1
  significant : t.kind.isLayout = false

/-- A token that stands somewhere occupies its place. -/
theorem Stands.occupies (h : t.Stands text a b) : t.Occupies text a b := by
  rw [h.token, h.stop]
  exact Cursor.occupies_next h.start

/-- A token that stands somewhere starts with a character that can be seen. -/
theorem Stands.visible (h : t.Stands text a b) : ∃ c, text[a]? = some c ∧ isBlank c = false := by
  have hsignificant := h.significant
  rw [h.token] at hsignificant
  change (Lexeme.next (text.drop a)).1.kind.isLayout = false at hsignificant
  rw [List.drop_eq_getElem_cons h.start] at hsignificant
  exact ⟨_, List.getElem?_eq_getElem h.start, Lexeme.isBlank_of_next hsignificant⟩

/-- The span of a token that is not illegal marks its characters. -/
theorem Stands.marks (h : t.Stands text a b) (hlegal : t.kind ≠ .illegal) :
    t.span.Marks text a b := by
  have hspan : t.span.last = .ofOffset text (b - 1) := by
    rw [h.occupies.last, if_neg fun hstring : t.IsUnterminatedString => hlegal hstring.1]
  refine ⟨h.occupies.lt, Nat.le_succ_of_le h.occupies.le, ?_, h.visible⟩
  rw [Span.ofOffsets, ← h.occupies.first, ← hspan]

/-- A string that is not closed marks the rest of the text and the end of the input. -/
theorem Stands.exists_marks (h : t.Stands text a b) : ∃ c, t.span.Marks text a c := by
  have hlast := h.occupies.last
  by_cases hstring : t.IsUnterminatedString
  · rw [if_pos hstring] at hlast
    refine ⟨text.length + 1, Nat.lt_succ_of_lt h.start, Nat.le_refl _, ?_, h.visible⟩
    rw [Span.ofOffsets, Nat.add_sub_cancel, ← h.occupies.first, ← hlast]
  · rw [if_neg hstring] at hlast
    refine ⟨b, h.occupies.lt, Nat.le_succ_of_le h.occupies.le, ?_, h.visible⟩
    rw [Span.ofOffsets, ← h.occupies.first, ← hlast]

/-- The significant tokens of the text between two offsets, at both of which a token ends or starts. -/
inductive Between (text : List Char) : Nat → Nat → List Token → Prop
  | nil {a : Nat} : Between text a a []
  | layout {a hi : Nat} {ts : List Token} :
      a < text.length → (Cursor.lexemeAt text a).kind.isLayout = true →
      Between text (a + Cursor.width text a) hi ts → Between text a hi ts
  | token {a b hi : Nat} {t : Token} {ts : List Token} :
      t.Stands text a b → Between text b hi ts → Between text a hi (t :: ts)

theorem Between.le (h : Between text lo hi ts) : lo ≤ hi := by
  induction h with
  | nil => exact Nat.le_refl _
  | layout _ _ _ ih => exact Nat.le_trans (Nat.le_add_right _ _) ih
  | token ht _ ih => exact Nat.le_trans (Nat.le_of_lt ht.occupies.lt) ih

theorem Between.append {m : Nat} (hts : Between text lo m ts) (hus : Between text m hi us) :
    Between text lo hi (ts ++ us) := by
  induction hts with
  | nil => exact hus
  | layout ha hlayout _ ih => exact .layout ha hlayout (ih hus)
  | token ht _ ih => exact .token ht (ih hus)

/-- In front of the first token there is only layout. -/
theorem Between.exists_of_cons (h : Between text lo hi (t :: ts)) :
    ∃ a b, Between text lo a [] ∧ t.Stands text a b ∧ Between text b hi ts := by
  generalize hall : t :: ts = all at h
  induction h with
  | nil => cases hall
  | layout ha hlayout _ ih =>
    obtain ⟨a, b, hgap, ht, hrest⟩ := ih hall
    exact ⟨a, b, .layout ha hlayout hgap, ht, hrest⟩
  | token ht hrest _ =>
    cases hall
    exact ⟨_, _, .nil, ht, hrest⟩

/-- Tokens in two parts are parted at an offset. -/
theorem Between.exists_of_append (h : Between text lo hi (ts ++ us)) :
    ∃ m, Between text lo m ts ∧ Between text m hi us := by
  induction ts generalizing lo with
  | nil => exact ⟨lo, .nil, h⟩
  | cons t ts ih =>
    obtain ⟨a, b, hgap, ht, hrest⟩ := h.exists_of_cons
    obtain ⟨m, hts, hus⟩ := ih hrest
    exact ⟨m, hgap.append (.token ht hts), hus⟩

/-- Every token between two offsets stands somewhere. -/
theorem Between.exists_stands (h : Between text lo hi ts) (ht : t ∈ ts) :
    ∃ a b, t.Stands text a b := by
  obtain ⟨before, after, rfl⟩ := List.append_of_mem ht
  obtain ⟨m, -, hafter⟩ := h.exists_of_append
  obtain ⟨a, b, -, ht, -⟩ := hafter.exists_of_cons
  exact ⟨a, b, ht⟩

/-- The significant tokens of what is left of a text are those from its offset to the end. -/
theorem between_significantAt {a : Nat} (ha : a ≤ text.length) :
    Between text a text.length (significantAt (.ofOffset text a) (text.drop a)) := by
  rcases Nat.lt_or_eq_of_le ha with hlt | rfl
  · have hne : text.drop a ≠ [] := by simpa using hlt
    have hwidth := Cursor.width_pos hlt
    have hrest := between_significantAt (Cursor.add_width_le ha)
    -- The text after the first token is what is left behind its offset.
    have hnext := Cursor.next_atOffset ha
    have hposition : (Position.ofOffset text a).after (Lexeme.next (text.drop a)).1.covers = _ :=
      congrArg Cursor.position hnext
    have hdrop : (Lexeme.next (text.drop a)).2 = _ := congrArg Cursor.rest hnext
    rw [significantAt_of_ne_nil _ hne, hposition, hdrop]
    cases hlayout : (Lexeme.next (text.drop a)).1.kind.isLayout with
    | true => exact .layout hlt hlayout hrest
    | false => exact .token ⟨hlt, rfl, rfl, hlayout⟩ hrest
  · simpa using Between.nil
termination_by text.length - a

end Token

/-! ## Data -/

open Token

namespace Datum

mutual

/-- A datum stands in a text from the offset `a` up to the offset `b`. -/
inductive Stands (text : List Char) : Nat → Nat → Datum → Prop
  | atom {a b : Nat} {t : Token} :
      t.Stands text a b → t.kind.isAtom = true → Stands text a b (.atom t)
  | quoted {a m c b : Nat} {mark : Token} {d : Datum} :
      mark.Stands text a m → mark.kind = .quote → Between text m c [] → Stands text c b d →
      Stands text a b (.quoted mark d)
  | list {a m c b : Nat} {left right : Token} {ds : List Datum} :
      left.Stands text a m → left.kind = .leftParen → StandAll text m c ds →
      right.Stands text c b → right.kind = .rightParen → Stands text a b (.list left ds right)
  | dotted {a m c m' c' b : Nat} {left dot right : Token} {ds : List Datum} {tail : Datum} :
      left.Stands text a m → left.kind = .leftParen → ds ≠ [] → StandAll text m c ds →
      dot.Stands text c m' → dot.kind = .period → StandAll text m' c' [tail] →
      right.Stands text c' b → right.kind = .rightParen →
      Stands text a b (.dotted left ds dot tail right)

/-- Data stand in a text one after the other, between two offsets. -/
inductive StandAll (text : List Char) : Nat → Nat → List Datum → Prop
  | nil {lo hi : Nat} : Between text lo hi [] → StandAll text lo hi []
  | cons {lo a b hi : Nat} {d : Datum} {ds : List Datum} :
      Between text lo a [] → Stands text a b d → StandAll text b hi ds → StandAll text lo hi (d :: ds)

end

variable {text : List Char} {a b lo hi : Nat} {d : Datum} {ds : List Datum}

/-- Data whose tokens lie between two offsets stand there one after the other, if each does. -/
theorem standAll_of_forall
    (h : ∀ d ∈ ds, ∀ {lo hi : Nat}, d.WellFormed → Between text lo hi d.flatten →
      ∃ a b, Between text lo a [] ∧ d.Stands text a b ∧ Between text b hi [])
    (hds : AllWellFormed ds) (hbetween : Between text lo hi (flattenAll ds)) :
    StandAll text lo hi ds := by
  induction ds generalizing lo with
  | nil => exact .nil hbetween
  | cons d ds ih =>
    obtain ⟨hd, hds⟩ := hds
    obtain ⟨m, hfirst, hrest⟩ := hbetween.exists_of_append
    obtain ⟨a, b, hgap, hstands, hgap'⟩ := h d List.mem_cons_self hd hfirst
    refine .cons hgap hstands (ih (fun e he => h e (List.mem_cons_of_mem d he)) hds ?_)
    exact hgap'.append hrest

/-- A well-formed datum whose tokens are all the tokens between two offsets stands there. -/
theorem exists_stands (hd : d.WellFormed) (h : Between text lo hi d.flatten) :
    ∃ a b, Between text lo a [] ∧ d.Stands text a b ∧ Between text b hi [] := by
  induction d generalizing lo hi with
  | atom t =>
    obtain ⟨a, b, hgap, ht, hgap'⟩ := h.exists_of_cons
    exact ⟨a, b, hgap, .atom ht hd, hgap'⟩
  | quoted mark d ih =>
    obtain ⟨a, m, hgap, hmark, h⟩ := h.exists_of_cons
    obtain ⟨c, b, hbetween, hstands, hgap'⟩ := ih hd.2 h
    exact ⟨a, b, hgap, .quoted hmark hd.1 hbetween hstands, hgap'⟩
  | list left ds right ih =>
    obtain ⟨hleft, hds, hright⟩ := hd
    obtain ⟨a, m, hgap, hl, h⟩ := h.exists_of_cons
    obtain ⟨c, helements, h⟩ := h.exists_of_append
    obtain ⟨c', b, hgap', hr, h⟩ := h.exists_of_cons
    -- The gap in front of the closing bracket belongs to the row of the elements.
    have hall := standAll_of_forall ih hds (by simpa using helements.append hgap')
    exact ⟨a, b, hgap, .list hl hleft hall hr hright, h⟩
  | dotted left ds dot tail right ih iht =>
    obtain ⟨hleft, ⟨hne, hds⟩, hperiod, htail, hright⟩ := hd
    obtain ⟨a, m, hgap, hl, h⟩ := h.exists_of_cons
    obtain ⟨c, helements, h⟩ := h.exists_of_append
    obtain ⟨c', m', hgap', hdot, h⟩ := h.exists_of_cons
    obtain ⟨e, hend, h⟩ := h.exists_of_append
    obtain ⟨e', b, hgap'', hr, h⟩ := h.exists_of_cons
    have hall := standAll_of_forall ih hds (by simpa using helements.append hgap')
    have hall' : StandAll text m' e' [tail] :=
      standAll_of_forall (by simpa using @iht) ⟨htail, trivial⟩ (by simpa using hend.append hgap'')
    exact ⟨a, b, hgap, .dotted hl hleft hne hall hdot hperiod hall' hr hright, h⟩

/-- The data of a text stand in it one after the other. -/
theorem standAll_of_readAll {source : String} (h : readAll source = .ok ds) :
    StandAll source.toList 0 source.toList.length ds := by
  obtain ⟨hwf, hflatten⟩ := flattenAll_of_readAll h
  refine standAll_of_forall (fun d _ _ _ => exists_stands) hwf ?_
  rw [hflatten]
  exact between_significantAt (Nat.zero_le _)

mutual

/-- A datum stands where its tokens do. -/
theorem Stands.between {a b : Nat} {d : Datum} : d.Stands text a b → Between text a b d.flatten
  | .atom ht _ => .token ht .nil
  | .quoted hmark _ hgap hd => .token hmark (hgap.append hd.between)
  | .list hl _ hds hr _ => .token hl (hds.between.append (.token hr .nil))
  | .dotted hl _ _ hds hdot _ htail hr _ => by
    have htail := htail.between
    rw [flattenAll_singleton] at htail
    exact .token hl (hds.between.append (.token hdot (htail.append (.token hr .nil))))

/-- The tokens of data that stand one after the other lie between the same offsets. -/
theorem StandAll.between {lo hi : Nat} {ds : List Datum} :
    StandAll text lo hi ds → Between text lo hi (flattenAll ds)
  | .nil hgap => hgap
  | .cons hgap hd hds => hgap.append (hd.between.append hds.between)

end

mutual

theorem Stands.wellFormed {a b : Nat} {d : Datum} : d.Stands text a b → d.WellFormed
  | .atom _ hatom => hatom
  | .quoted _ hquote _ hd => ⟨hquote, hd.wellFormed⟩
  | .list _ hleft hds _ hright => ⟨hleft, hds.allWellFormed, hright⟩
  | .dotted _ hleft hne hds _ hperiod htail _ hright =>
    ⟨hleft, ⟨hne, hds.allWellFormed⟩, hperiod, htail.allWellFormed.1, hright⟩

theorem StandAll.allWellFormed {lo hi : Nat} {ds : List Datum} :
    StandAll text lo hi ds → AllWellFormed ds
  | .nil _ => trivial
  | .cons _ hd hds => ⟨hd.wellFormed, hds.allWellFormed⟩

end

theorem StandAll.exists_of_append {es : List Datum}
    (h : StandAll text lo hi (ds ++ es)) : ∃ m, StandAll text lo m ds ∧ StandAll text m hi es := by
  induction ds generalizing lo with
  | nil => exact ⟨lo, .nil .nil, h⟩
  | cons d ds ih =>
    cases h with
    | cons hgap hd hrest =>
      obtain ⟨m, hds, hes⟩ := ih hrest
      exact ⟨m, .cons hgap hd hds, hes⟩

theorem StandAll.exists_of_singleton (h : StandAll text lo hi [d]) :
    ∃ a b, lo ≤ a ∧ d.Stands text a b ∧ b ≤ hi := by
  cases h with
  | cons hgap hd hrest => exact ⟨_, _, hgap.le, hd, hrest.between.le⟩

/-- Each of the data stands somewhere. -/
theorem StandAll.exists_of_mem (h : StandAll text lo hi ds) (hd : d ∈ ds) :
    ∃ a b, d.Stands text a b := by
  obtain ⟨before, after, rfl⟩ := List.append_of_mem hd
  obtain ⟨m, -, hafter⟩ := h.exists_of_append
  cases hafter with
  | cons _ hd _ => exact ⟨_, _, hd⟩

/-- A parenthesized piece of a text is marked by its parentheses. -/
theorem marks_enclosed {m c : Nat} {left right : Token} (hl : left.Stands text a m)
    (hleft : left.kind = .leftParen) (hmc : m ≤ c) (hr : right.Stands text c b)
    (hright : right.kind = .rightParen) : (left.span.cover right.span).Marks text a b := by
  exact (hl.marks (by simp [hleft])).cover_of_le hmc (hr.marks (by simp [hright]))

/-- The place of a datum is the piece of the text that it stands for. -/
theorem Stands.marks (h : d.Stands text a b) : d.span.Marks text a b := by
  induction d generalizing a with
  | atom t =>
    cases h with
    | atom ht hatom => exact ht.marks fun hillegal => by simp [hillegal, Token.Kind.isAtom] at hatom
  | quoted mark d ih =>
    cases h with
    | quoted hmark hquote hgap hd =>
      exact (hmark.marks (by simp [hquote])).cover_of_le hgap.le (ih hd)
  | list left ds right _ =>
    cases h with
    | list hl hleft hds hr hright => exact marks_enclosed hl hleft hds.between.le hr hright
  | dotted left ds dot tail right _ _ =>
    cases h with
    | dotted hl hleft _ hds hdot _ htail hr hright =>
      have hle := hds.between.le
      have hlt := hdot.occupies.lt
      have hle' := htail.between.le
      exact marks_enclosed hl hleft (by omega) hr hright

end Datum

/-- The forms of a program stand in its text one after the other, also inside a whole-program form. -/
theorem Program.exists_standAll_unwrap {text : List Char} {lo hi : Nat} {ds : List Datum}
    (h : Datum.StandAll text lo hi ds) :
    ∃ lo' hi', lo ≤ lo' ∧ hi' ≤ hi ∧ Datum.StandAll text lo' hi' (unwrap ds) := by
  unfold unwrap
  split
  · split
    · obtain _ | ⟨hgap, hlist, hrest⟩ := h
      obtain _ | _ | ⟨hl, -, hds, hr, -⟩ := hlist
      obtain _ | ⟨hgap', hhead, hds⟩ := hds
      have h₁ := hgap.le
      have h₂ := hl.occupies.lt
      have h₃ := hgap'.le
      have h₄ := hhead.marks.lt
      have h₅ := hr.occupies.lt
      have h₆ := hrest.between.le
      exact ⟨_, _, by omega, by omega, hds⟩
    · exact ⟨lo, hi, Nat.le_refl lo, Nat.le_refl hi, h⟩
  · exact ⟨lo, hi, Nat.le_refl lo, Nat.le_refl hi, h⟩

/-! ## Texts that cannot be read -/

namespace Reader

variable {r r' : Reader} {t : Token} {ts : List Token} {e : SyntaxError}

/-- A token that a reader does not accept is where the error is. -/
theorem span_of_accept (h : r.accept t = .error e) : e.span = t.span := by
  unfold accept at h
  split at h
  · cases h
  · cases h
  · split at h
    · cases h
    · cases h
      rfl
  · split at h
    · cases h
    · cases h
      rfl
  · cases h
    rfl
  · cases h

/-- A token that a reader cannot take is the place of the error. -/
theorem span_of_step (h : r.step t = .error e) : e.span = t.span := by
  unfold step at h
  split at h
  · split at h
    · cases h
    · cases h
      rfl
  · exact span_of_accept h

/-- An error on the way is at one of the tokens. -/
theorem exists_span_of_steps (h : r.steps ts = .error e) : ∃ t ∈ ts, e.span = t.span := by
  induction ts generalizing r with
  | nil => cases h
  | cons t ts ih =>
    rw [steps_cons] at h
    cases hstep : r.step t with
    | error e' =>
      rw [hstep] at h
      cases h
      exact ⟨t, List.mem_cons_self, span_of_step hstep⟩
    | ok r' =>
      rw [hstep] at h
      obtain ⟨u, hu, hspan⟩ := ih h
      exact ⟨u, List.mem_cons_of_mem t hu, hspan⟩

/-- A frame that is not finished is opened by a token that has been taken. -/
theorem exists_span_of_close (h : r.close = .error e) : ∃ t ∈ r.spelled, e.span = t.span := by
  obtain ⟨done, frames⟩ := r
  cases frames with
  | nil => cases h
  | cons frame frames =>
    cases h
    have hmem : ∀ t ∈ frame.spelled, t ∈ (Reader.mk done (frame :: frames)).spelled :=
      fun t ht => List.mem_append_right _ (List.mem_append_right _ ht)
    cases frame with
    | quote mark => exact ⟨mark, hmem mark List.mem_cons_self, rfl⟩
    | list left _ | dotted left _ _ | tailed left _ _ _ =>
      exact ⟨left, hmem left List.mem_cons_self, rfl⟩

end Reader

namespace Datum

/-- A text that cannot be read is at fault at one of its tokens. -/
theorem exists_span_of_readAll {source : String} {e : SyntaxError} (h : readAll source = .error e) :
    ∃ (t : Token) (a b : Nat), t.Stands source.toList a b ∧ e.span = t.span := by
  have hbetween : Between source.toList 0 source.toList.length
      (significantAt .start source.toList) := between_significantAt (Nat.zero_le _)
  suffices hmem : ∃ t ∈ significantAt .start source.toList, e.span = t.span by
    obtain ⟨t, ht, hspan⟩ := hmem
    obtain ⟨a, b, ht⟩ := hbetween.exists_stands ht
    exact ⟨t, a, b, ht, hspan⟩
  rw [readAll, significant_eq, readTokens] at h
  cases hsteps : Reader.empty.steps (significantAt .start source.toList) with
  | error e' =>
    rw [hsteps] at h
    cases h
    exact Reader.exists_span_of_steps hsteps
  | ok r =>
    rw [hsteps] at h
    -- The tokens that the reader has taken are all those of the text.
    obtain ⟨-, hspelled⟩ :=
      Reader.steps_sound (fun t ht => kind_of_mem_significantAt ht) valid_empty hsteps
    obtain ⟨t, ht, hspan⟩ := Reader.exists_span_of_close h
    rw [hspelled] at ht
    exact ⟨t, ht, hspan⟩

end Datum

end TypedScheme
