import TypedScheme.Datum.Reader
import TypedScheme.Proofs.Datum.Shape
import TypedScheme.Proofs.Run

/-!
# Reading is the inverse of flattening

The tokens that a reader has taken are those of the data it has finished followed by those of the
frames it has not, and this is the invariant that every token keeps. In the other direction, the
tokens of a well-formed datum take a reader to where the finished datum takes it.

## What this module delivers

- `Reader.Moves`: all that one token can do to a reader, with `Reader.step_eq_ok_iff`.
- `Reader.Valid` and `Reader.spelled`, the invariant and the tokens taken so far, kept by a token
  (`Reader.Moves.valid`) and by a run (`Reader.steps_sound`).
- `Reader.steps_flatten`: the run over the tokens of a well-formed datum.
- `Datum.readTokens_eq_ok_iff`, and `TokenFeed.read_eq_ok_iff_flatten` for tokens from elsewhere than
  a source text.
-/

set_option autoImplicit false

namespace TypedScheme

open Datum

namespace Reader

/-! ## What one token does -/

/-- Whether the innermost frame waits for a datum, and not for its closing parenthesis. -/
def IsOpen : List Frame → Prop
  | .tailed _ _ _ _ :: _ => False
  | _ => True

/-- The moves of a reader: a token other than the end of the input opens a list or a quote, closes a
list, goes between elements and tail, or is an atom. -/
inductive Moves : Reader → Token → Reader → Prop
  | opens {done : List Datum} {frames : List Frame} {t : Token} :
      t.kind = .leftParen → IsOpen frames →
      Moves ⟨done, frames⟩ t ⟨done, .list t [] :: frames⟩
  | quotes {done : List Datum} {frames : List Frame} {t : Token} :
      t.kind = .quote → IsOpen frames →
      Moves ⟨done, frames⟩ t ⟨done, .quote t :: frames⟩
  | closes {done : List Datum} {frames : List Frame} {left t : Token} {ds : List Datum} :
      t.kind = .rightParen →
      Moves ⟨done, .list left ds :: frames⟩ t (finish done frames (.list left ds.reverse t))
  | dots {done : List Datum} {frames : List Frame} {left t : Token} {d : Datum}
      {ds : List Datum} : t.kind = .period →
      Moves ⟨done, .list left (d :: ds) :: frames⟩ t ⟨done, .dotted left (d :: ds) t :: frames⟩
  | closesTail {done : List Datum} {frames : List Frame} {left dot t : Token} {ds : List Datum}
      {tail : Datum} : t.kind = .rightParen →
      Moves ⟨done, .tailed left ds dot tail :: frames⟩ t
        (finish done frames (.dotted left ds.reverse dot tail t))
  | atom {done : List Datum} {frames : List Frame} {t : Token} :
      t.kind.isAtom = true → IsOpen frames →
      Moves ⟨done, frames⟩ t (finish done frames (.atom t))

variable {done : List Datum} {frames : List Frame} {r r' : Reader} {t : Token}

theorem isOpen_nil : IsOpen [] := trivial

theorem isOpen_quote {mark : Token} : IsOpen (.quote mark :: frames) := trivial

theorem isOpen_list {left : Token} {ds : List Datum} : IsOpen (.list left ds :: frames) := trivial

theorem isOpen_dotted {left dot : Token} {ds : List Datum} :
    IsOpen (.dotted left ds dot :: frames) :=
  trivial

/-- A reader that is open accepts the next token. -/
theorem step_of_isOpen (h : IsOpen r.frames) : r.step t = r.accept t := by
  unfold step
  split
  · rename_i hframes
    rw [hframes] at h
    exact h.elim
  · rfl

/-- An atom is a datum that is over at once. -/
theorem accept_of_isAtom (h : t.kind.isAtom = true) :
    r.accept t = .ok (finish r.done r.frames (.atom t)) := by
  unfold accept
  split <;> simp_all [Token.Kind.isAtom]

theorem Moves.step (h : Moves r t r') : r.step t = .ok r' := by
  cases h with
  | opens ht hopen => rw [step_of_isOpen hopen, accept, ht]
  | quotes ht hopen => rw [step_of_isOpen hopen, accept, ht]
  | closes ht => rw [step_of_isOpen isOpen_list, accept, ht]
  | dots ht => rw [step_of_isOpen isOpen_list, accept, ht]
  | closesTail ht => simp [Reader.step, ht]
  | atom ht hopen => rw [step_of_isOpen hopen, accept_of_isAtom ht]

/-- What a reader accepts is one of the moves. -/
theorem moves_of_accept (hopen : IsOpen r.frames) (hend : t.kind ≠ .endOfInput)
    (h : r.accept t = .ok r') : Moves r t r' := by
  obtain ⟨done, frames⟩ := r
  unfold accept at h
  split at h
  · rename_i ht
    cases h
    exact .opens ht hopen
  · rename_i ht
    cases h
    exact .quotes ht hopen
  · rename_i ht
    split at h
    · rename_i hframes
      cases hframes
      cases h
      exact .closes ht
    · cases h
  · rename_i ht
    split at h
    · rename_i hframes
      cases hframes
      cases h
      exact .dots ht
    · cases h
  · cases h
  · cases h
    refine .atom ?_ hopen
    -- All other kinds have been dealt with, so this is an atom.
    cases hk : t.kind <;> simp_all [Token.Kind.isAtom]

/-- A reader takes a token exactly if it has a move for it, and then makes that move. -/
theorem step_eq_ok_iff (hend : t.kind ≠ .endOfInput) : r.step t = .ok r' ↔ Moves r t r' := by
  refine ⟨fun h => ?_, Moves.step⟩
  unfold step at h
  split at h
  · rename_i hframes
    obtain ⟨done, frames⟩ := r
    obtain rfl : frames = _ := hframes
    split at h
    · rename_i ht
      cases h
      exact .closesTail ht
    · cases h
  · rename_i htailed
    refine moves_of_accept ?_ hend h
    unfold IsOpen
    split
    · rename_i hframes
      exact htailed _ _ _ _ _ hframes
    · trivial

/-! ## The tokens taken so far -/

/-- The tokens of an unfinished datum. -/
def Frame.spelled : Frame → List Token
  | quote mark => [mark]
  | list left ds => left :: flattenAll ds.reverse
  | dotted left ds dot => left :: (flattenAll ds.reverse ++ [dot])
  | tailed left ds dot tail => left :: (flattenAll ds.reverse ++ dot :: flatten tail)

/-- The tokens of frames, which are given innermost first. -/
def spelledBy : List Frame → List Token
  | [] => []
  | f :: fs => spelledBy fs ++ f.spelled

/-- The tokens that a reader has taken. -/
def spelled (r : Reader) : List Token := flattenAll r.done.reverse ++ spelledBy r.frames

/-- The tokens and elements of an unfinished datum fit its shape. -/
def Frame.WellFormed : Frame → Prop
  | quote mark => mark.kind = .quote
  | list left ds => left.kind = .leftParen ∧ AllWellFormed ds
  | dotted left ds dot =>
    left.kind = .leftParen ∧ (ds ≠ [] ∧ AllWellFormed ds) ∧ dot.kind = .period
  | tailed left ds dot tail =>
    left.kind = .leftParen ∧ (ds ≠ [] ∧ AllWellFormed ds) ∧ dot.kind = .period ∧ tail.WellFormed

/-- All frames are well formed, and those around the innermost one wait for a datum. -/
def ValidFrames : List Frame → Prop
  | [] => True
  | f :: fs => f.WellFormed ∧ IsOpen fs ∧ ValidFrames fs

/-- The invariant of a reader. -/
def Valid (r : Reader) : Prop := AllWellFormed r.done ∧ ValidFrames r.frames

theorem allWellFormed_reverse {ds : List Datum} : AllWellFormed ds.reverse ↔ AllWellFormed ds := by
  simp [allWellFormed_iff]

/-- A finished datum is the next part of what has been taken. -/
theorem finish_sound (hdone : AllWellFormed done) (hframes : ValidFrames frames)
    (hopen : IsOpen frames) {d : Datum} (hd : d.WellFormed) :
    (finish done frames d).Valid ∧
      (finish done frames d).spelled = (Reader.mk done frames).spelled ++ d.flatten := by
  induction frames generalizing d with
  | nil => exact ⟨⟨⟨hd, hdone⟩, trivial⟩, by simp [finish, spelled, spelledBy]⟩
  | cons f fs ih =>
    obtain ⟨hf, hopen', hfs⟩ := hframes
    cases f with
    | quote mark =>
      -- The quote is finished too, and its mark stands in front of the datum.
      obtain ⟨hvalid, hspelled⟩ := ih hfs hopen' (d := .quoted mark d) ⟨hf, hd⟩
      refine ⟨hvalid, ?_⟩
      rw [finish, hspelled]
      simp [spelled, spelledBy, Frame.spelled, flatten]
    | list left ds =>
      refine ⟨⟨hdone, ⟨hf.1, hd, hf.2⟩, hopen', hfs⟩, ?_⟩
      simp [finish, spelled, spelledBy, Frame.spelled]
    | dotted left ds dot =>
      refine ⟨⟨hdone, ⟨hf.1, hf.2.1, hf.2.2, hd⟩, hopen', hfs⟩, ?_⟩
      simp [finish, spelled, spelledBy, Frame.spelled]
    | tailed left ds dot tail => exact hopen.elim

/-- A move keeps the invariant. -/
theorem Moves.valid (h : Moves r t r') (hr : r.Valid) :
    r'.Valid ∧ r'.spelled = r.spelled ++ [t] := by
  cases h with
  | opens ht hopen =>
    refine ⟨⟨hr.1, ⟨ht, trivial⟩, hopen, hr.2⟩, ?_⟩
    simp [Reader.spelled, spelledBy, Frame.spelled, flattenAll]
  | quotes ht hopen =>
    refine ⟨⟨hr.1, ht, hopen, hr.2⟩, ?_⟩
    simp [Reader.spelled, spelledBy, Frame.spelled]
  | closes ht =>
    obtain ⟨hdone, ⟨hleft, hds⟩, hopen, hframes⟩ := hr
    -- The list is finished, and with it the quotes right in front of it.
    obtain ⟨hvalid, hspelled⟩ := finish_sound hdone hframes hopen
      (show (Datum.list _ _ _).WellFormed from ⟨hleft, allWellFormed_reverse.2 hds, ht⟩)
    refine ⟨hvalid, ?_⟩
    rw [hspelled]
    simp [Reader.spelled, spelledBy, Frame.spelled, flatten]
  | dots ht =>
    obtain ⟨hdone, ⟨hleft, hds⟩, hopen, hframes⟩ := hr
    refine ⟨⟨hdone, ⟨hleft, ⟨List.cons_ne_nil _ _, hds⟩, ht⟩, hopen, hframes⟩, ?_⟩
    simp [Reader.spelled, spelledBy, Frame.spelled]
  | closesTail ht =>
    obtain ⟨hdone, ⟨hleft, ⟨hne, hds⟩, hdot, htail⟩, hopen, hframes⟩ := hr
    have hd : (Datum.dotted _ _ _ _ _).WellFormed :=
      ⟨hleft, ⟨by simpa using hne, allWellFormed_reverse.2 hds⟩, hdot, htail, ht⟩
    obtain ⟨hvalid, hspelled⟩ := finish_sound hdone hframes hopen hd
    refine ⟨hvalid, ?_⟩
    rw [hspelled]
    simp [Reader.spelled, spelledBy, Frame.spelled, flatten]
  | atom ht hopen => simpa [flatten] using finish_sound hr.1 hr.2 hopen (d := .atom t) ht

/-! ## Runs -/

@[simp] theorem steps_nil (r : Reader) : r.steps [] = .ok r := rfl

theorem steps_cons (r : Reader) (t : Token) (ts : List Token) :
    r.steps (t :: ts) = r.step t >>= fun r' => r'.steps ts := rfl

/-- Steps on tokens in two parts are made one part after the other. -/
theorem steps_append (r : Reader) (ts us : List Token) :
    r.steps (ts ++ us) = r.steps ts >>= fun r' => r'.steps us := by
  simp [steps, List.foldlM_append]

/-- A move is the first of the steps. -/
theorem steps_cons_of_moves (h : Moves r t r') (ts : List Token) :
    r.steps (t :: ts) = r'.steps ts := by
  rw [steps_cons, h.step]
  rfl

/-- A run of a reader over tokens keeps the invariant, and the tokens are added to those taken. -/
theorem steps_sound {ts : List Token} (hend : ∀ t ∈ ts, t.kind ≠ .endOfInput) (hr : r.Valid)
    (h : r.steps ts = .ok r') : r'.Valid ∧ r'.spelled = r.spelled ++ ts := by
  induction ts generalizing r with
  | nil =>
    cases h
    exact ⟨hr, (List.append_nil _).symm⟩
  | cons t ts ih =>
    obtain ⟨ht, hts⟩ := List.forall_mem_cons.1 hend
    rw [steps_cons] at h
    cases hstep : r.step t with
    | error e =>
      rw [hstep] at h
      cases h
    | ok r₁ =>
      rw [hstep] at h
      obtain ⟨hvalid, hspelled⟩ := ((step_eq_ok_iff ht).1 hstep).valid hr
      obtain ⟨hvalid', hspelled'⟩ := ih hts hvalid h
      exact ⟨hvalid', by rw [hspelled', hspelled, List.append_assoc, List.singleton_append]⟩

/-- The tokens of elements, which are read one by one, are added to the list at hand. -/
theorem steps_flattenAll {ds : List Datum}
    (h : ∀ d ∈ ds, ∀ frames, IsOpen frames → ∀ ts,
      (Reader.mk done frames).steps (d.flatten ++ ts) = (finish done frames d).steps ts)
    (left : Token) (es : List Datum) (frames : List Frame) (ts : List Token) :
    (Reader.mk done (.list left es :: frames)).steps (flattenAll ds ++ ts) =
      (Reader.mk done (.list left (ds.reverse ++ es) :: frames)).steps ts := by
  induction ds generalizing es with
  | nil => rfl
  | cons d ds ih =>
    obtain ⟨hd, hds⟩ := List.forall_mem_cons.1 h
    rw [flattenAll, List.append_assoc, hd _ isOpen_list]
    simpa [finish] using ih hds (d :: es)

/-- The tokens of a well-formed datum take a reader to where the finished datum takes it. -/
theorem steps_flatten {d : Datum} (hd : d.WellFormed) (hopen : IsOpen frames) (ts : List Token) :
    (Reader.mk done frames).steps (d.flatten ++ ts) = (finish done frames d).steps ts := by
  induction d generalizing frames ts with
  | atom t => exact steps_cons_of_moves (.atom hd hopen) ts
  | quoted mark d ih =>
    rw [flatten, List.cons_append, steps_cons_of_moves (.quotes hd.1 hopen)]
    exact ih hd.2 isOpen_quote ts
  | list left ds right ih =>
    obtain ⟨hleft, hds, hright⟩ := hd
    have helems : ∀ d ∈ ds, ∀ frames, IsOpen frames → ∀ ts,
        (Reader.mk done frames).steps (d.flatten ++ ts) = (finish done frames d).steps ts :=
      fun d hd _ hopen ts => ih d hd (allWellFormed_iff.1 hds d hd) hopen ts
    simp only [flatten, List.cons_append, List.append_assoc, List.nil_append]
    rw [steps_cons_of_moves (.opens hleft hopen), steps_flattenAll helems,
      steps_cons_of_moves (.closes hright)]
    simp
  | dotted left ds dot tail right ih iht =>
    obtain ⟨hleft, ⟨hne, hds⟩, hdot, htail, hright⟩ := hd
    have helems : ∀ d ∈ ds, ∀ frames, IsOpen frames → ∀ ts,
        (Reader.mk done frames).steps (d.flatten ++ ts) = (finish done frames d).steps ts :=
      fun d hd _ hopen ts => ih d hd (allWellFormed_iff.1 hds d hd) hopen ts
    -- The list at hand has an element when the dot comes.
    obtain ⟨e, es, hes⟩ := List.exists_cons_of_ne_nil (List.reverse_ne_nil_iff.2 hne)
    simp only [flatten, List.cons_append, List.append_assoc, List.nil_append]
    rw [steps_cons_of_moves (.opens hleft hopen), steps_flattenAll helems, List.append_nil, hes,
      steps_cons_of_moves (.dots hdot), iht htail isOpen_dotted, finish,
      steps_cons_of_moves (.closesTail hright), ← hes, List.reverse_reverse]

end Reader

open Reader

/-! ## Whole texts -/

namespace Datum

/-- The tokens of well-formed data lead a reader to these data. -/
theorem steps_forest {F : List Datum} (hF : AllWellFormed F) (done : List Datum) :
    (Reader.mk done []).steps (flattenAll F) = .ok ⟨F.reverse ++ done, []⟩ := by
  induction F generalizing done with
  | nil => rfl
  | cons d F ih =>
    rw [flattenAll, steps_flatten hF.1 isOpen_nil]
    simpa [finish] using ih hF.2 (d :: done)

theorem valid_empty : Reader.empty.Valid := ⟨trivial, trivial⟩

/-- Tokens read as a forest exactly if the forest is well formed and they are its tokens. -/
theorem readTokens_eq_ok_iff {ts : List Token} (hend : ∀ t ∈ ts, t.kind ≠ .endOfInput)
    {F : List Datum} : readTokens ts = .ok F ↔ AllWellFormed F ∧ flattenAll F = ts := by
  constructor
  · intro h
    unfold readTokens at h
    cases hsteps : Reader.empty.steps ts with
    | error e =>
      rw [hsteps] at h
      cases h
    | ok r =>
      obtain ⟨⟨hdone, -⟩, hspelled⟩ := steps_sound hend valid_empty hsteps
      rw [hsteps] at h
      obtain ⟨done, frames⟩ := r
      cases frames with
      | nil =>
        cases h
        exact ⟨allWellFormed_reverse.2 hdone,
          by simpa [spelled, spelledBy, Reader.empty, flattenAll] using hspelled⟩
      | cons f fs => cases h
  · rintro ⟨hF, rfl⟩
    rw [readTokens, Reader.empty, steps_forest hF]
    exact congrArg Except.ok (by simp)

end Datum

namespace TokenFeed

/-- A feed is read up to the first end of the input. -/
theorem read_append_end {ts : List Token} (hend : ∀ t ∈ ts, t.kind ≠ .endOfInput) {eof : Token}
    (heof : eof.kind = .endOfInput) (rest : List Token) :
    TokenFeed.read ⟨ts ++ eof :: rest, none⟩ = (readTokens ts).mapError .malformed := by
  have htake : (ts ++ eof :: rest).takeWhile (fun t => t.kind ≠ .endOfInput) = ts := by
    rw [List.takeWhile_append_of_pos (by simpa using hend)]
    simp [heof]
  rw [TokenFeed.read, htake]
  cases readTokens ts <;> rfl

/-- Reading is the exact inverse of flattening: tokens up to the end of the input are read as a forest
if and only if the forest is well formed and those are its tokens. So there is at most one reading, and
where there is none the tokens are refused. -/
theorem read_eq_ok_iff_flatten {ts : List Token} (hend : ∀ t ∈ ts, t.kind ≠ .endOfInput)
    {eof : Token} (heof : eof.kind = .endOfInput) (rest : List Token) :
    (∀ F, TokenFeed.read ⟨ts ++ eof :: rest, none⟩ = .ok F ↔
      AllWellFormed F ∧ flattenAll F = ts) ∧
    ((¬∃ F, AllWellFormed F ∧ flattenAll F = ts) →
      ∃ e, TokenFeed.read ⟨ts ++ eof :: rest, none⟩ = .error (.malformed e)) := by
  rw [read_append_end hend heof]
  constructor
  · intro F
    rw [← readTokens_eq_ok_iff hend]
    exact mapError_eq_ok_iff
  · intro hnone
    cases hts : readTokens ts with
    | error e => exact ⟨e, rfl⟩
    | ok F => exact absurd ⟨F, (readTokens_eq_ok_iff hend).1 hts⟩ hnone

/-- A quoted name behind a dot: the tokens before the end of the input are read as the one dotted list
that they spell, whatever comes after the end. -/
theorem read_eq_ok_iff_flatten_dottedQuote :
    let token (kind : Token.Kind) (text : String) : Token := ⟨kind, .absent, text⟩
    let left := token .leftParen ""
    let a := token .symbol "a"
    let dot := token .period ""
    let mark := token .quote ""
    let b := token .symbol "b"
    let right := token .rightParen ""
    let eof := token .endOfInput ""
    let F := [dotted left [atom a] dot (quoted mark (atom b)) right]
    AllWellFormed F ∧ flattenAll F = [left, a, dot, mark, b, right] ∧
      TokenFeed.read ⟨[left, a, dot, mark, b, right] ++ eof :: [right], none⟩ = .ok F := by
  intro token left a dot mark b right eof F
  have hF : AllWellFormed F := by
    simp [F, token, left, a, dot, mark, b, right, AllWellFormed, WellFormed, Token.Kind.isAtom]
  have hend : ∀ t ∈ [left, a, dot, mark, b, right], t.kind ≠ .endOfInput := by decide
  exact ⟨hF, rfl, ((read_eq_ok_iff_flatten hend rfl [right]).1 F).2 ⟨hF, rfl⟩⟩

end TokenFeed

end TypedScheme
