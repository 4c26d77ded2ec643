import TypedScheme.Proofs.Datum.Reading
import TypedScheme.Proofs.Token.Extension

/-!
# Texts that go on

Reading fails in two ways. A text that ends inside a datum can always be completed: an empty list where
a datum is missing, and then closing parentheses. A text that fails earlier stays unreadable whatever
comes after it, unless it ends inside a string, which more text may close.

## What this module delivers

- `Reader.steps_done_suffix`: what is finished stays finished.
- `Reader.exists_completion`: parentheses that finish whatever a reader has begun.
- `Datum.exists_readAll_of_steps`: a text without a token out of place can be completed on a new line.
- `Datum.exists_steps_of_readAll`: what a text that was read tells about the lines before its last.
-/

set_option autoImplicit false

namespace TypedScheme

open Datum

namespace Reader

variable {done : List Datum} {frames : List Frame} {r r' : Reader} {t : Token}

/-! ## What is finished stays finished -/

theorem finish_done_suffix (d : Datum) : done <:+ (finish done frames d).done := by
  induction frames generalizing d with
  | nil => exact List.suffix_cons _ _
  | cons f fs ih =>
    cases f with
    | quote mark => exact ih _
    | list | dotted | tailed => exact List.suffix_rfl

theorem Moves.done_suffix (h : Moves r t r') : r.done <:+ r'.done := by
  cases h with
  | opens | quotes | dots => exact List.suffix_rfl
  | closes | closesTail | atom => exact finish_done_suffix _

theorem steps_done_suffix {ts : List Token} (hend : ∀ t ∈ ts, t.kind ≠ .endOfInput)
    (h : r.steps ts = .ok r') : r.done <:+ r'.done := by
  induction ts generalizing r with
  | nil =>
    cases h
    exact List.suffix_rfl
  | cons t ts ih =>
    obtain ⟨ht, hts⟩ := List.forall_mem_cons.1 hend
    rw [steps_cons] at h
    cases hstep : r.step t with
    | error e =>
      rw [hstep] at h
      cases h
    | ok r₁ =>
      rw [hstep] at h
      exact ((step_eq_ok_iff ht).1 hstep).done_suffix.trans (ih hts h)

/-- No more text mends a token that a reader refuses. -/
theorem isIncomplete_of_step {e : SyntaxError} (h : r.step t = .error e) : e.isIncomplete = false := by
  unfold step at h
  split at h
  · split at h
    · cases h
    · cases h
      rfl
  · unfold accept at h
    split at h
    · cases h
    · cases h
    · split at h <;> cases h
      rfl
    · split at h <;> cases h
      rfl
    · cases h
      rfl
    · cases h

theorem isIncomplete_of_steps {ts : List Token} {e : SyntaxError} (h : r.steps ts = .error e) :
    e.isIncomplete = false := by
  induction ts generalizing r with
  | nil => cases h
  | cons t ts ih =>
    rw [steps_cons] at h
    cases hstep : r.step t with
    | error e' =>
      rw [hstep] at h
      cases h
      exact isIncomplete_of_step hstep
    | ok r₁ =>
      rw [hstep] at h
      exact ih h

/-- No reader takes an illegal token. -/
theorem steps_append_cons {ts us : List Token} (h : r.steps (ts ++ t :: us) = .ok r') :
    t.kind ≠ .illegal := by
  intro hillegal
  rw [steps_append] at h
  cases hts : r.steps ts with
  | error e =>
    rw [hts] at h
    cases h
  | ok r₁ =>
    rw [hts] at h
    change r₁.steps (t :: us) = .ok r' at h
    rw [steps_cons] at h
    cases hstep : r₁.step t with
    | error e =>
      rw [hstep] at h
      cases h
    | ok r₂ =>
      have hmoves := (step_eq_ok_iff (by simp [hillegal])).1 hstep
      cases hmoves <;> simp_all [Token.Kind.isAtom]

/-- A text that ends inside a frame is incomplete. -/
theorem isIncomplete_unfinished (f : Frame) : f.unfinished.isIncomplete = true := by
  cases f <;> rfl

/-! ## Completion -/

/-- The number of closing parentheses that frames wait for. -/
def depth : List Frame → Nat
  | [] => 0
  | .quote _ :: fs => depth fs
  | _ :: fs => depth fs + 1

/-- A closing parenthesis may come next, or nothing is unfinished. -/
def IsClosable : List Frame → Prop
  | .quote _ :: _ => False
  | .dotted _ _ _ :: _ => False
  | _ => True

/-- A finished datum leaves the parentheses that are waited for as they are, and is no quote or dot. -/
theorem depth_finish (done : List Datum) (hopen : IsOpen frames) (hframes : ValidFrames frames) (d : Datum) :
    depth (finish done frames d).frames = depth frames ∧
      IsClosable (finish done frames d).frames := by
  induction frames generalizing d with
  | nil => exact ⟨rfl, trivial⟩
  | cons f fs ih =>
    obtain ⟨-, hopen', hfs⟩ := hframes
    cases f with
    | quote mark => exact ih hopen' hfs _
    | list | dotted => exact ⟨rfl, trivial⟩
    | tailed => exact hopen.elim

/-- A closing parenthesis finishes the innermost list. -/
theorem exists_moves_close (hr : r.Valid) (hclosable : IsClosable r.frames) {n : Nat}
    (hdepth : depth r.frames = n + 1) (ht : t.kind = .rightParen) :
    ∃ r', Moves r t r' ∧ depth r'.frames = n ∧ IsClosable r'.frames := by
  obtain ⟨done, frames⟩ := r
  obtain ⟨-, hframes⟩ := hr
  cases frames with
  | nil => cases hdepth
  | cons f fs =>
    obtain ⟨-, hopen, hfs⟩ := hframes
    cases f with
    | quote | dotted => exact hclosable.elim
    | list left ds =>
      refine ⟨_, .closes ht, ?_⟩
      obtain ⟨hdepth', hclosable'⟩ := depth_finish done hopen hfs (.list left ds.reverse t)
      exact ⟨hdepth'.trans (Nat.succ.inj hdepth), hclosable'⟩
    | tailed left ds dot tail =>
      refine ⟨_, .closesTail ht, ?_⟩
      obtain ⟨hdepth', hclosable'⟩ :=
        depth_finish done hopen hfs (.dotted left ds.reverse dot tail t)
      exact ⟨hdepth'.trans (Nat.succ.inj hdepth), hclosable'⟩

/-- As many closing parentheses as frames wait for finish them all. -/
theorem steps_closing {ts : List Token}
    (hts : ts.map (·.kind) = List.replicate (depth r.frames) .rightParen) (hr : r.Valid)
    (hclosable : IsClosable r.frames) : ∃ done, r.steps ts = .ok ⟨done, []⟩ := by
  have hdepth : depth r.frames = ts.length := by simpa using (congrArg List.length hts).symm
  rw [hdepth, List.map_eq_replicate_iff] at hts
  induction ts generalizing r with
  | nil =>
    obtain ⟨done, frames⟩ := r
    match frames with
    | [] => exact ⟨done, rfl⟩
    | .quote _ :: _ => exact hclosable.elim
    | .list _ _ :: _ | .dotted _ _ _ :: _ | .tailed _ _ _ _ :: _ => cases hdepth
  | cons t ts ih =>
    obtain ⟨ht, hts⟩ := List.forall_mem_cons.1 hts
    obtain ⟨r', hmoves, hdepth', hclosable'⟩ := exists_moves_close hr hclosable hdepth ht
    rw [steps_cons_of_moves hmoves]
    exact ih hts (hmoves.valid hr).1 hclosable' hdepth'

end Reader

/-- The tokens of parentheses. -/
theorem Token.map_kind_parentheses {p : Position} {cs : List Char}
    (h : ∀ c ∈ cs, c = '(' ∨ c = ')') :
    (significantAt p cs).map (·.kind) =
      cs.map fun c => if c = '(' then .leftParen else .rightParen := by
  induction cs generalizing p with
  | nil => simp
  | cons c cs ih =>
    obtain ⟨hc, hcs⟩ := List.forall_mem_cons.1 h
    have hkind : ∃ kind, Lexeme.punctuation? c = some kind ∧
        kind = if c = '(' then .leftParen else .rightParen := by
      rcases hc with rfl | rfl
      · exact ⟨_, rfl, rfl⟩
      · exact ⟨_, rfl, rfl⟩
    obtain ⟨kind, hpunctuation, rfl⟩ := hkind
    rw [significantAt_punctuation hpunctuation, List.map_cons, List.map_cons, ih hcs]
    rfl

namespace Reader

variable {frames : List Frame} {r : Reader}

/-- The text that finishes what a reader has begun: an empty list where a datum may be missing, and
then closing parentheses. -/
def completion : List Frame → List Char
  | .tailed left ds dot tail :: frames =>
    List.replicate (depth (.tailed left ds dot tail :: frames)) ')'
  | frames => '(' :: ')' :: List.replicate (depth frames) ')'

theorem mem_completion {c : Char} (hc : c ∈ completion frames) : c = '(' ∨ c = ')' := by
  unfold completion at hc
  split at hc <;> simp only [List.mem_cons, List.mem_replicate] at hc
  · exact .inr hc.2
  · rcases hc with hc | hc | ⟨-, hc⟩
    · exact .inl hc
    · exact .inr hc
    · exact .inr hc

theorem completion_of_isOpen (h : IsOpen frames) :
    completion frames = '(' :: ')' :: List.replicate (depth frames) ')' := by
  unfold completion
  split
  · exact h.elim
  · rfl

/-- Whatever a reader has begun can be finished. -/
theorem steps_completion (hr : r.Valid) (p : Position) :
    ∃ done, r.steps (Token.significantAt p (completion r.frames)) = .ok ⟨done, []⟩ := by
  obtain ⟨done, frames⟩ := r
  have hkinds := Token.map_kind_parentheses (p := p) fun c (hc : c ∈ completion frames) =>
    mem_completion hc
  by_cases hopen : IsOpen frames
  · simp only [completion_of_isOpen hopen, List.map_cons, List.map_replicate] at hkinds ⊢
    obtain ⟨left, ts, hts, hleft, hkinds⟩ := List.map_eq_cons_iff.1 hkinds
    obtain ⟨right, ts, rfl, hright, hkinds⟩ := List.map_eq_cons_iff.1 hkinds
    have hopens : Moves ⟨done, frames⟩ left _ := .opens hleft hopen
    have hcloses : Moves ⟨done, .list left [] :: frames⟩ right _ := .closes hright
    rw [hts, steps_cons_of_moves hopens, steps_cons_of_moves hcloses]
    obtain ⟨hdepth, hclosable⟩ := depth_finish done hopen hr.2 (.list left [] right)
    refine steps_closing ?_ (hcloses.valid (hopens.valid hr).1).1 hclosable
    simpa [hdepth] using hkinds
  · match frames, hopen with
    | .tailed left ds dot tail :: frames, _ =>
      refine steps_closing ?_ hr trivial
      simpa [completion] using hkinds
    | [], hopen | .quote _ :: _, hopen | .list _ _ :: _, hopen | .dotted _ _ _ :: _, hopen =>
      exact absurd trivial hopen

end Reader

open Reader

namespace Datum

/-! ## Texts -/

variable {source more : String} {F : List Datum}

theorem toList_newline (source more : String) :
    (source ++ "\n" ++ more).toList = source.toList ++ '\n' :: more.toList := by
  simp

/-- A text is read if its tokens leave nothing unfinished. -/
theorem readAll_eq_ok_iff :
    readAll source = .ok F ↔
      Reader.empty.steps (Token.significantAt .start source.toList) = .ok ⟨F.reverse, []⟩ := by
  rw [readAll, readTokens, Token.significant_eq]
  cases Reader.empty.steps (Token.significantAt .start source.toList) with
  | error e =>
    change Except.error e = .ok F ↔ _
    simp
  | ok r =>
    obtain ⟨done, frames⟩ := r
    cases frames with
    | nil =>
      change Except.ok done.reverse = .ok F ↔ _
      simp [List.reverse_eq_iff]
    | cons f fs =>
      change Except.error f.unfinished = .ok F ↔ _
      simp

/-- What is read is a well-formed forest with the tokens of the text. -/
theorem flattenAll_of_readAll (h : readAll source = .ok F) :
    AllWellFormed F ∧ flattenAll F = Token.significantAt .start source.toList := by
  rw [readAll, Token.significant_eq] at h
  exact (readTokens_eq_ok_iff fun t ht => Token.kind_of_mem_significantAt ht).1 h

/-- A reader that has taken the tokens of a text goes on with those of the lines after it. -/
theorem steps_newline {r : Reader}
    (h : Reader.empty.steps (Token.significantAt .start source.toList) = .ok r) (more : String) :
    Reader.empty.steps (Token.significantAt .start (source ++ "\n" ++ more).toList) =
      r.steps (Token.significantAt ((Position.start.after source.toList).step '\n') more.toList) := by
  rw [toList_newline]
  rcases Token.significantAt_newline .start source.toList more.toList with
    htokens | ⟨ts, t, rest, -, -, hts, hillegal, -⟩
  · rw [htokens, Token.significantAt_blank (by decide), steps_append, h]
    rfl
  · rw [hts] at h
    exact absurd hillegal (steps_append_cons h)

/-- A text without a token out of place can be completed on a new line. -/
theorem exists_readAll_of_steps {r : Reader}
    (h : Reader.empty.steps (Token.significantAt .start source.toList) = .ok r) :
    ∃ more F, readAll (source ++ "\n" ++ more) = .ok F := by
  obtain ⟨hvalid, -⟩ :=
    steps_sound (fun t ht => Token.kind_of_mem_significantAt ht) valid_empty h
  obtain ⟨done, hdone⟩ := steps_completion hvalid ((Position.start.after source.toList).step '\n')
  refine ⟨String.ofList (completion r.frames), done.reverse, readAll_eq_ok_iff.2 ?_⟩
  rw [steps_newline h, String.toList_ofList, List.reverse_reverse]
  exact hdone

/-- A text that cannot be read for a token out of place is not incomplete. -/
theorem steps_of_readAll_error {e : SyntaxError} (h : readAll source = .error e)
    (he : e.isIncomplete) :
    ∃ r, Reader.empty.steps (Token.significantAt .start source.toList) = .ok r := by
  rw [readAll, readTokens, Token.significant_eq] at h
  cases hsteps : Reader.empty.steps (Token.significantAt .start source.toList) with
  | error e' =>
    rw [hsteps] at h
    cases h
    simp [isIncomplete_of_steps hsteps] at he
  | ok r => exact ⟨r, rfl⟩

/-- What was read on more lines was begun on the lines before: they leave a reader that goes on to read
the rest, unless a string reaches over the end of a line. -/
theorem exists_steps_of_readAll (h : readAll (source ++ "\n" ++ more) = .ok F) :
    (∃ r ts, Reader.empty.steps (Token.significantAt .start source.toList) = .ok r ∧
      (∀ t ∈ ts, t.kind ≠ .endOfInput) ∧ r.steps ts = .ok ⟨F.reverse, []⟩) ∨
    ∃ t ∈ flattenAll F, t.kind = .string ∧ Lexeme.SpansLines t.text.toList := by
  obtain ⟨hF, hflatten⟩ := flattenAll_of_readAll h
  rw [readAll_eq_ok_iff, toList_newline] at h
  rw [toList_newline] at hflatten
  rcases Token.significantAt_newline .start source.toList more.toList with
    htokens | ⟨ts, -, -, t', rest', -, -, hts, hillegal | hstring⟩
  · left
    rw [htokens, steps_append] at h
    cases hsteps : Reader.empty.steps (Token.significantAt .start source.toList) with
    | error e =>
      rw [hsteps] at h
      cases h
    | ok r =>
      rw [hsteps] at h
      exact ⟨r, _, rfl, fun t ht => Token.kind_of_mem_significantAt ht, h⟩
  · rw [hts] at h
    exact absurd hillegal (steps_append_cons h)
  · refine .inr ⟨t', ?_, hstring⟩
    rw [hflatten, hts]
    simp

/-- Lines that are complete keep their data when more lines follow. -/
theorem exists_append_of_steps {r : Reader} {ts : List Token} {F' : List Datum}
    (hts : ∀ t ∈ ts, t.kind ≠ .endOfInput) (h : r.steps ts = .ok ⟨F'.reverse, []⟩) :
    ∃ F'', F' = r.done.reverse ++ F'' := by
  obtain ⟨front, hfront⟩ := steps_done_suffix hts h
  exact ⟨front.reverse, by simpa using (congrArg List.reverse hfront).symm⟩

end Datum

end TypedScheme
