import TypedScheme.Proofs.Datum.Writing

/-!
# Reading does not look at places

Two texts whose significant tokens have the same kinds and texts are read alike, whatever layout and
comments stand between the tokens: their data agree but for the places of their tokens, or both are at
the same fault.

## What this module delivers

- `SyntaxError.Alike R r₁ r₂`: two results are related by `R`, or two errors are the same fault.
- `Reader.Matches r r'`: two readers have agreeing data behind them and in their frames, with
  `Reader.alike_step` for one token and `Datum.alike_readTokens` for all of them.
- `Token.same_significant`: texts whose tokens agree but for layout and places have the same
  significant tokens.
-/

set_option autoImplicit false

namespace TypedScheme

/-! ## Results that are alike -/

/-- Two results are related by `R`, or two errors are the same fault. -/
inductive SyntaxError.Alike {α β : Type} (R : α → β → Prop) :
    Except SyntaxError α → Except SyntaxError β → Prop
  | ok {a : α} {b : β} : R a b → Alike R (.ok a) (.ok b)
  | error {e₁ e₂ : SyntaxError} : e₁.fault = e₂.fault → Alike R (.error e₁) (.error e₂)

namespace SyntaxError.Alike

variable {α β γ δ : Type} {R : α → β → Prop} {S : γ → δ → Prop}

/-- Two steps that are alike are so one after the other. -/
theorem bind {r₁ : Except SyntaxError α} {r₂ : Except SyntaxError β} {f : α → Except SyntaxError γ}
    {g : β → Except SyntaxError δ} (h : Alike R r₁ r₂)
    (hfg : ∀ a b, R a b → Alike S (f a) (g b)) : Alike S (r₁ >>= f) (r₂ >>= g) := by
  cases h with
  | ok hab => exact hfg _ _ hab
  | error he => exact .error he

end SyntaxError.Alike

/-! ## The reader -/

namespace Reader

open SyntaxError Datum

/-- Two unfinished data agree but for the places of their tokens. -/
inductive Frame.Matches : Frame → Frame → Prop
  | quote {mark mark' : Token} : Frame.Matches (.quote mark) (.quote mark')
  | list {left left' : Token} {ds ds' : List Datum} :
      List.Forall₂ Datum.Matches ds ds' → Frame.Matches (.list left ds) (.list left' ds')
  | dotted {left left' dot dot' : Token} {ds ds' : List Datum} :
      List.Forall₂ Datum.Matches ds ds' →
      Frame.Matches (.dotted left ds dot) (.dotted left' ds' dot')
  | tailed {left left' dot dot' : Token} {ds ds' : List Datum} {tail tail' : Datum} :
      List.Forall₂ Datum.Matches ds ds' → Datum.Matches tail tail' →
      Frame.Matches (.tailed left ds dot tail) (.tailed left' ds' dot' tail')

/-- Two readers have read the same but for the places of the tokens. -/
structure Matches (r r' : Reader) : Prop where
  done : List.Forall₂ Datum.Matches r.done r'.done
  frames : List.Forall₂ Frame.Matches r.frames r'.frames

/-- A datum that is over goes to its frame in both readers alike. -/
theorem matches_finish {done done' : List Datum} (hdone : List.Forall₂ Datum.Matches done done')
    {frames frames' : List Frame} (hframes : List.Forall₂ Frame.Matches frames frames')
    {d d' : Datum} (hd : Datum.Matches d d') :
    (finish done frames d).Matches (finish done' frames' d') := by
  induction hframes generalizing d d' with
  | nil => exact ⟨.cons hd hdone, .nil⟩
  | cons hframe hframes ih =>
    cases hframe with
    | quote =>
      -- A finished quote goes on to the next frame.
      exact ih (.quoted hd)
    | list hds => exact ⟨hdone, .cons (.list (.cons hd hds)) hframes⟩
    | dotted hds => exact ⟨hdone, .cons (.tailed hds hd) hframes⟩
    | tailed hds htail => exact ⟨hdone, .cons (.tailed hds htail) hframes⟩

/-- Where a datum or the end of a list is expected, matching readers take tokens of the same kind and
text alike. -/
theorem alike_accept {r r' : Reader} (h : r.Matches r') {t t' : Token} (ht : t.Same t') :
    Alike Matches (r.accept t) (r'.accept t') := by
  obtain ⟨done, frames⟩ := r
  obtain ⟨done', frames'⟩ := r'
  obtain ⟨hdone, hframes⟩ := h
  obtain ⟨hkind, htext⟩ := ht
  unfold accept
  rw [hkind]
  split
  · exact .ok ⟨hdone, .cons (.list .nil) hframes⟩
  · exact .ok ⟨hdone, .cons .quote hframes⟩
  · -- A closing parenthesis ends a list.
    cases hframes with
    | nil => exact .error rfl
    | cons hframe hframes =>
      cases hframe with
      | quote | dotted | tailed => exact .error rfl
      | list hds => exact .ok (matches_finish hdone hframes (.list (List.rel_reverse hds)))
  · -- A dot follows an element of a list.
    cases hframes with
    | nil => exact .error rfl
    | cons hframe hframes =>
      cases hframe with
      | quote | dotted | tailed => exact .error rfl
      | list hds =>
        cases hds with
        | nil => exact .error rfl
        | cons hd hds => exact .ok ⟨hdone, .cons (.dotted (.cons hd hds)) hframes⟩
  · exact .error (by rw [htext])
  · exact .ok (matches_finish hdone hframes (.atom ⟨hkind, htext⟩))

/-- A step on tokens of one text is alike in both readers. -/
theorem alike_step {r r' : Reader} (h : r.Matches r') {t t' : Token} (ht : t.Same t') :
    Alike Matches (r.step t) (r'.step t') := by
  obtain ⟨done, frames⟩ := r
  obtain ⟨done', frames'⟩ := r'
  obtain ⟨hdone, hframes⟩ := h
  cases hframes with
  | nil => exact alike_accept ⟨hdone, .nil⟩ ht
  | cons hframe hframes =>
    cases hframe with
    | quote => exact alike_accept ⟨hdone, .cons .quote hframes⟩ ht
    | list hds => exact alike_accept ⟨hdone, .cons (.list hds) hframes⟩ ht
    | dotted hds => exact alike_accept ⟨hdone, .cons (.dotted hds) hframes⟩ ht
    | tailed hds htail =>
      -- After a tail only the kind of the token counts.
      unfold step
      dsimp only
      rw [ht.1]
      split
      · exact .ok (matches_finish hdone hframes (.dotted (List.rel_reverse hds) htail))
      · exact .error rfl

/-- Steps on tokens of the same texts are alike in both readers. -/
theorem alike_steps {r r' : Reader} (h : r.Matches r') {ts ts' : List Token}
    (hts : List.Forall₂ Token.Same ts ts') : Alike Matches (r.steps ts) (r'.steps ts') := by
  induction hts generalizing r r' with
  | nil => exact .ok h
  | cons ht _ ih => exact (alike_step h ht).bind fun _ _ h => ih h

theorem alike_close {r r' : Reader} (h : r.Matches r') :
    Alike (List.Forall₂ Datum.Matches) r.close r'.close := by
  obtain ⟨done, frames⟩ := r
  obtain ⟨done', frames'⟩ := r'
  obtain ⟨hdone, hframes⟩ := h
  cases hframes with
  | nil => exact .ok (List.rel_reverse hdone)
  | cons hframe _ => cases hframe <;> exact .error rfl

end Reader

namespace Datum

/-- Tokens of the same kinds and texts spell data that agree, or have the same fault. -/
theorem alike_readTokens {ts ts' : List Token} (h : List.Forall₂ Token.Same ts ts') :
    SyntaxError.Alike (List.Forall₂ Matches) (readTokens ts) (readTokens ts') :=
  (Reader.alike_steps ⟨.nil, .nil⟩ h).bind fun _ _ hr => Reader.alike_close hr

end Datum

/-! ## Significant tokens -/

namespace Token

/-- Grouping leaves the tokens that are not layout. -/
theorem map_token_groupFrom (layout ts : List Token) :
    (Spaced.groupFrom layout ts).map Spaced.token = ts.filter fun t => !t.kind.isLayout := by
  induction ts generalizing layout with
  | nil => rfl
  | cons t ts ih =>
    rw [Spaced.groupFrom]
    cases h : t.kind.isLayout with
    | true => simp [h, ih]
    | false => simp [h, ih]

/-- The significant tokens are those with layout in front of them, without the end of the input. -/
theorem significant_eq_filter [Text.IdentifierClasses] (source : String) :
    significant source =
      ((scanSpaced source).map Spaced.token).filter fun t => t.kind ≠ .endOfInput := by
  rw [significant, scanSpaced, Spaced.group, map_token_groupFrom, List.filter_filter]
  simp only [Bool.and_comm]

/-- What counts of a token when it is read: its kind and its text. -/
def content (t : Token) : Kind × String := (t.kind, t.text)

theorem same_of_content_eq {t t' : Token} (h : t.content = t'.content) : t.Same t' :=
  ⟨(congrArg Prod.fst h).symm, (congrArg Prod.snd h).symm⟩

/-- Texts whose tokens have the same contents but for layout have the same significant tokens. -/
theorem same_significant [Text.IdentifierClasses] {source source' : String}
    (h : (scanSpaced source).map (fun s => s.token.content) =
      (scanSpaced source').map fun s => s.token.content) :
    List.Forall₂ Same (significant source) (significant source') := by
  rw [← List.forall₂_eq_eq_eq, List.forall₂_map_left_iff, List.forall₂_map_right_iff] at h
  rw [significant_eq_filter, significant_eq_filter]
  refine List.rel_filter (fun t t' ht => by simp only [ht.1]) ?_
  rw [List.forall₂_map_left_iff, List.forall₂_map_right_iff]
  exact h.imp fun s s' hs => same_of_content_eq hs

end Token

end TypedScheme
