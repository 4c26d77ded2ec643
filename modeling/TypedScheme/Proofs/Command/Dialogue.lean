import TypedScheme.Command.Repl
import TypedScheme.Proofs.Datum.Completion
import TypedScheme.Proofs.Expr.Acceptance
import TypedScheme.Proofs.Text.Quoted

/-!
# When the dialogue asks for another line

A text that does not parse is either incomplete or wrong. The dialogue asks for another line in the
first case only, and rightly so: an incomplete text has a continuation that can be read, and a wrong one
has no continuation that parses.

## What this module delivers

- `Program.parse_of_newline`: a text whose continuation parses is incomplete, or parses itself.
- `Program.parse_error_completable`: the two cases, and that the dialogue tells them apart.
-/

set_option autoImplicit false

namespace TypedScheme

open Datum

/-- Nothing is pending after an answer. -/
theorem Repl.pending_answer {r r' : Repl} {text : String} (h : (r.answer text).1 = some r') :
    r'.pending = "" := by
  unfold answer at h
  dsimp only at h
  split at h
  · cases h
    rfl
  · split at h
    · split at h <;> cases h <;> rfl
    · cases h
      rfl

namespace Program

/-- The head of a program is no string. -/
theorem allDecode_of_unwrap {F : List Datum} (h : AllDecode (unwrap F)) : AllDecode F := by
  unfold unwrap at h
  split at h
  · split at h
    · next hhead => exact ⟨⟨decodes_of_isSymbol hhead, h⟩, trivial⟩
    · exact h
  · exact h

/-- The forms of a program in parentheses are expressions also where the parentheses are those of an
application. -/
theorem readsAll_unwrap {k k' : Nat} {F : List Datum} {es : List Expr}
    (h : Expr.ReadsAll k F es k') : ∃ j es' j', Expr.ReadsAll j (unwrap F) es' j' := by
  unfold unwrap
  split
  · next left head rest right =>
    split
    · next hhead =>
      have hnone : Expr.headKeyword? [head] = none := by
        cases head with
        | atom t =>
          obtain ⟨hkind, htext⟩ : t.kind = .symbol ∧ t.text = programHead := by
            simpa [isSymbol, Token.isSymbol] using hhead
          simp only [Expr.headKeyword?, hkind, htext]
          rfl
        | quoted | list | dotted => cases hhead
      cases h with
      | cons he _ =>
        cases he with
        | app _ _ hes => exact ⟨_, _, _, hes⟩
        | quoteForm hkeyword | cond hkeyword | lambda hkeyword | letForm hkeyword
        | define hkeyword => simp [hnone] at hkeyword
    · exact ⟨_, _, _, h⟩
  · exact ⟨_, _, _, h⟩

theorem unwrap_append {F F' : List Datum} (hF : F ≠ []) (hF' : F' ≠ []) :
    unwrap (F ++ F') = F ++ F' := by
  obtain ⟨d, F, rfl⟩ := List.exists_cons_of_ne_nil hF
  obtain ⟨d', F', rfl⟩ := List.exists_cons_of_ne_nil hF'
  unfold unwrap
  split
  · next h => simp at h
  · rfl

/-- The forms of a text are expressions if they are the first of the forms of a longer one. -/
theorem readsAll_of_append {k k' : Nat} {F F' : List Datum} {es : List Expr}
    (h : Expr.ReadsAll k (unwrap (F ++ F')) es k') :
    ∃ j es' j', Expr.ReadsAll j (unwrap F) es' j' := by
  by_cases hF : F = []
  · subst hF
    exact ⟨0, [], 0, .nil⟩
  by_cases hF' : F' = []
  · subst hF'
    rw [List.append_nil] at h
    exact ⟨_, _, _, h⟩
  rw [unwrap_append hF hF'] at h
  obtain ⟨_, _, h⟩ := Expr.readsAll_append h
  exact readsAll_unwrap h

/-- A text whose continuation parses is incomplete, or parses by itself. -/
theorem parse_of_newline {source more : String} {k k' : Nat} {p : Program}
    (h : (parse (source ++ "\n" ++ more)).runFrom k = (.ok p, k')) (j : Nat) :
    (∃ e, readAll source = .error e ∧ e.isIncomplete) ∨
      ∃ p' j', (parse source).runFrom j = (.ok p', j') := by
  obtain ⟨F', hread, hforms⟩ := parse_eq_ok_iff.1 h
  rcases exists_steps_of_readAll hread with ⟨r, ts, hsteps, hend, hrest⟩ | ⟨t, ht, hkind, hlines⟩
  · obtain ⟨done, frames⟩ := r
    cases frames with
    | cons f fs =>
      -- A form is open where the source ends, so the source is incomplete.
      refine .inl ⟨f.unfinished, ?_, Reader.isIncomplete_unfinished f⟩
      rw [readAll, readTokens, Token.significant_eq, hsteps]
      rfl
    | nil =>
      right
      -- No form is open, so the data of the source are the first of the data that are read.
      have hsource : readAll source = .ok done.reverse := readAll_eq_ok_iff.2 (by simpa using hsteps)
      obtain ⟨F'', rfl⟩ := exists_append_of_steps hend hrest
      obtain ⟨_, _, _, hreads⟩ := readsAll_of_append hforms
      obtain ⟨es, j', hreads⟩ := hreads.exists_from j
      exact ⟨⟨es⟩, j', parse_eq_ok_iff.2 ⟨_, hsource, hreads⟩⟩
  · -- A string that reaches over the end of a line cannot be decoded.
    obtain ⟨inside, hinside, hnewline⟩ := hlines
    obtain ⟨hF', -⟩ := flattenAll_of_readAll hread
    have hdecode := allDecode_of_unwrap hforms.allDecode
    rw [flattenAll_eq_flatMap, List.mem_flatMap] at ht
    obtain ⟨d, hd, ht⟩ := ht
    have hsome := (allDecode_iff.1 hdecode d hd).isSome (allWellFormed_iff.1 hF' d hd) ht hkind
    obtain ⟨s, hs⟩ := Option.isSome_iff_exists.1 hsome
    exact absurd hnewline (Text.Quoted.newline_not_mem_of_decode? hinside hs)

/-- A text that cannot be read does not parse. -/
theorem parse_of_readAll_error {source : String} {e : SyntaxError} (h : readAll source = .error e)
    (k : Nat) : (parse source).runFrom k = (.error e, k) := by
  have hrun : (parse source).run ⟨k, []⟩ = (.error e, ⟨k, []⟩) :=
    run_bind_error (by rw [h]; rfl)
  rw [Parse.runFrom, hrun]

/-- A text that does not parse. With a fault that is not incomplete no continuation on a new line
parses, and with an incomplete one there is a continuation that can be read; and the dialogue waits for
another line in the second case only. -/
theorem parse_error_completable {source : String} {k k' : Nat} {e : SyntaxError}
    (h : (parse source).runFrom k = (.error e, k')) :
    (e.isIncomplete = false →
      ∀ more j, ∃ e', ((parse (source ++ "\n" ++ more)).runFrom j).1 = .error e') ∧
    (e.isIncomplete = true → ∃ more F, readAll (source ++ "\n" ++ more) = .ok F) ∧
    ∀ (r : Repl) (line : String), r.session.last = k →
      (if r.pending = "" then line else r.pending ++ "\n" ++ line) = source →
      ((r.step line).1.map Repl.pending = some source ↔ e.isIncomplete = true) := by
  refine ⟨fun hwrong more j => ?_, fun hincomplete => ?_, fun r line hlast htext => ?_⟩
  · rcases hmore : (parse (source ++ "\n" ++ more)).runFrom j with ⟨e' | p, j'⟩
    · exact ⟨e', rfl⟩
    · exfalso
      -- If the continuation parsed, the source would be incomplete or parse by itself.
      rcases parse_of_newline hmore k with ⟨e', he', hincomplete⟩ | ⟨p', k'', hp'⟩
      · rw [parse_of_readAll_error he'] at h
        cases h
        simp [hincomplete] at hwrong
      · rw [hp'] at h
        cases h
  · cases hread : readAll source with
    | error e' =>
      rw [parse_of_readAll_error hread] at h
      cases h
      obtain ⟨r, hr⟩ := steps_of_readAll_error hread hincomplete
      exact exists_readAll_of_steps hr
    | ok F => exact exists_readAll_of_steps (readAll_eq_ok_iff.1 hread)
  · have hopen : Repl.isOpen source k = (e.isIncomplete, k') := by rw [Repl.isOpen, h]
    have hne : source ≠ "" := by
      rintro rfl
      cases h
    simp only [Repl.step, htext, hlast, hopen]
    split
    · next hincomplete => simp [hincomplete]
    · next hwrong =>
      simp only [hwrong, Bool.false_eq_true, iff_false]
      intro hpending
      obtain ⟨r', hr', hsource⟩ := Option.map_eq_some_iff.1 hpending
      exact hne (hsource.symm.trans (Repl.pending_answer hr'))

/-- A text that ends inside a list behind a dot can be completed. One that ends inside a string cannot,
since the string would reach over the end of the line. -/
theorem parse_error_completable_openTail :
    (parse "('(a . ").runFrom 0 = (.error ⟨.unclosed, ⟨⟨2, 1, 3⟩, ⟨2, 1, 3⟩⟩⟩, 0) ∧
    (∃ more F, readAll ("('(a . " ++ "\n" ++ more) = .ok F) ∧
    (parse "'(a . \"b").runFrom 0 =
      (.error ⟨.illegal "unterminated string", ⟨⟨6, 1, 7⟩, ⟨8, 1, 9⟩⟩⟩, 0) ∧
    ∀ more j, ∃ e', ((parse ("'(a . \"b" ++ "\n" ++ more)).runFrom j).1 = .error e' := by
  have hopen : (parse "('(a . ").runFrom 0 = (.error ⟨.unclosed, ⟨⟨2, 1, 3⟩, ⟨2, 1, 3⟩⟩⟩, 0) := rfl
  have hwrong : (parse "'(a . \"b").runFrom 0 =
      (.error ⟨.illegal "unterminated string", ⟨⟨6, 1, 7⟩, ⟨8, 1, 9⟩⟩⟩, 0) := rfl
  exact ⟨hopen, (parse_error_completable hopen).2.1 rfl, hwrong,
    (parse_error_completable hwrong).1 rfl⟩

end Program

end TypedScheme
