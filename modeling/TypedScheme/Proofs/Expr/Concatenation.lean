import TypedScheme.Expr.Printer
import TypedScheme.Proofs.Datum.Completion
import TypedScheme.Proofs.Expr.Relocation
import TypedScheme.Proofs.Expr.Shift
import TypedScheme.Proofs.Token.Tiling

/-!
# Texts one after the other

Two texts that are programs are a program together when a line feed stands between them. Its forms are
those of the first text and then those of the second, which have only moved down: their offsets grow by
the characters in front of them, their lines by the line feeds, and their columns stay. A text that is
one whole-program form is the exception, since that form is opened only if it stands alone.

## What this module delivers

- `Relocation.down cs`, the move of a text that comes to stand behind the characters `cs`.
- `Datum.readAll_append_newline`: the data of two texts.
- `Program.isWrapped`, the texts that are one whole-program form.
- `Program.parse_append_newline`: the program of two texts.
-/

set_option autoImplicit false

namespace TypedScheme

/-! ## The move -/

namespace Relocation

/-- The move of a text that comes to stand behind the characters `cs`, the last of which ends a
line. -/
def down (cs : List Char) : Relocation where
  move p := ⟨p.offset + cs.length, p.line + cs.count '\n', p.column⟩
  column_eq_zero_iff _ := Iff.rfl
  offset_lt_iff _ _ := Int.add_lt_add_iff_right _

theorem move_down_step (cs : List Char) (p : Position) (c : Char) :
    (down cs).move (p.step c) = ((down cs).move p).step c := by
  by_cases hc : c = '\n'
  · simp only [Position.step, hc, if_true, down, Position.mk.injEq, and_true]
    omega
  · simp only [Position.step, hc, if_false, down, Position.mk.injEq, and_true]
    omega

/-- The line after a text begins where the start of a text is moved to. -/
theorem move_down_start (cs : List Char) :
    (down (cs ++ ['\n'])).move .start = (Position.start.after cs).step '\n' := by
  rw [Position.start_after, Position.ofOffset, List.take_length]
  simp only [down, Position.start, Position.step, List.length_append, List.count_append,
    List.length_singleton, List.count_singleton_self, if_true, Position.mk.injEq, and_true]
  omega

end Relocation

open Relocation

/-! ## Data -/

namespace Datum

variable {s₁ s₂ : String} {F₁ F₂ : List Datum}

/-- The data of two texts with a line feed between them: those of the second have moved down. -/
theorem readAll_append_newline (h₁ : readAll s₁ = .ok F₁) (h₂ : readAll s₂ = .ok F₂) :
    readAll (s₁ ++ "\n" ++ s₂) =
      .ok (F₁ ++ relocateAll (down (s₁ ++ "\n").toList) F₂) := by
  obtain ⟨hwf₂, hflatten₂⟩ := flattenAll_of_readAll h₂
  have hplace : (Position.start.after s₁.toList).step '\n' =
      (down (s₁ ++ "\n").toList).move .start := by
    rw [String.toList_append]
    exact (move_down_start _).symm
  -- The reader has finished the first text, and goes on with the tokens of the second.
  rw [readAll_eq_ok_iff, steps_newline (readAll_eq_ok_iff.1 h₁), hplace,
    Token.significantAt_relocate (move_down_step _), ← hflatten₂, ← flattenAll_relocate,
    List.reverse_append]
  exact steps_forest ((allWellFormed_relocate _).2 hwf₂) F₁.reverse

end Datum

/-! ## Programs -/

theorem Expr.ReadsAll.append {k k₁ k₂ : Nat} {ds₁ ds₂ : List Datum} {es₁ es₂ : List Expr}
    (h₁ : ReadsAll k ds₁ es₁ k₁) (h₂ : ReadsAll k₁ ds₂ es₂ k₂) :
    ReadsAll k (ds₁ ++ ds₂) (es₁ ++ es₂) k₂ := by
  induction ds₁ generalizing k es₁ with
  | nil =>
    cases h₁
    exact h₂
  | cons d ds₁ ih =>
    cases h₁ with
    | cons hd hds => exact .cons hd (ih hds)

namespace Program

/-- Data that are one list with the head of a program. -/
def wraps : List Datum → Bool
  | [.list _ (head :: _) _] => head.isSymbol programHead
  | _ => false

/-- A text that consists of one whole-program form. -/
def isWrapped (source : String) : Bool := (Datum.readAll source).toOption.any wraps

theorem wraps_iff {ds : List Datum} :
    wraps ds ↔
      ∃ left head rest right, ds = [.list left (head :: rest) right] ∧ head.isSymbol programHead := by
  constructor
  · intro h
    unfold wraps at h
    split at h
    · exact ⟨_, _, _, _, rfl, h⟩
    · cases h
  · rintro ⟨left, head, rest, right, rfl, hhead⟩
    exact hhead

theorem unwrap_of_not_wraps {ds : List Datum} (h : ¬wraps ds) : unwrap ds = ds := by
  unfold unwrap
  split
  · exact if_neg h
  · rfl

/-- A whole-program form does not become one by being moved. -/
theorem wraps_of_relocateAll {r : Relocation} {ds : List Datum}
    (h : wraps (Datum.relocateAll r ds)) : wraps ds := by
  obtain ⟨left, head, rest, right, hds, hhead⟩ := wraps_iff.1 h
  rw [Datum.relocateAll_eq_map, List.map_eq_singleton_iff] at hds
  obtain ⟨d, rfl, hd⟩ := hds
  cases d with
  | atom | quoted | dotted => cases hd
  | list left' ds right' =>
    rw [Datum.relocate, Datum.relocateAll_eq_map] at hd
    injection hd with _ hds _
    obtain ⟨head', rest', rfl, rfl, -⟩ := List.map_eq_cons_iff.1 hds
    rw [Datum.isSymbol_relocate] at hhead
    exact hhead

/-- Data in a row are one whole-program form only if a part of them is. -/
theorem wraps_append {ds₁ ds₂ : List Datum} (h : wraps (ds₁ ++ ds₂)) : wraps ds₁ ∨ wraps ds₂ := by
  obtain ⟨left, head, rest, right, hds, hhead⟩ := wraps_iff.1 h
  rcases List.append_eq_singleton_iff.1 hds with ⟨-, hds⟩ | ⟨hds, -⟩
  · exact .inr (wraps_iff.2 ⟨left, head, rest, right, hds, hhead⟩)
  · exact .inl (wraps_iff.2 ⟨left, head, rest, right, hds, hhead⟩)

/-- A text that is a program is one after every number. -/
theorem exists_parse_of_parse {source : String} {j j' : Nat} {p : Program}
    (h : (parse source).runFrom j = (.ok p, j')) (k : Nat) :
    ∃ q k', (parse source).runFrom k = (.ok q, k') := by
  have hsame := sameReading_parse source j k
  rw [h] at hsame
  generalize (parse source).runFrom k = outcome at hsame
  obtain ⟨outcome, k'⟩ := outcome
  cases hsame with
  | ok => exact ⟨_, k', rfl⟩

theorem exists_parse_of_isSome (source : String) (k : Nat)
    (h : ((parse source).runFrom k).1.toOption.isSome) :
    ∃ p k', (parse source).runFrom k = (.ok p, k') := by
  obtain ⟨p, hp⟩ := Option.isSome_iff_exists.1 h
  exact ⟨p, _, Prod.ext (toOption_eq_some_iff.1 hp) rfl⟩

variable {s₁ s₂ : String} {j₁ j₁' j₂ j₂' : Nat} {q₁ q₂ : Program}

/-- Two texts that are programs, neither of them one whole-program form, are a program together when a
line feed stands between them. Its forms are those of the first text and then those of the second,
moved down behind the line feed. The type variables are numbered as if the first text and then the
second were parsed after the same number. -/
theorem parse_append_newline (h₁ : (parse s₁).runFrom j₁ = (.ok q₁, j₁'))
    (h₂ : (parse s₂).runFrom j₂ = (.ok q₂, j₂')) (hwhole₁ : ¬isWrapped s₁) (hwhole₂ : ¬isWrapped s₂)
    (k : Nat) :
    ∃ p₁ k₁ p₂ k₂, (parse s₁).runFrom k = (.ok p₁, k₁) ∧ (parse s₂).runFrom k₁ = (.ok p₂, k₂) ∧
      (parse (s₁ ++ "\n" ++ s₂)).runFrom k =
        (.ok ⟨p₁.forms ++ Expr.relocateAll (down (s₁ ++ "\n").toList) p₂.forms⟩, k₂) := by
  -- The second text starts from the number that the first one ends with.
  obtain ⟨p₁, k₁, hp₁⟩ := exists_parse_of_parse h₁ k
  obtain ⟨p₂, k₂, hp₂⟩ := exists_parse_of_parse h₂ k₁
  refine ⟨p₁, k₁, p₂, k₂, hp₁, hp₂, ?_⟩
  obtain ⟨ds₁, hds₁, hreads₁⟩ := parse_eq_ok_iff.1 hp₁
  obtain ⟨ds₂, hds₂, hreads₂⟩ := parse_eq_ok_iff.1 hp₂
  have hnot₁ : ¬wraps ds₁ := by simpa [isWrapped, hds₁, Except.toOption] using hwhole₁
  have hnot₂ : ¬wraps ds₂ := by simpa [isWrapped, hds₂, Except.toOption] using hwhole₂
  rw [unwrap_of_not_wraps hnot₁] at hreads₁
  rw [unwrap_of_not_wraps hnot₂] at hreads₂
  refine parse_eq_ok_iff.2 ⟨_, Datum.readAll_append_newline hds₁ hds₂, ?_⟩
  -- Nothing is opened in the two texts together, so their forms are read one after the other.
  rw [unwrap_of_not_wraps]
  · exact hreads₁.append hreads₂.relocate
  · intro hwraps
    rcases wraps_append hwraps with h | h
    · exact hnot₁ h
    · exact hnot₂ (wraps_of_relocateAll h)

/-- The line feed ends the comment that the first text leaves open, and the list with the head of a
program is an application, since another form stands before it. The forms of the second text stand on the
lines after the first, and its type variable has the number after those of the first. -/
theorem parse_append_newline_comment :
    let s₁ := "(define (same : (T -> T)) (lambda ((x : T)) : T x)) ; one form"
    let s₂ := "(same (lambda ((x : T)) : T x))\n(L5 same)"
    ¬isWrapped s₁ ∧ ¬isWrapped s₂ ∧
      ∃ p₁ k₁ p₂ k₂, (parse s₁).runFrom 4 = (.ok p₁, k₁) ∧ (parse s₂).runFrom k₁ = (.ok p₂, k₂) ∧
        (parse (s₁ ++ "\n" ++ s₂)).runFrom 4 =
          (.ok ⟨p₁.forms ++ Expr.relocateAll (down (s₁ ++ "\n").toList) p₂.forms⟩, k₂) ∧
        (p₁.forms ++ Expr.relocateAll (down (s₁ ++ "\n").toList) p₂.forms).map
            (fun e => (e.render, e.span)) =
          [("(define (same : (T_5 -> T_5)) (lambda ((x : T_6)) : T_6 x))", ⟨⟨0, 1, 1⟩, ⟨50, 1, 51⟩⟩),
            ("(same (lambda ((x : T_7)) : T_7 x))", ⟨⟨63, 2, 1⟩, ⟨93, 2, 31⟩⟩),
            ("(L5 same)", ⟨⟨95, 3, 1⟩, ⟨103, 3, 9⟩⟩)] := by
  intro s₁ s₂
  have hwhole₁ : ¬isWrapped s₁ := by decide +kernel
  have hwhole₂ : ¬isWrapped s₂ := by decide +kernel
  obtain ⟨_, _, h₁⟩ := exists_parse_of_isSome s₁ 0 (by decide +kernel)
  obtain ⟨_, _, h₂⟩ := exists_parse_of_isSome s₂ 0 (by decide +kernel)
  obtain ⟨p₁, k₁, p₂, k₂, hp₁, hp₂, hp⟩ := parse_append_newline h₁ h₂ hwhole₁ hwhole₂ 4
  have hforms : ((parse (s₁ ++ "\n" ++ s₂)).runFrom 4).1.toOption.map
      (fun p => p.forms.map fun e => (e.render, e.span)) =
        some [("(define (same : (T_5 -> T_5)) (lambda ((x : T_6)) : T_6 x))", ⟨⟨0, 1, 1⟩, ⟨50, 1, 51⟩⟩),
          ("(same (lambda ((x : T_7)) : T_7 x))", ⟨⟨63, 2, 1⟩, ⟨93, 2, 31⟩⟩),
          ("(L5 same)", ⟨⟨95, 3, 1⟩, ⟨103, 3, 9⟩⟩)] := by decide +kernel
  rw [hp] at hforms
  exact ⟨hwhole₁, hwhole₂, p₁, k₁, p₂, k₂, hp₁, hp₂, hp, Option.some.inj hforms⟩

end Program

end TypedScheme
