/-!
# Sets of code points

A character class is a list of inclusive ranges of code points, in ascending order and without
overlaps, so that a search may stop at the first range that starts above the character.
-/

set_option autoImplicit false

namespace TypedScheme.Text

/-- Inclusive ranges of code points, ascending and disjoint. -/
abbrev CodeRanges := List (Nat × Nat)

/-- Whether one of the ranges holds the code point. -/
def CodeRanges.holds : CodeRanges → Nat → Bool
  | [], _ => false
  | (lo, hi) :: rest, n => if n < lo then false else if n ≤ hi then true else holds rest n

theorem CodeRanges.exists_of_holds {ranges : CodeRanges} {n : Nat} (h : ranges.holds n = true) :
    ∃ r ∈ ranges, r.1 ≤ n ∧ n ≤ r.2 := by
  fun_induction CodeRanges.holds ranges n with
  | case1 => cases h
  | case2 => cases h
  | case3 lo hi rest n hlo hhi => exact ⟨(lo, hi), List.mem_cons_self, Nat.le_of_not_lt hlo, hhi⟩
  | case4 lo hi rest n hlo hhi ih =>
    obtain ⟨r, hr, hn⟩ := ih h
    exact ⟨r, List.mem_cons_of_mem _ hr, hn⟩

/-- Whether no code point is in a range of both lists. -/
def CodeRanges.areDisjoint (first second : CodeRanges) : Bool :=
  first.all fun a => second.all fun b => decide (a.2 < b.1 ∨ b.2 < a.1)

theorem CodeRanges.not_holds_of_areDisjoint {first second : CodeRanges} {n : Nat}
    (h : first.areDisjoint second = true) (hn : first.holds n = true) : second.holds n = false := by
  obtain ⟨a, ha, hna⟩ := exists_of_holds hn
  rw [← Bool.not_eq_true]
  intro hsecond
  obtain ⟨b, hb, hnb⟩ := exists_of_holds hsecond
  have := of_decide_eq_true (List.all_eq_true.1 (List.all_eq_true.1 h a ha) b hb)
  omega

end TypedScheme.Text
