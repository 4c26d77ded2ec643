import Mathlib.Tactic.IntervalCases
import TypedScheme.Number.Numeral
import TypedScheme.Proofs.Number.Shortest

/-!
# Numbers, written and read

A number is written as a decimal numeral, positionally or with an exponent. A positional numeral is
read as the number it was written for.

## What this module delivers

- `Numeral.plain sign whole part`, the numerals without an exponent, and `Numeral.read?_plain`: they
  are read as decimals.
- `Binary64.render_cases`: the text of a finite number is a plain numeral that is read as the number,
  or a plain numeral with an exponent after it.
-/

set_option autoImplicit false

namespace TypedScheme

namespace Numeral

/-! ## Digits -/

/-- All characters are decimal digits. -/
def Digits (ds : List Char) : Prop := ∀ c ∈ ds, isDigit c = true

theorem Digits.append {ds es : List Char} (hds : Digits ds) (hes : Digits es) : Digits (ds ++ es) :=
  List.forall_mem_append.2 ⟨hds, hes⟩

theorem digits_zeros (n : Nat) : Digits (Decimal.zeros n) := by
  intro c hc
  rw [Decimal.zeros] at hc
  rw [List.eq_of_mem_replicate hc]
  decide

theorem isDigit_iff {c : Char} : isDigit c = true ↔ 48 ≤ c.toNat ∧ c.toNat ≤ 57 := by
  simp only [isDigit, Bool.and_eq_true, decide_eq_true_eq]
  exact Iff.rfl

/-- The digits of a number are digits. -/
theorem digits_toDigits (n : Nat) : Digits (Nat.toDigits 10 n) := by
  intro c hc
  have h := Nat.isDigit_of_mem_toDigits (by decide) (by decide) hc
  simp only [Char.isDigit, Bool.and_eq_true, decide_eq_true_eq] at h
  exact isDigit_iff.2 h

theorem digitValue_eq {c : Char} (h : isDigit c = true) : digitValue c = c.toNat - 48 := by
  rw [digitValue, if_pos]
  exact (isDigit_iff.1 h).2

/-- Digits are worth what they are in base ten. -/
theorem foldl_digits {ds : List Char} (hds : Digits ds) (n : Nat) :
    ds.foldl (fun n d => n * 10 + digitValue d) n = Nat.ofDigitChars 10 ds n := by
  induction ds generalizing n with
  | nil => rfl
  | cons d ds ih =>
    obtain ⟨hd, hds⟩ := List.forall_mem_cons.1 hds
    rw [List.foldl_cons, ih hds, digitValue_eq hd, Nat.mul_comm n 10]
    rfl

/-- The digits of a number are worth the number. -/
theorem value_toDigits (n : Nat) : value 10 (Nat.toDigits 10 n) = n := by
  rw [value, foldl_digits (digits_toDigits n), Nat.ofDigitChars_ten_toDigits]

/-- Zeros behind digits multiply what they are worth. -/
theorem value_append_zeros (ds : List Char) (n : Nat) :
    value 10 (ds ++ Decimal.zeros n) = value 10 ds * 10 ^ n := by
  induction n with
  | zero => simp [Decimal.zeros]
  | succ n ih =>
    rw [Decimal.zeros, List.replicate_succ', ← List.append_assoc, ← Decimal.zeros]
    rw [value, List.foldl_append, ← value, ih]
    change value 10 ds * 10 ^ n * 10 + 0 = _
    ring

theorem value_zeros_append (ds : List Char) (n : Nat) :
    value 10 (Decimal.zeros n ++ ds) = value 10 ds := by
  induction n with
  | zero => rfl
  | succ n ih => exact ih

/-! ## Numerals without an exponent -/

/-- The digits behind a point, if there are any. -/
def fractionText (part : List Char) : List Char := if part.isEmpty then [] else '.' :: part

/-- A numeral without an exponent. -/
def plain (sign whole part : List Char) : List Char := sign ++ whole ++ fractionText part

/-- The signs that a numeral may have, and none. -/
def signs : List (List Char) := [[], ['+'], ['-']]

/-- The parts of a numeral without an exponent. -/
structure IsPlain (sign whole part : List Char) : Prop where
  sign_mem : sign ∈ signs
  whole_ne_nil : whole ≠ []
  whole : Digits whole
  part : Digits part

theorem separated_of_not_mem {isDig : Char → Bool} {cs : List Char} (h : '_' ∉ cs) (prior : Bool) :
    separated isDig prior cs = true := by
  fun_induction separated isDig prior cs with
  | case1 => rfl
  | case2 => exact absurd List.mem_cons_self h
  | case3 => exact absurd List.mem_cons_self h
  | case4 prior c rest _ ih => exact ih fun hmem => h (List.mem_cons_of_mem c hmem)

/-- A run of characters of a class ends in front of a character that is not in the class. -/
theorem takeWhile_run {q : Char → Bool} {cs : List Char} (hcs : ∀ c ∈ cs, q c = true)
    (rest : List Char) (hrest : ∀ c ∈ rest.head?, q c = false) :
    (cs ++ rest).takeWhile q = cs ∧ (cs ++ rest).dropWhile q = rest := by
  induction cs with
  | nil =>
    cases rest with
    | nil => exact ⟨rfl, rfl⟩
    | cons c rest =>
      have hc : q c = false := hrest c rfl
      simp [hc]
  | cons c cs ih =>
    obtain ⟨hc, hcs⟩ := List.forall_mem_cons.1 hcs
    obtain ⟨htake, hdrop⟩ := ih hcs
    simp [hc, htake, hdrop]

/-- The digits of a numeral are found on both sides of its point. -/
theorem mantissa?_plain {whole part : List Char} (hne : whole ≠ []) (hwhole : Digits whole)
    (hpart : Digits part) :
    mantissa? isDigit (whole ++ fractionText part) = some (whole, part, []) := by
  have hsplit := takeWhile_run hwhole (fractionText part) (by
    unfold fractionText
    split <;> simp [isDigit])
  have hempty : whole.isEmpty = false := by simpa using hne
  unfold mantissa?
  rw [hsplit.1, hsplit.2]
  cases part with
  | nil => simp [fractionText, hempty]
  | cons c part =>
    have htake := takeWhile_run hpart [] (by simp)
    rw [List.append_nil] at htake
    simp only [fractionText, List.isEmpty_cons, Bool.false_eq_true, if_false]
    rw [htake.1, htake.2]
    simp

/-- The characters of a numeral without an exponent. -/
theorem mem_plain {sign whole part : List Char} (h : IsPlain sign whole part) {c : Char}
    (hc : c ∈ plain sign whole part) : isDigit c = true ∨ c = '.' ∨ c = '+' ∨ c = '-' := by
  rw [plain, List.mem_append, List.mem_append] at hc
  rcases hc with (hc | hc) | hc
  · have := h.sign_mem
    simp only [signs, List.mem_cons, List.not_mem_nil, or_false] at this
    rcases this with rfl | rfl | rfl <;> simp at hc <;> simp [hc]
  · exact .inl (h.whole c hc)
  · unfold fractionText at hc
    split at hc
    · simp at hc
    · rcases List.mem_cons.1 hc with rfl | hc
      · exact .inr (.inl rfl)
      · exact .inl (h.part c hc)

/-- The sign is split off a plain numeral. -/
theorem splitSign_plain {sign whole part : List Char} (h : IsPlain sign whole part) :
    splitSign (plain sign whole part) =
      (decide (sign = ['-']), whole ++ fractionText part) := by
  obtain ⟨d, ds, rfl⟩ := List.exists_cons_of_ne_nil h.whole_ne_nil
  have hd : isDigit d = true := h.whole d List.mem_cons_self
  have hsign := h.sign_mem
  simp only [signs, List.mem_cons, List.not_mem_nil, or_false] at hsign
  rcases hsign with rfl | rfl | rfl
  · -- A digit is no sign.
    rw [plain, List.nil_append, List.cons_append, splitSign]
    · simp
    · rintro _ h
      cases h
      simp [isDigit] at hd
    · rintro _ h
      cases h
      simp [isDigit] at hd
  · rfl
  · rfl

theorem toLower_ne_of_isDigit {c : Char} (h : isDigit c = true) :
    c.toLower ≠ 'i' ∧ c.toLower ≠ 'n' := by
  have hc := isDigit_iff.1 h
  have hlower : c.toLower = c := by
    unfold Char.toLower
    rw [dif_neg]
    intro hupper
    have : 65 ≤ c.toNat := hupper.1
    omega
  rw [hlower]
  constructor <;> rintro rfl <;> simp at hc

/-- A numeral starts with a digit behind its sign, so its body is no name. -/
theorem map_toLower_body_ne {sign whole part : List Char} (h : IsPlain sign whole part)
    (name : List Char) : (whole ++ fractionText part).map Char.toLower ≠ 'i' :: name := by
  obtain ⟨d, ds, rfl⟩ := List.exists_cons_of_ne_nil h.whole_ne_nil
  intro hname
  exact (toLower_ne_of_isDigit (h.whole d List.mem_cons_self)).1 (List.cons.inj hname).1

theorem map_toLower_plain_ne {sign whole part : List Char} (h : IsPlain sign whole part)
    (name : List Char) : (plain sign whole part).map Char.toLower ≠ 'n' :: name := by
  obtain ⟨d, ds, rfl⟩ := List.exists_cons_of_ne_nil h.whole_ne_nil
  have hsign := h.sign_mem
  simp only [signs, List.mem_cons, List.not_mem_nil, or_false] at hsign
  intro hname
  rcases hsign with rfl | rfl | rfl
  · exact (toLower_ne_of_isDigit (h.whole d List.mem_cons_self)).2 (List.cons.inj hname).1
  · exact absurd (List.cons.inj hname).1 (by decide)
  · exact absurd (List.cons.inj hname).1 (by decide)

/-- A numeral without an exponent is read as a decimal. -/
theorem read?_plain {sign whole part : List Char} (h : IsPlain sign whole part) :
    read? (String.ofList (plain sign whole part)) =
      Binary64.ofDecimal? (sign = ['-']) (value 10 (whole ++ part)) (-part.length) := by
  have hmem : ∀ c ∈ whole ++ fractionText part, isDigit c = true ∨ c = '.' ∨ c = '+' ∨ c = '-' :=
    fun c hc => mem_plain h (by rw [plain, List.append_assoc]; exact List.mem_append_right sign hc)
  have hdecimal : decimal? (sign = ['-']) (whole ++ fractionText part) =
      Binary64.ofDecimal? (sign = ['-']) (value 10 (whole ++ part)) (-part.length) := by
    simp [decimal?, mantissa?_plain h.whole_ne_nil h.whole h.part]
  have hunderscore : '_' ∉ whole ++ fractionText part := by
    intro hc
    simpa [isDigit] using hmem _ hc
  have hfilter : (whole ++ fractionText part).filter (· ≠ '_') = whole ++ fractionText part := by
    refine List.filter_eq_self.2 fun c hc => ?_
    simp only [ne_eq, decide_not, Bool.not_eq_true', decide_eq_false_iff_not]
    rintro rfl
    exact hunderscore hc
  unfold read?
  simp only [String.toList_ofList, splitSign_plain h, hfilter]
  -- The names of an infinity and of no number are tried first.
  rw [if_neg (by
    rw [Bool.or_eq_true, decide_eq_true_eq, decide_eq_true_eq, not_or]
    exact ⟨map_toLower_body_ne h _, map_toLower_body_ne h _⟩),
    if_neg (show _ ≠ "nan".toList from map_toLower_plain_ne h _)]
  split
  · next x digits hbody =>
    -- A numeral with the mark of another base has a letter in it.
    have hx : isDigit x = true ∨ x = '.' ∨ x = '+' ∨ x = '-' := hmem x (by rw [hbody]; simp)
    rw [if_neg, if_pos (separated_of_not_mem hunderscore false), hdecimal]
    rw [Bool.or_eq_true, decide_eq_true_eq, decide_eq_true_eq]
    rintro (rfl | rfl) <;> simp [isDigit] at hx
  · rw [if_pos (separated_of_not_mem hunderscore false), hdecimal]

end Numeral

open Numeral

/-! ## Decimals as text -/

namespace Decimal

/-- Digits without the zeros at their end are those of the number without its powers of ten. -/
theorem exists_trimZeros {n : Nat} (hn : 0 < n) :
    ∃ m z, 0 < m ∧ n = m * 10 ^ z ∧ trimZeros (Nat.toDigits 10 n) = Nat.toDigits 10 m := by
  induction n using Nat.strong_induction_on with
  | _ n ih =>
    by_cases hzero : n % 10 = 0
    · -- One zero is dropped, and the others are those of a tenth of the number.
      obtain ⟨m, z, hm, hn', htrim⟩ := ih (n / 10) (by omega) (by omega)
      refine ⟨m, z + 1, hm, by rw [Nat.pow_succ, ← Nat.mul_assoc, ← hn']; omega, ?_⟩
      rw [← htrim, Nat.toDigits_of_base_le (by decide) (by omega), hzero]
      simp [trimZeros]
    · refine ⟨n, 0, hn, by simp, ?_⟩
      have hlast : (n % 10).digitChar ≠ '0' := by
        have : n % 10 < 10 := Nat.mod_lt n (by decide)
        interval_cases n % 10 <;> first | exact absurd rfl hzero | decide
      rw [Nat.toDigits_eq_if (by decide)]
      split
      · next hlt =>
        rw [Nat.mod_eq_of_lt hlt] at hlast
        simp [trimZeros, hlast]
      · simp [trimZeros, hlast]

/-- The layout without an exponent is a plain numeral with the value of its digits at their
place. -/
theorem exists_positional {ds : List Char} (hne : ds ≠ []) (hds : Digits ds) (exponent : Int) :
    ∃ (whole part : List Char) (z : Nat), positional ds exponent = whole ++ fractionText part ∧
      whole ≠ [] ∧ Digits whole ∧ Digits part ∧ value 10 (whole ++ part) = value 10 ds * 10 ^ z ∧
      (z : Int) - part.length = exponent - (ds.length - 1 : Nat) := by
  have hlen : 0 < ds.length := List.length_pos_iff.2 hne
  unfold positional
  split
  · next hexp =>
    obtain ⟨w, hw⟩ : ∃ w, exponent.toNat + 1 = w + 1 := ⟨_, rfl⟩
    dsimp only
    rw [hw]
    rcases Nat.lt_or_ge (w + 1) ds.length with hlt | hge
    · -- The point stands between digits.
      refine ⟨ds.take (w + 1), ds.drop (w + 1), 0, ?_, ?_, ?_, ?_, ?_, ?_⟩
      · rw [show w + 1 - ds.length = 0 by omega]
        simp [zeros, fractionText]
      · simp [hne]
      · exact fun c hc => hds c (List.mem_of_mem_take hc)
      · exact fun c hc => hds c (List.mem_of_mem_drop hc)
      · simp
      · rw [List.length_drop]
        omega
    · -- All digits stand before the point, which is left out.
      refine ⟨ds ++ zeros (w + 1 - ds.length), [], w + 1 - ds.length, ?_, ?_, ?_, ?_, ?_, ?_⟩
      · simp [List.take_of_length_le hge, List.drop_of_length_le hge, fractionText]
      · simp [hne]
      · exact hds.append (digits_zeros _)
      · exact fun c hc => absurd hc List.not_mem_nil
      · rw [List.append_nil, value_append_zeros]
      · simp only [List.length_nil]
        omega
  · next hexp =>
    -- The number is below one, so a zero, the point and more zeros stand before the digits.
    refine ⟨['0'], zeros (-exponent - 1).toNat ++ ds, 0, ?_, by simp, ?_, ?_, ?_, ?_⟩
    · simp [fractionText, hne]
    · intro c hc
      rw [List.mem_singleton.1 hc]
      decide
    · exact (digits_zeros _).append hds
    · rw [Nat.pow_zero, Nat.mul_one, ← List.append_assoc]
      exact value_zeros_append ds ((-exponent - 1).toNat + 1)
    · rw [List.length_append, zeros, List.length_replicate]
      omega

/-- The layout with an exponent is a plain numeral with a mark and a signed number after it. -/
theorem exists_scientific (ds : List Char) (exponent : Int) :
    ∃ tail, scientific ds exponent = ds.take 1 ++ fractionText (ds.drop 1) ++ 'e' :: tail ∧
      ∀ c ∈ tail, isDigit c = true ∨ c = '+' ∨ c = '-' := by
  refine ⟨(if exponent < 0 then '-' else '+') ::
    (zeros (2 - (Nat.toDigits 10 exponent.natAbs).length) ++ Nat.toDigits 10 exponent.natAbs), ?_, ?_⟩
  · simp [scientific, fractionText]
  · intro c hc
    rcases List.mem_cons.1 hc with rfl | hc
    · split <;> simp
    · exact .inl ((digits_zeros _).append (digits_toDigits _) c hc)

/-- A decimal is written as a plain numeral of the same value, or with an exponent after one. -/
theorem exists_render (layout : Layout) (d : Decimal) :
    ∃ whole part, whole ≠ [] ∧ Digits whole ∧ Digits part ∧
      ((d.render layout = whole ++ fractionText part ∧ ∀ negative,
          Binary64.ofDecimal? negative (value 10 (whole ++ part)) (-part.length) =
            Binary64.ofDecimal? negative d.digits d.exponent) ∨
        ∃ tail, d.render layout = whole ++ fractionText part ++ 'e' :: tail ∧
          ∀ c ∈ tail, isDigit c = true ∨ c = '+' ∨ c = '-') := by
  unfold render
  split
  · next hzero =>
    refine ⟨['0'], [], by simp, by simp [Digits, isDigit], by simp [Digits], .inl ⟨rfl, ?_⟩⟩
    intro negative
    rw [hzero, Binary64.ofDecimal?_zero]
    exact Binary64.ofDecimal?_zero _ _
  · next hzero =>
    obtain ⟨m, z, hm, hdigits, htrim⟩ := exists_trimZeros (Nat.pos_of_ne_zero hzero)
    have hlen : 0 < (Nat.toDigits 10 m).length := Nat.length_toDigits_pos
    have hall : (Nat.toDigits 10 d.digits).length = (Nat.toDigits 10 m).length + z := by
      rw [hdigits, Binary64.toDigits_mul_pow hm, List.length_append, List.length_replicate]
    dsimp only
    rw [htrim]
    split
    · obtain ⟨whole, part, z', hpos, hne, hwhole, hpart, hvalue, hexp⟩ :=
        exists_positional (List.length_pos_iff.1 hlen) (digits_toDigits m)
          (d.exponent + ((Nat.toDigits 10 d.digits).length - 1 : Nat))
      refine ⟨whole, part, hne, hwhole, hpart, .inl ⟨hpos, fun negative => ?_⟩⟩
      -- The zeros are moved into the exponent on both sides.
      rw [hvalue, value_toDigits, Binary64.ofDecimal?_mul_pow, hdigits, Binary64.ofDecimal?_mul_pow]
      congr 1
      omega
    · obtain ⟨tail, htail, hchars⟩ := exists_scientific (Nat.toDigits 10 m)
        (d.exponent + ((Nat.toDigits 10 d.digits).length - 1 : Nat))
      exact ⟨_, _, by simp,
        fun c hc => digits_toDigits m c (List.mem_of_mem_take hc),
        fun c hc => digits_toDigits m c (List.mem_of_mem_drop hc), .inr ⟨tail, htail, hchars⟩⟩

end Decimal

namespace Binary64

/-- A number is written as a plain numeral that is read as the number, or as a plain numeral with an
exponent after it. -/
theorem render_cases {b : Binary64} (hb : b.IsFinite) :
    ∃ sign whole part, IsPlain sign whole part ∧
      ((b.render.toList = plain sign whole part ∧ read? b.render = some b) ∨
        ∃ tail, b.render.toList = plain sign whole part ++ 'e' :: tail ∧
          ∀ c ∈ tail, isDigit c = true ∨ c = '+' ∨ c = '-') := by
  have hfield := hb.exponentField_ne
  have hnan : b.isNaN = false := by simp [isNaN, hfield]
  have hinf : b.isInfinite = false := by simp [isInfinite, hfield]
  -- What is written for a finite number is a sign and its shortest decimal.
  obtain ⟨sign, hsign, hnegative, htext⟩ : ∃ sign ∈ signs, decide (sign = ['-']) = b.isNegative ∧
      b.render.toList = sign ++ b.shortest.render layout := by
    rw [render, hnan, hinf]
    cases b.isNegative with
    | true => exact ⟨['-'], by simp [signs], rfl, by simp⟩
    | false => exact ⟨[], by simp [signs], rfl, by simp⟩
  obtain ⟨whole, part, hne, hwhole, hpart, hcases⟩ := b.shortest.exists_render layout
  have hplain : IsPlain sign whole part := ⟨hsign, hne, hwhole, hpart⟩
  refine ⟨sign, whole, part, hplain, ?_⟩
  rcases hcases with ⟨hrender, hvalue⟩ | ⟨tail, hrender, htail⟩
  · left
    have hlist : b.render.toList = plain sign whole part := by
      rw [htext, hrender, plain, List.append_assoc]
    refine ⟨hlist, ?_⟩
    rw [← String.ofList_toList (s := b.render), hlist, read?_plain hplain, hnegative, hvalue,
      ofDecimal?_shortest hb]
  · right
    refine ⟨tail, ?_, htail⟩
    rw [htext, hrender, plain]
    simp

/-- A number without an exponent in its text is read back from it. -/
theorem read?_render {b : Binary64} (hb : b.IsFinite) (h : 'e' ∉ b.render.toList) :
    read? b.render = some b := by
  obtain ⟨sign, whole, part, -, ⟨-, hread⟩ | ⟨tail, htext, -⟩⟩ := render_cases hb
  · exact hread
  · exact absurd (by rw [htext]; simp) h

end Binary64

end TypedScheme
