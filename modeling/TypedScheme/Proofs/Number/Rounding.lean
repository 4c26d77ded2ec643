import Mathlib.Tactic.Linarith
import Mathlib.Tactic.Ring
import TypedScheme.Number.Binary64

/-!
# Rounding to the nearest number

The encoding of a finite number is the count of the numbers below it, and its magnitude in units is a
significand of at most 53 bits times a power of two. A ratio that is closer to a magnitude than a
`2 ^ 54`th part of it is rounded to that magnitude: no other number is as near, below a power of two
included, where the numbers lie twice as close.

## What this module delivers

- `Binary64.IsFinite` and `Binary64.ofParts_self`: a number is its sign and its magnitude.
- `Binary64.unitsOf`, the magnitude in units of an encoding, with `Binary64.exists_significand`.
- `Binary64.encodeRatio_eq`: a ratio close to a magnitude is rounded to it.
- `Binary64.ofDecimal?_mul_pow`: a decimal is read in the same way with its zeros moved into the
  exponent.
-/

set_option autoImplicit false

namespace TypedScheme.Binary64

/-! ## Sign and magnitude -/

/-- The encoding is that of a number, and not of an infinity. -/
def IsFinite (b : Binary64) : Prop := b.magnitudeBits < 2047 * 2 ^ 52

theorem IsFinite.exponentField_ne {b : Binary64} (h : b.IsFinite) : b.exponentField ≠ 2047 := by
  unfold IsFinite at h
  unfold exponentField
  omega

/-- The magnitude of a number that is put together is the one it is put together from. -/
theorem magnitudeBits_ofParts (negative : Bool) {m : Nat} (hm : m < 2 ^ 63) :
    (ofParts negative m).magnitudeBits = m := by
  unfold ofParts magnitudeBits
  rw [UInt64.toNat_ofNat']
  cases negative <;> simp only [if_true, if_false, Bool.false_eq_true] <;> omega

/-- A number is its sign and its magnitude. -/
theorem ofParts_self (b : Binary64) : ofParts b.isNegative b.magnitudeBits = b := by
  obtain ⟨bits⟩ := b
  have hbits : bits.toNat < 2 ^ 64 := bits.toNat_lt
  have hsum : bits.toNat % 2 ^ 63 + (if decide (2 ^ 63 ≤ bits.toNat) = true then 2 ^ 63 else 0) =
      bits.toNat := by
    by_cases h : 2 ^ 63 ≤ bits.toNat
    · rw [if_pos (by simpa using h)]
      omega
    · rw [if_neg (by simpa using h)]
      omega
  unfold ofParts isNegative magnitudeBits
  rw [hsum]
  simp

/-! ## Rounding a quotient -/

/-- A quotient that is closer than one half to a natural number is rounded to it. -/
theorem roundDiv_eq {num den g : Nat} (hlow : 2 * g * den < 2 * num + den)
    (hhigh : 2 * num < (2 * g + 1) * den) : roundDiv num den = g := by
  have hden : 0 < den := by
    rcases Nat.eq_zero_or_pos den with rfl | h
    · simp at hhigh
    · exact h
  have hnum : den * (num / den) + num % den = num := Nat.div_add_mod num den
  have hmod : num % den < den := Nat.mod_lt num hden
  unfold roundDiv
  generalize num / den = q at *
  generalize num % den = r at *
  dsimp only
  split
  · next h =>
    have hle : q < g + 1 := by nlinarith
    have hge : g < q + 1 := by nlinarith
    omega
  split
  · next h h' =>
    have hle : q < g := by nlinarith
    have hge : g < q + 2 := by nlinarith
    omega
  · next h h' =>
    -- In the middle between two numbers there is none that is closer than one half.
    have hle : q < g := by nlinarith
    have hge : g < q + 1 := by nlinarith
    omega

/-- Rounding a quotient does not depend on common factors. -/
theorem roundDiv_mul_left {c : Nat} (hc : 0 < c) (num den : Nat) :
    roundDiv (c * num) (c * den) = roundDiv num den := by
  have hlt (a b : Nat) : 2 * (c * a) < c * b ↔ 2 * a < b := by
    rw [show 2 * (c * a) = c * (2 * a) by ring]
    exact Nat.mul_lt_mul_left hc
  have hgt (a b : Nat) : c * b < 2 * (c * a) ↔ b < 2 * a := by
    rw [show 2 * (c * a) = c * (2 * a) by ring]
    exact Nat.mul_lt_mul_left hc
  simp only [roundDiv, Nat.mul_div_mul_left _ _ hc, Nat.mul_mod_mul_left, hlt, hgt]

theorem encodeRatio_mul_left {c : Nat} (hc : 0 < c) (num den : Nat) :
    encodeRatio (c * num) (c * den) = encodeRatio num den := by
  simp only [encodeRatio, Nat.mul_div_mul_left _ _ hc, Nat.mul_assoc, roundDiv_mul_left hc]

/-! ## Encodings and magnitudes -/

/-- The magnitude of an encoding in units. -/
def unitsOf (m : Nat) : Nat :=
  if m / 2 ^ 52 = 0 then m % 2 ^ 52 else (2 ^ 52 + m % 2 ^ 52) * 2 ^ (m / 2 ^ 52 - 1)

/-- The units of a number are those of its bits without the sign. -/
theorem units_eq (b : Binary64) : b.units = unitsOf b.magnitudeBits := rfl

/-- A magnitude is a significand times a power of two, and the significand fills its 53 bits unless
the power is the least one. -/
theorem exists_significand (m : Nat) :
    ∃ s g, m = s * 2 ^ 52 + g ∧ unitsOf m = g * 2 ^ s ∧ g < 2 ^ 53 ∧ (s = 0 ∨ 2 ^ 52 ≤ g) := by
  unfold unitsOf
  split
  · next h => exact ⟨0, m % 2 ^ 52, by omega, by simp, by omega, .inl rfl⟩
  · next h => exact ⟨m / 2 ^ 52 - 1, 2 ^ 52 + m % 2 ^ 52, by omega, rfl, by omega, .inr (by omega)⟩

/-- A ratio lies within a `2 ^ 54`th part of a number of units. -/
structure Near (num den u : Nat) : Prop where
  above : 2 ^ 54 * (u * den) < 2 ^ 54 * num + u * den
  below : 2 ^ 54 * num < 2 ^ 54 * (u * den) + u * den

theorem encodeRatio_of_log2 {num den s g : Nat} (hs : (num / den).log2 - 52 = s)
    (hlow : 2 * (g * (den * 2 ^ s)) < 2 * num + den * 2 ^ s)
    (hhigh : 2 * num < 2 * (g * (den * 2 ^ s)) + den * 2 ^ s) :
    encodeRatio num den = s * 2 ^ 52 + g := by
  simp only [encodeRatio, hs]
  rw [roundDiv_eq (g := g) (by linarith) (by linarith)]

/-- The integer part of a ratio tells the power of two that its significand is multiplied by. -/
theorem log2_sub_of_bounds {q s : Nat} (hle : s = 0 ∨ 2 ^ (52 + s) ≤ q) (hlt : q < 2 ^ (53 + s)) :
    q.log2 - 52 = s := by
  have hpow := Nat.two_pow_pos (52 + s)
  by_cases hzero : q = 0
  · have hs : s = 0 := by omega
    simp [hzero, hs]
  · have hlog := (Nat.log2_lt hzero).2 hlt
    rcases hle with hs | hle
    · omega
    · have := (Nat.le_log2 hzero).2 hle
      omega

/-- A ratio near to a magnitude is rounded to it. -/
theorem encodeRatio_eq {num den m : Nat} (h : Near num den (unitsOf m)) :
    encodeRatio num den = m := by
  obtain ⟨s, g, rfl, hu, hg, hs⟩ := exists_significand m
  obtain ⟨habove, hbelow⟩ := h
  have hden : 0 < den := by
    rcases Nat.eq_zero_or_pos den with rfl | h
    · simp at hbelow
    · exact h
  -- One step of the significand is worth `den * 2 ^ s`, and the magnitude less than `2 ^ 53` of them.
  have hD : 0 < den * 2 ^ s := Nat.mul_pos hden (Nat.two_pow_pos s)
  have hbound : g * (den * 2 ^ s) + den * 2 ^ s ≤ 2 ^ 53 * (den * 2 ^ s) := by
    rw [← Nat.succ_mul]
    exact Nat.mul_le_mul_right _ hg
  have hunits : unitsOf (s * 2 ^ 52 + g) * den = g * (den * 2 ^ s) := by rw [hu]; ring
  have hpow (k : Nat) : 2 ^ (52 + k) * den = 2 ^ 52 * (den * 2 ^ k) := by ring
  rw [hunits] at habove hbelow
  have hlow : 2 * (g * (den * 2 ^ s)) < 2 * num + den * 2 ^ s := by omega
  have hhigh : 2 * num < 2 * (g * (den * 2 ^ s)) + den * 2 ^ s := by omega
  have hquot : num / den < 2 ^ (53 + s) := by
    rw [Nat.div_lt_iff_lt_mul hden, show 2 ^ (53 + s) * den = 2 * (2 ^ (52 + s) * den) by ring, hpow]
    omega
  by_cases hle : s = 0 ∨ 2 ^ (52 + s) ≤ num / den
  · exact encodeRatio_of_log2 (log2_sub_of_bounds hle hquot) hlow hhigh
  · -- Just below a power of two the step is half as large, and the significand is rounded up to it.
    obtain ⟨hs0, hlt⟩ := not_or.1 hle
    obtain ⟨s, rfl⟩ : ∃ s', s = s' + 1 := ⟨s - 1, by omega⟩
    have hlt : num / den < 2 ^ (53 + s) := by
      rw [show 53 + s = 52 + (s + 1) by omega]
      exact Nat.lt_of_not_le hlt
    have hhalf : den * 2 ^ (s + 1) = 2 * (den * 2 ^ s) := by ring
    have hnum : num < 2 ^ 53 * (den * 2 ^ s) := by
      rw [Nat.div_lt_iff_lt_mul hden] at hlt
      linarith [show 2 ^ (53 + s) * den = 2 ^ 53 * (den * 2 ^ s) by ring]
    have hg' : g = 2 ^ 52 := by
      by_contra hne
      have hmore : (2 ^ 52 + 1) * (den * 2 ^ (s + 1)) ≤ g * (den * 2 ^ (s + 1)) :=
        Nat.mul_le_mul_right _ (by omega)
      rw [Nat.succ_mul] at hmore
      omega
    subst hg'
    have hge : 2 ^ (52 + s) ≤ num / den := by
      rw [Nat.le_div_iff_mul_le hden, hpow]
      omega
    rw [encodeRatio_of_log2 (log2_sub_of_bounds (.inr hge) hlt) (g := 2 ^ 53) (by omega) (by omega)]
    ring

/-! ## Decimals -/

/-- Equal ratios are rounded to the same number. -/
theorem encodeRatio_congr {num₁ den₁ num₂ den₂ : Nat} (h₁ : 0 < den₁) (h₂ : 0 < den₂)
    (h : den₂ * num₁ = den₁ * num₂) : encodeRatio num₁ den₁ = encodeRatio num₂ den₂ := by
  rw [← encodeRatio_mul_left h₂, h, Nat.mul_comm den₂, encodeRatio_mul_left h₁]

/-- The number of digits of a decimal significand. -/
def size (significand : Nat) : Nat := (Nat.toDigits 10 significand).length

theorem ofDecimal?_zero (negative : Bool) (exponent : Int) :
    ofDecimal? negative 0 exponent = some (ofParts negative 0) := by
  simp [ofDecimal?, ofScaled?]

/-- A decimal of moderate size is rounded as a ratio, whichever sign its exponent has. -/
theorem ofDecimal?_eq_ofRatio? {negative : Bool} {significand : Nat} {exponent : Int}
    (hne : significand ≠ 0) (hhigh : exponent + size significand ≤ 400)
    (hlow : -400 ≤ exponent + size significand) :
    ofDecimal? negative significand exponent =
      ofRatio? negative (significand * 10 ^ exponent.toNat * unitsPerOne)
        (10 ^ (-exponent).toNat) := by
  unfold size at hhigh hlow
  have hguards : ¬ exponent + ((Nat.toDigits 10 significand).length : Int) > (400 : Nat) ∧
      ¬ exponent + ((Nat.toDigits 10 significand).length : Int) < -((400 : Nat) : Int) := by omega
  simp only [ofDecimal?, ofScaled?, hne, hguards, if_false]
  split
  · next h => rw [show (-exponent).toNat = 0 by omega, Nat.pow_zero]
  · next h => rw [show exponent.toNat = 0 by omega, Nat.pow_zero, Nat.mul_one]

/-- A number with more than 400 digits before the point is out of range. -/
theorem ofDecimal?_of_gt {negative : Bool} {significand : Nat} {exponent : Int}
    (hne : significand ≠ 0) (h : 400 < exponent + size significand) :
    ofDecimal? negative significand exponent = none := by
  unfold size at h
  simp only [ofDecimal?, ofScaled?, hne, if_false]
  rw [if_pos (by omega)]

theorem ofDecimal?_of_lt {negative : Bool} {significand : Nat} {exponent : Int}
    (hne : significand ≠ 0) (h : exponent + size significand < -400) :
    ofDecimal? negative significand exponent = some (ofParts negative 0) := by
  unfold size at h
  simp only [ofDecimal?, ofScaled?, hne, if_false]
  rw [if_neg (by omega), if_pos (by omega)]

theorem toDigits_mul_pow {m : Nat} (hm : 0 < m) (z : Nat) :
    Nat.toDigits 10 (m * 10 ^ z) = Nat.toDigits 10 m ++ List.replicate z '0' := by
  induction z with
  | zero => simp
  | succ z ih =>
    have hpos : 0 < m * 10 ^ z := Nat.mul_pos hm (Nat.pow_pos (by decide))
    have h := Nat.toDigits_append_toDigits (b := 10) (n := m * 10 ^ z) (d := 0) (by decide) hpos
      (by decide)
    rw [show m * 10 ^ (z + 1) = 10 * (m * 10 ^ z) + 0 by ring, ← h, ih, List.replicate_succ']
    simp

theorem size_mul_pow {m : Nat} (hm : 0 < m) (z : Nat) : size (m * 10 ^ z) = size m + z := by
  simp [size, toDigits_mul_pow hm]

/-- Zeros at the end of a decimal may be moved into its exponent. -/
theorem ofDecimal?_mul_pow (negative : Bool) (m z : Nat) (exponent : Int) :
    ofDecimal? negative (m * 10 ^ z) exponent = ofDecimal? negative m (exponent + z) := by
  rcases Nat.eq_zero_or_pos m with rfl | hm
  · rw [Nat.zero_mul, ofDecimal?_zero, ofDecimal?_zero]
  have hsize := size_mul_pow hm z
  have hpos : 0 < m * 10 ^ z := Nat.mul_pos hm (Nat.pow_pos (by decide))
  rcases lt_or_ge 400 (exponent + z + size m) with hhigh | hhigh
  · rw [ofDecimal?_of_gt hpos.ne' (by omega), ofDecimal?_of_gt hm.ne' hhigh]
  rcases lt_or_ge (exponent + z + size m) (-400) with hlow | hlow
  · rw [ofDecimal?_of_lt hpos.ne' (by omega), ofDecimal?_of_lt hm.ne' hlow]
  rw [ofDecimal?_eq_ofRatio? hpos.ne' (by omega) (by omega),
    ofDecimal?_eq_ofRatio? hm.ne' hhigh hlow, ofRatio?, ofRatio?]
  -- The two ratios differ by a power of ten above and below.
  have hexp : (-(exponent + z)).toNat + z + exponent.toNat =
      (-exponent).toNat + (exponent + z).toNat := by omega
  have hcross : 10 ^ (-(exponent + z)).toNat * (m * 10 ^ z * 10 ^ exponent.toNat * unitsPerOne) =
      10 ^ (-exponent).toNat * (m * 10 ^ (exponent + z).toNat * unitsPerOne) := by
    calc _ = m * unitsPerOne * 10 ^ ((-(exponent + z)).toNat + z + exponent.toNat) := by ring
      _ = m * unitsPerOne * 10 ^ ((-exponent).toNat + (exponent + z).toNat) := by rw [hexp]
      _ = _ := by ring
  rw [encodeRatio_congr (Nat.pow_pos (by decide)) (Nat.pow_pos (by decide)) hcross]

/-- What is read from a decimal is finite. -/
theorem isFinite_of_ofDecimal? {negative : Bool} {significand : Nat} {exponent : Int} {b : Binary64}
    (h : ofDecimal? negative significand exponent = some b) : b.IsFinite := by
  have hzero : (ofParts negative 0).IsFinite := by
    rw [IsFinite, magnitudeBits_ofParts negative (by decide)]
    decide
  by_cases hne : significand = 0
  · subst hne
    rw [ofDecimal?_zero] at h
    cases h
    exact hzero
  rcases lt_or_ge 400 (exponent + size significand) with hhigh | hhigh
  · rw [ofDecimal?_of_gt hne hhigh] at h
    cases h
  rcases lt_or_ge (exponent + size significand) (-400) with hlow | hlow
  · rw [ofDecimal?_of_lt hne hlow] at h
    cases h
    exact hzero
  rw [ofDecimal?_eq_ofRatio? hne hhigh hlow, ofRatio?] at h
  split at h
  · next hlt =>
    cases h
    rw [IsFinite, magnitudeBits_ofParts negative (by omega)]
    exact hlt
  · cases h

end TypedScheme.Binary64
