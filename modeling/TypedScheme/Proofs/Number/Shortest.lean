import TypedScheme.Number.Shortest
import TypedScheme.Proofs.Number.Rounding

/-!
# Shortest decimals read back

The shortest decimal of a finite number reads back as that number. Seventeen digits suffice: of the
two decimals of that length next to the number, the nearer one is off by at most half of its last
digit, which is less than a `2 ^ 54`th part of the number.

## What this module delivers

- `Binary64.leadingExponent_spec`: where the leading digit of a magnitude stands.
- `Binary64.ofDecimal?_shortest`: the shortest decimal of a finite number is read as that number.
-/

set_option autoImplicit false

namespace TypedScheme.Binary64

/-! ## The leading digit -/

theorem two_pow_le_ten_pow {k n : Nat} (h : k ≤ 3 * n) : 2 ^ k ≤ 10 ^ n := by
  calc 2 ^ k ≤ 2 ^ (3 * n) := Nat.pow_le_pow_right (by decide) h
    _ = (2 ^ 3) ^ n := Nat.pow_mul 2 3 n
    _ ≤ 10 ^ n := Nat.pow_le_pow_left (by decide) n

/-- One is a power of two in units, with an exponent too large to evaluate the power. -/
theorem exists_unitsPerOne_eq : ∃ k, k = 1074 ∧ unitsPerOne = 2 ^ k := by
  unfold unitsPerOne
  generalize 1074 = k
  exact ⟨k, rfl, rfl⟩

theorem unitsPerOne_pos : 0 < unitsPerOne := by
  obtain ⟨k, -, h⟩ := exists_unitsPerOne_eq
  rw [h]
  exact Nat.two_pow_pos k

/-- The search for the least power stops at a power that lifts the number, if there is one within
reach, and no lower power lifts it. -/
theorem liftToOne_spec (fuel j n : Nat) :
    j ≤ liftToOne fuel j n ∧ liftToOne fuel j n ≤ j + fuel ∧
      (unitsPerOne ≤ n * 10 ^ fuel → unitsPerOne ≤ n * 10 ^ (liftToOne fuel j n - j)) ∧
      (j < liftToOne fuel j n → n * 10 ^ (liftToOne fuel j n - j) < 10 * unitsPerOne) := by
  induction fuel generalizing j n with
  | zero => simp [liftToOne]
  | succ fuel ih =>
    rw [liftToOne]
    split
    · next h => exact ⟨le_refl _, by omega, fun _ => by simpa using h, fun h => absurd h (by omega)⟩
    · next h =>
      obtain ⟨hge, hle, hlift, hleast⟩ := ih (j + 1) (10 * n)
      generalize liftToOne fuel (j + 1) (10 * n) = r at *
      have hpow : 10 * n * 10 ^ (r - (j + 1)) = n * 10 ^ (r - j) := by
        rw [show r - j = r - (j + 1) + 1 by omega]
        ring
      rw [hpow] at hlift hleast
      refine ⟨by omega, by omega, fun hfuel => hlift ?_, fun _ => ?_⟩
      · rwa [show 10 * n * 10 ^ fuel = n * 10 ^ (fuel + 1) by ring]
      · by_cases hr : j + 1 < r
        · exact hleast hr
        · rw [show r - j = 1 by omega]
          omega

/-- A positive magnitude in units lies between two powers of ten. -/
theorem leadingExponent_spec {n : Nat} (hn : n ≠ 0) :
    unitsPerOne * 10 ^ (leadingExponent n).toNat ≤ n * 10 ^ (-leadingExponent n).toNat ∧
      n * 10 ^ (-leadingExponent n).toNat < 10 * (unitsPerOne * 10 ^ (leadingExponent n).toNat) ∧
      -400 ≤ leadingExponent n := by
  have hunit := unitsPerOne_pos
  unfold leadingExponent
  split
  · next h =>
    -- At least one: the exponent is counted by the digits of the whole part.
    obtain ⟨L, hL⟩ : ∃ L, (Nat.toDigits 10 (n / unitsPerOne)).length = L + 1 :=
      ⟨_, (Nat.succ_pred_eq_of_pos Nat.length_toDigits_pos).symm⟩
    rw [hL]
    have hexp : ((L + 1 : Nat) : Int) - 1 = L := by omega
    rw [hexp, Int.toNat_natCast, show (-(L : Int)).toNat = 0 by omega, Nat.pow_zero, Nat.mul_one]
    have hupper : n / unitsPerOne < 10 ^ (L + 1) :=
      (Nat.length_toDigits_le_iff (by decide) (by omega)).1 hL.le
    have hlower : 10 ^ L ≤ n / unitsPerOne := by
      rcases Nat.eq_zero_or_pos L with rfl | hpos
      · exact (Nat.one_le_div_iff hunit).2 h
      · by_contra hlt
        have := (Nat.length_toDigits_le_iff (b := 10) (by decide) hpos).2 (Nat.lt_of_not_le hlt)
        omega
    refine ⟨?_, ?_, by omega⟩
    · rw [Nat.mul_comm]
      exact (Nat.le_div_iff_mul_le hunit).1 hlower
    · rw [Nat.div_lt_iff_lt_mul hunit, Nat.pow_succ] at hupper
      linarith
  · next h =>
    -- Below one: it is how often the magnitude is lifted by ten until it reaches one.
    obtain ⟨-, hle, hlift, hleast⟩ := liftToOne_spec 400 0 n
    have hreach : unitsPerOne ≤ n * 10 ^ 400 := by
      obtain ⟨k, hk, hunit⟩ := exists_unitsPerOne_eq
      calc unitsPerOne = 2 ^ k := hunit
        _ ≤ 10 ^ 400 := two_pow_le_ten_pow (by omega)
        _ = 1 * 10 ^ 400 := (Nat.one_mul _).symm
        _ ≤ n * 10 ^ 400 := Nat.mul_le_mul_right _ (Nat.pos_of_ne_zero hn)
    have hpos : 0 < liftToOne 400 0 n := by
      rcases Nat.eq_zero_or_pos (liftToOne 400 0 n) with h0 | hpos
      · rw [h0] at hlift
        exact absurd (hlift hreach) (by simpa using h)
      · exact hpos
    rw [Nat.sub_zero] at hlift hleast
    rw [show (-(liftToOne 400 0 n : Int)).toNat = 0 by omega, Int.neg_neg, Int.toNat_natCast,
      Nat.pow_zero, Nat.mul_one]
    exact ⟨hlift hreach, hleast hpos, by omega⟩

/-! ## Seventeen digits -/

variable {b : Binary64}

/-- The magnitude of a finite number, in units. -/
theorem IsFinite.units_lt (hb : b.IsFinite) : b.units < 2 ^ 1024 * unitsPerOne := by
  obtain ⟨s, g, hm, hu, hg, hs⟩ := exists_significand b.magnitudeBits
  have hs : s ≤ 2045 := by
    unfold IsFinite at hb
    omega
  obtain ⟨k, hk, hunit⟩ := exists_unitsPerOne_eq
  rw [units_eq, hu, hunit, ← Nat.pow_add]
  calc g * 2 ^ s < 2 ^ 53 * 2 ^ s := Nat.mul_lt_mul_of_pos_right hg (Nat.two_pow_pos s)
    _ = 2 ^ (53 + s) := (Nat.pow_add 2 53 s).symm
    _ ≤ 2 ^ (1024 + k) := Nat.pow_le_pow_right (by decide) (by omega)

theorem IsFinite.leadingExponent_lt (hb : b.IsFinite) (hu : b.units ≠ 0) :
    leadingExponent b.units < 398 := by
  obtain ⟨hle, -, -⟩ := leadingExponent_spec hu
  by_contra h
  have h398 : 398 ≤ (leadingExponent b.units).toNat := by omega
  rw [show (-leadingExponent b.units).toNat = 0 by omega, Nat.pow_zero, Nat.mul_one] at hle
  have hpow : 2 ^ 1024 ≤ 10 ^ (leadingExponent b.units).toNat := two_pow_le_ten_pow (by omega)
  have := Nat.mul_le_mul_left unitsPerOne hpow
  have := hb.units_lt
  rw [Nat.mul_comm] at this
  omega

/-- A magnitude that is scaled to `k + 1` digits before the point lies between two powers of ten. -/
theorem scaled_bounds {n : Nat} (hn : n ≠ 0) (k : Nat) :
    10 ^ k * (unitsPerOne * 10 ^ (leadingExponent n - k).toNat) ≤
        n * 10 ^ (-(leadingExponent n - k)).toNat ∧
      n * 10 ^ (-(leadingExponent n - k)).toNat <
        10 ^ (k + 1) * (unitsPerOne * 10 ^ (leadingExponent n - k).toNat) := by
  obtain ⟨hle, hlt, -⟩ := leadingExponent_spec hn
  generalize leadingExponent n = E at *
  -- Both bounds are those of the leading digit, moved by `k` places.
  have hexp : (-(E - k)).toNat + E.toNat = (-E).toNat + k + (E - k).toNat := by omega
  have hpos : 0 < 10 ^ E.toNat := Nat.pow_pos (by decide)
  have hscale : 0 < 10 ^ (k + (E - k).toNat) := Nat.pow_pos (by decide)
  have hmove : n * 10 ^ (-(E - k)).toNat * 10 ^ E.toNat =
      n * 10 ^ (-E).toNat * 10 ^ (k + (E - k).toNat) := by
    calc _ = n * 10 ^ ((-(E - k)).toNat + E.toNat) := by ring
      _ = n * 10 ^ ((-E).toNat + k + (E - k).toNat) := by rw [hexp]
      _ = _ := by ring
  constructor
  · refine Nat.le_of_mul_le_mul_right ?_ hpos
    rw [hmove]
    calc _ = unitsPerOne * 10 ^ E.toNat * 10 ^ (k + (E - k).toNat) := by ring
      _ ≤ _ := Nat.mul_le_mul_right _ hle
  · refine Nat.lt_of_mul_lt_mul_right (a := 10 ^ E.toNat) ?_
    rw [hmove]
    calc _ < 10 * (unitsPerOne * 10 ^ E.toNat) * 10 ^ (k + (E - k).toNat) :=
          Nat.mul_lt_mul_of_pos_right hlt hscale
      _ = _ := by ring

/-- A decimal of 17 digits that is off by at most half of its last digit is read as the number. -/
theorem ofDecimal?_of_near (hb : b.IsFinite) (hu : b.units ≠ 0) {c : Nat}
    (hlow : 2 * (b.units * 10 ^ (-(leadingExponent b.units - 16)).toNat) ≤
      (2 * c + 1) * (unitsPerOne * 10 ^ (leadingExponent b.units - 16).toNat))
    (hhigh : 2 * c * (unitsPerOne * 10 ^ (leadingExponent b.units - 16).toNat) ≤
      2 * (b.units * 10 ^ (-(leadingExponent b.units - 16)).toNat) +
        unitsPerOne * 10 ^ (leadingExponent b.units - 16).toNat) :
    ofDecimal? b.isNegative c (leadingExponent b.units - 16) = some b := by
  obtain ⟨hnum, hnum'⟩ := scaled_bounds hu 16
  obtain ⟨-, -, hE⟩ := leadingExponent_spec hu
  have hE' := hb.leadingExponent_lt hu
  have hunits := units_eq b
  generalize leadingExponent b.units = E at *
  have hden : 0 < unitsPerOne * 10 ^ (E - 16).toNat :=
    Nat.mul_pos unitsPerOne_pos (Nat.pow_pos (by decide))
  have hratio : c * 10 ^ (E - 16).toNat * unitsPerOne =
      c * (unitsPerOne * 10 ^ (E - 16).toNat) := by ring
  rw [show ((16 : Nat) : Int) = 16 from rfl] at hnum hnum'
  generalize hD : unitsPerOne * 10 ^ (E - 16).toNat = D at *
  generalize hN : b.units * 10 ^ (-(E - 16)).toNat = N at *
  have hcD : 2 * c * D = 2 * (c * D) ∧ (2 * c + 1) * D = 2 * (c * D) + D := ⟨by ring, by ring⟩
  rw [hcD.1] at hhigh
  rw [hcD.2] at hlow
  -- There are 17 digits, or 18 if they were rounded up to a power of ten.
  have hcpos : 10 ^ 16 ≤ c := by
    by_contra hlt
    have := Nat.mul_le_mul_right D (show c + 1 ≤ 10 ^ 16 by omega)
    rw [Nat.add_mul] at this
    omega
  have hcle : c ≤ 10 ^ 17 := by
    by_contra hlt
    have := Nat.mul_le_mul_right D (show 10 ^ 17 + 1 ≤ c by omega)
    rw [Nat.add_mul] at this
    omega
  have hsize : 17 ≤ size c ∧ size c ≤ 18 := by
    constructor
    · by_contra h
      have := (Nat.length_toDigits_le_iff (b := 10) (n := c) (k := 16) (by decide) (by decide)).1
        (by unfold size at h; omega)
      omega
    · exact (Nat.length_toDigits_le_iff (by decide) (by decide)).2 (by omega)
  rw [ofDecimal?_eq_ofRatio? (by omega) (by omega) (by omega), hratio, ofRatio?]
  have hnear : Near (c * D) (10 ^ (-(E - 16)).toNat) (unitsOf b.magnitudeBits) := by
    rw [← hunits]
    constructor <;> rw [hN] <;> omega
  rw [encodeRatio_eq hnear]
  exact (if_pos hb).trans (congrArg some b.ofParts_self)

/-! ## The search for the shortest decimal -/

theorem roundDiv_cases (num den : Nat) :
    roundDiv num den = num / den ∨ roundDiv num den = num / den + 1 := by
  unfold roundDiv
  dsimp only
  split
  · exact .inl rfl
  split
  · exact .inr rfl
  split
  · exact .inl rfl
  · exact .inr rfl

/-- A decimal that is found is read as the number. -/
theorem ofDecimal?_of_shortestWith? {count : Nat} {d : Decimal}
    (h : b.shortestWith? count = some d) :
    ofDecimal? b.isNegative d.digits d.exponent = some b := by
  unfold shortestWith? at h
  dsimp only at h
  generalize b.units * 10 ^ (-(leadingExponent b.units - (count - 1 : Nat))).toNat = num at h
  generalize unitsPerOne * 10 ^ (leadingExponent b.units - (count - 1 : Nat)).toNat = den at h
  split at h
  · next hbelow habove =>
    cases h
    rcases roundDiv_cases num den with hround | hround
    · rw [hround]
      exact of_decide_eq_true hbelow
    · rw [hround]
      exact of_decide_eq_true habove
  · next hbelow _ =>
    cases h
    exact of_decide_eq_true hbelow
  · next _ habove =>
    cases h
    exact of_decide_eq_true habove
  · cases h

/-- One of the two decimals of 17 digits next to a number is read as it. -/
theorem exists_shortestWith? (hb : b.IsFinite) (hu : b.units ≠ 0) :
    ∃ d, b.shortestWith? 17 = some d := by
  unfold shortestWith?
  dsimp only
  rw [show ((17 - 1 : Nat) : Int) = 16 from rfl]
  have hden : 0 < unitsPerOne * 10 ^ (leadingExponent b.units - 16).toNat :=
    Nat.mul_pos unitsPerOne_pos (Nat.pow_pos (by decide))
  have hnear {c : Nat} := ofDecimal?_of_near hb hu (c := c)
  generalize b.units * 10 ^ (-(leadingExponent b.units - 16)).toNat = num at *
  generalize unitsPerOne * 10 ^ (leadingExponent b.units - 16).toNat = den at *
  have hnum : den * (num / den) + num % den = num := Nat.div_add_mod num den
  have hmod : num % den < den := Nat.mod_lt num hden
  generalize num / den = q at *
  generalize num % den = r at *
  split
  · exact ⟨_, rfl⟩
  · exact ⟨_, rfl⟩
  · exact ⟨_, rfl⟩
  · next hbelow habove =>
    exfalso
    -- The nearer one of the two is off by at most half of the last digit.
    rcases Nat.lt_or_ge den (2 * r) with hlt | hge
    · refine absurd (hnear (c := q + 1) ?_ ?_) (of_decide_eq_false habove)
      · linarith [show (2 * (q + 1) + 1) * den = 2 * (den * q) + 3 * den by ring]
      · linarith [show 2 * (q + 1) * den = 2 * (den * q) + 2 * den by ring]
    · refine absurd (hnear (c := q) ?_ ?_) (of_decide_eq_false hbelow)
      · linarith [show (2 * q + 1) * den = 2 * (den * q) + den by ring]
      · linarith [show 2 * q * den = 2 * (den * q) by ring]

theorem unitsOf_eq_zero {m : Nat} (h : unitsOf m = 0) : m = 0 := by
  obtain ⟨s, g, hm, hu, -, hs⟩ := exists_significand m
  have hg : g = 0 := by
    rcases Nat.mul_eq_zero.1 (hu ▸ h) with hg | hpow
    · exact hg
    · exact absurd hpow (Nat.two_pow_pos s).ne'
  omega

/-- The shortest decimal of a finite number is read as that number. -/
theorem ofDecimal?_shortest (hb : b.IsFinite) :
    ofDecimal? b.isNegative b.shortest.digits b.shortest.exponent = some b := by
  unfold shortest
  split
  · next hzero =>
    have hself := b.ofParts_self
    rw [unitsOf_eq_zero hzero] at hself
    rw [ofDecimal?_zero, hself]
  · next hu =>
    obtain ⟨d, hd⟩ := exists_shortestWith? hb hu
    cases hfind : (List.range 17).findSome? fun n => b.shortestWith? (n + 1) with
    | none =>
      have := List.findSome?_eq_none_iff.1 hfind 16 (by simp)
      rw [hd] at this
      cases this
    | some d =>
      obtain ⟨n, -, hn⟩ := List.exists_of_findSome?_eq_some hfind
      exact ofDecimal?_of_shortestWith? hn

end TypedScheme.Binary64
