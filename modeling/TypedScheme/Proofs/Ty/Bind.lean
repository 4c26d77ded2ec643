import TypedScheme.Ty.Basic

/-!
# The algebra of replacement

Facts about `Ty.bind`, which replaces all variables of a type at once, and about the measures of a
type that the theory of matching needs.

## What this module delivers

- `Ty.induct`: induction on types that reaches every parameter of a procedure type. It is the
  default eliminator, so `induction t with` follows the five forms of a type.
- The laws of replacement: replacing variables by themselves (`Ty.bind_var`), replacing twice
  (`Ty.bind_bind`), dependence on the variables of the type only (`Ty.bind_congr`), and the converse
  of it (`Ty.eqOn_vars_of_bind_eq`).
- `Ty.height`, the length of the longest path down a type, which matching is bounded by. A
  replacement adds at most the greatest height of what it puts in (`Ty.height_bind_le`), and what it
  puts in for a variable below the top is strictly lower than the whole (`Ty.height_lt_bind`).
- `Ty.isWhole`, which tells that no part of a type is absent.
-/

set_option autoImplicit false

namespace TypedScheme.Ty

/-! ## Induction -/

/-- Induction on types with the induction hypothesis for every parameter of a procedure type. -/
@[elab_as_elim, induction_eliminator]
theorem induct {motive : Ty → Prop} (absent : motive .absent) (base : ∀ b, motive (.base b))
    (var : ∀ x, motive (.var x)) (pair : ∀ a d, motive a → motive d → motive (.pair a d))
    (proc : ∀ ps r, (∀ p ∈ ps, motive p) → motive r → motive (.proc ps r)) (t : Ty) : motive t :=
  @Ty.rec motive (fun ts => ∀ p ∈ ts, motive p) absent base var pair proc
    (by intro p hp; simp at hp)
    (by
      intro t ts ht hts p hp
      rcases List.mem_cons.1 hp with rfl | hp
      · exact ht
      · exact hts p hp)
    t

/-! ## Lists of types -/

theorem bindAll_eq_map (f : Nat → Ty) (ts : List Ty) : bindAll f ts = ts.map (bind f) := by
  induction ts with
  | nil => rfl
  | cons t ts ih => simp [bindAll, ih]

/-- A variable of a list of types is a variable of one of them. -/
theorem mem_varsAll {x : Nat} {ts : List Ty} : x ∈ varsAll ts ↔ ∃ t ∈ ts, x ∈ t.vars := by
  induction ts with
  | nil => simp [varsAll]
  | cons t ts ih => simp [varsAll, ih]

theorem size_le_sizeAll {t : Ty} {ts : List Ty} (h : t ∈ ts) : t.size ≤ sizeAll ts := by
  induction ts with
  | nil => simp at h
  | cons u us ih =>
    simp only [sizeAll]
    rcases List.mem_cons.1 h with rfl | h
    · omega
    · have := ih h
      omega

theorem mem_vars_pair {x : Nat} {a d : Ty} : x ∈ (pair a d).vars ↔ x ∈ a.vars ∨ x ∈ d.vars := by
  simp [vars]

/-- The variables of a procedure type are those of its parameters and its result. -/
theorem mem_vars_proc {x : Nat} {ps : List Ty} {r : Ty} :
    x ∈ (proc ps r).vars ↔ (∃ p ∈ ps, x ∈ p.vars) ∨ x ∈ r.vars := by
  simp [vars, mem_varsAll]

/-! ## The laws of replacement -/

@[simp] theorem bind_absent (f : Nat → Ty) : bind f absent = absent := rfl

@[simp] theorem bind_base (f : Nat → Ty) (b : Base) : bind f (base b) = base b := rfl

@[simp] theorem bind_var_apply (f : Nat → Ty) (x : Nat) : bind f (var x) = f x := rfl

@[simp] theorem bind_pair (f : Nat → Ty) (a d : Ty) :
    bind f (pair a d) = pair (bind f a) (bind f d) := rfl

@[simp] theorem bind_proc (f : Nat → Ty) (ps : List Ty) (r : Ty) :
    bind f (proc ps r) = proc (ps.map (bind f)) (bind f r) := by
  rw [bind, bindAll_eq_map]

/-- Replacement depends only on what it puts in for the variables of the type. -/
theorem bind_congr {f g : Nat → Ty} {t : Ty} (h : ∀ x ∈ t.vars, f x = g x) :
    t.bind f = t.bind g := by
  induction t with
  | absent => rfl
  | base b => rfl
  | var x => exact h x (by simp [vars])
  | pair a d iha ihd =>
    rw [bind_pair, bind_pair, iha fun x hx => h x (mem_vars_pair.2 (.inl hx)),
      ihd fun x hx => h x (mem_vars_pair.2 (.inr hx))]
  | proc ps r ihps ihr =>
    rw [bind_proc, bind_proc, ihr fun x hx => h x (mem_vars_proc.2 (.inr hx))]
    congr 1
    exact List.map_congr_left fun p hp =>
      ihps p hp fun x hx => h x (mem_vars_proc.2 (.inl ⟨p, hp, hx⟩))

/-- Two replacements with the same result agree on the variables of the type. -/
theorem eqOn_vars_of_bind_eq {f g : Nat → Ty} {t : Ty} (h : t.bind f = t.bind g) :
    ∀ x ∈ t.vars, f x = g x := by
  induction t with
  | absent => simp [vars]
  | base b => simp [vars]
  | var x => simpa [vars] using h
  | pair a d iha ihd =>
    rw [bind_pair, bind_pair, pair.injEq] at h
    intro x hx
    rcases mem_vars_pair.1 hx with hx | hx
    · exact iha h.1 x hx
    · exact ihd h.2 x hx
  | proc ps r ihps ihr =>
    rw [bind_proc, bind_proc, proc.injEq] at h
    intro x hx
    rcases mem_vars_proc.1 hx with ⟨p, hp, hx⟩ | hx
    · exact ihps p hp (List.map_inj_left.1 h.1 p hp) x hx
    · exact ihr h.2 x hx

/-- Replacing every variable by itself changes nothing. -/
@[simp] theorem bind_var (t : Ty) : t.bind var = t := by
  induction t with
  | absent => rfl
  | base b => rfl
  | var x => rfl
  | pair a d iha ihd => rw [bind_pair, iha, ihd]
  | proc ps r ihps ihr =>
    rw [bind_proc, ihr, List.map_congr_left ihps, List.map_id']

/-- Replacing twice is replacing once by the replaced types. -/
theorem bind_bind (f g : Nat → Ty) (t : Ty) :
    (t.bind f).bind g = t.bind fun x => (f x).bind g := by
  induction t with
  | absent => rfl
  | base b => rfl
  | var x => rfl
  | pair a d iha ihd => simp only [bind_pair, iha, ihd]
  | proc ps r ihps ihr =>
    simp only [bind_proc, ihr, List.map_map]
    congr 1
    exact List.map_congr_left ihps

/-- A type without variables is its own replacement. -/
theorem bind_of_vars_eq_nil {t : Ty} (h : t.vars = []) (f : Nat → Ty) : t.bind f = t := by
  have hf : t.bind f = t.bind var := bind_congr (by simp [h])
  rw [hf, bind_var]

/-- The variables after a replacement are those of the types put in for the variables before. -/
theorem mem_vars_bind {f : Nat → Ty} {t : Ty} {y : Nat} :
    y ∈ (t.bind f).vars ↔ ∃ x ∈ t.vars, y ∈ (f x).vars := by
  induction t with
  | absent => simp [vars]
  | base b => simp [vars]
  | var x => simp [vars]
  | pair a d iha ihd =>
    simp only [bind_pair, mem_vars_pair, iha, ihd]
    constructor
    · rintro (⟨x, hx, hy⟩ | ⟨x, hx, hy⟩)
      · exact ⟨x, .inl hx, hy⟩
      · exact ⟨x, .inr hx, hy⟩
    · rintro ⟨x, hx | hx, hy⟩
      · exact .inl ⟨x, hx, hy⟩
      · exact .inr ⟨x, hx, hy⟩
  | proc ps r ihps ihr =>
    simp only [bind_proc, mem_vars_proc, ihr, List.mem_map]
    constructor
    · rintro (⟨q, ⟨p, hp, rfl⟩, hy⟩ | ⟨x, hx, hy⟩)
      · obtain ⟨x, hx, hy⟩ := (ihps p hp).1 hy
        exact ⟨x, .inl ⟨p, hp, hx⟩, hy⟩
      · exact ⟨x, .inr hx, hy⟩
    · rintro ⟨x, ⟨p, hp, hx⟩ | hx, hy⟩
      · exact .inl ⟨p.bind f, ⟨p, hp, rfl⟩, (ihps p hp).2 ⟨x, hx, hy⟩⟩
      · exact .inr ⟨x, hx, hy⟩

/-- A replacement keeps the variables of a type among those of other types. -/
theorem mem_varsAll_map_bind {f : Nat → Ty} {t : Ty} {ts : List Ty}
    (h : ∀ x ∈ t.vars, x ∈ varsAll ts) : ∀ y ∈ (t.bind f).vars, y ∈ varsAll (ts.map (bind f)) := by
  intro y hy
  obtain ⟨x, hx, hy⟩ := mem_vars_bind.1 hy
  obtain ⟨u, hu, hxu⟩ := mem_varsAll.1 (h x hx)
  exact mem_varsAll.2 ⟨u.bind f, List.mem_map_of_mem hu, mem_vars_bind.2 ⟨x, hxu, hy⟩⟩

/-- A type mentions the variables it has. -/
theorem mentions_iff {t : Ty} {x : Nat} : t.mentions x = true ↔ x ∈ t.vars := by
  simp [mentions]

/-! ## Height -/

mutual

/-- The number of types on the longest path down a type. -/
def height : Ty → Nat
  | absent => 1
  | base _ => 1
  | var _ => 1
  | pair a d => 1 + max (height a) (height d)
  | proc ps r => 1 + max (heightAll ps) (height r)

/-- The greatest height in a list of types. -/
def heightAll : List Ty → Nat
  | [] => 0
  | t :: ts => max (height t) (heightAll ts)

end

theorem one_le_height (t : Ty) : 1 ≤ t.height := by
  cases t <;> simp only [height] <;> omega

/-- The height of several types is that of the highest. -/
theorem heightAll_le {ts : List Ty} {n : Nat} : heightAll ts ≤ n ↔ ∀ t ∈ ts, t.height ≤ n := by
  induction ts with
  | nil => simp [heightAll]
  | cons t ts ih =>
    simp only [heightAll, List.mem_cons, forall_eq_or_imp]
    rw [← ih]
    omega

/-- A pair type is higher than both of its parts. -/
theorem height_pair_le {a d : Ty} {n : Nat} :
    (pair a d).height ≤ n + 1 ↔ a.height ≤ n ∧ d.height ≤ n := by
  simp only [height]
  omega

/-- A procedure type is higher than each of its parameters and than its result. -/
theorem height_proc_le {ps : List Ty} {r : Ty} {n : Nat} :
    (proc ps r).height ≤ n + 1 ↔ (∀ p ∈ ps, p.height ≤ n) ∧ r.height ≤ n := by
  rw [← heightAll_le]
  simp only [height]
  omega

theorem heightAll_le_sizeAll {ts : List Ty} (h : ∀ t ∈ ts, t.height ≤ t.size) :
    heightAll ts ≤ sizeAll ts :=
  heightAll_le.2 fun t ht => Nat.le_trans (h t ht) (size_le_sizeAll ht)

/-- A type is at most as high as it is large. -/
theorem height_le_size (t : Ty) : t.height ≤ t.size := by
  induction t with
  | absent => simp [height, size]
  | base b => simp [height, size]
  | var x => simp [height, size]
  | pair a d iha ihd =>
    simp only [height, size]
    omega
  | proc ps r ihps ihr =>
    have hps := heightAll_le_sizeAll ihps
    simp only [height, size]
    omega

/-- A replacement adds at most the height of what it puts in. -/
theorem height_bind_le {f : Nat → Ty} {t : Ty} {n : Nat} (h : ∀ x ∈ t.vars, (f x).height ≤ n) :
    (t.bind f).height ≤ t.height + n := by
  induction t with
  | absent => simp [height]
  | base b => simp [height]
  | var x =>
    have hx := h x (by simp [vars])
    simp only [bind_var_apply, height]
    omega
  | pair a d iha ihd =>
    have ha := iha fun x hx => h x (mem_vars_pair.2 (.inl hx))
    have hd := ihd fun x hx => h x (mem_vars_pair.2 (.inr hx))
    simp only [bind_pair, height]
    omega
  | proc ps r ihps ihr =>
    have hr := ihr fun x hx => h x (mem_vars_proc.2 (.inr hx))
    -- The height of a list is the greatest height in it.
    have hps : heightAll (ps.map (bind f)) ≤ heightAll ps + n := by
      rw [heightAll_le]
      intro q hq
      obtain ⟨p, hp, rfl⟩ := List.mem_map.1 hq
      have hp' := ihps p hp fun x hx => h x (mem_vars_proc.2 (.inl ⟨p, hp, hx⟩))
      have hle := heightAll_le.1 (Nat.le_refl (heightAll ps)) p hp
      omega
    simp only [bind_proc, height]
    omega

/-- What a replacement puts in is no higher than the result. -/
theorem height_le_bind {f : Nat → Ty} {t : Ty} {x : Nat} (hx : x ∈ t.vars) :
    (f x).height ≤ (t.bind f).height := by
  induction t with
  | absent => simp [vars] at hx
  | base b => simp [vars] at hx
  | var y =>
    have hxy : x = y := by simpa [vars] using hx
    subst hxy
    exact Nat.le_refl _
  | pair a d iha ihd =>
    have hle := height_pair_le.1 (Nat.le_add_right ((pair a d).bind f).height 1)
    rcases mem_vars_pair.1 hx with hx | hx
    · exact Nat.le_trans (iha hx) hle.1
    · exact Nat.le_trans (ihd hx) hle.2
  | proc ps r ihps ihr =>
    rw [bind_proc]
    have hle := height_proc_le.1 (Nat.le_add_right (proc (ps.map (bind f)) (r.bind f)).height 1)
    rcases mem_vars_proc.1 hx with ⟨p, hp, hx⟩ | hx
    · exact Nat.le_trans (ihps p hp hx) (hle.1 _ (List.mem_map_of_mem hp))
    · exact Nat.le_trans (ihr hx) hle.2

/-- What a replacement puts in for a variable below the top is lower than the result. This is why a
variable is never equal to a larger type that holds it. -/
theorem height_lt_bind {f : Nat → Ty} {t : Ty} {x : Nat} (hx : x ∈ t.vars)
    (ht : ∀ y, t ≠ var y) : (f x).height < (t.bind f).height := by
  cases t with
  | absent => simp [vars] at hx
  | base b => simp [vars] at hx
  | var y => exact absurd rfl (ht y)
  | pair a d =>
    rw [bind_pair, height]
    rcases mem_vars_pair.1 hx with hx | hx
    · have := height_le_bind (f := f) hx
      omega
    · have := height_le_bind (f := f) hx
      omega
  | proc ps r =>
    rw [bind_proc, height]
    rcases mem_vars_proc.1 hx with ⟨p, hp, hx⟩ | hx
    · have hle := height_le_bind (f := f) hx
      have hmem := heightAll_le.1 (Nat.le_refl _) _ (List.mem_map_of_mem (f := bind f) hp)
      omega
    · have := height_le_bind (f := f) hx
      omega

/-- No replacement makes a variable equal to a larger type that holds it. -/
theorem apply_ne_bind_of_mem_vars {f : Nat → Ty} {t : Ty} {x : Nat} (hx : x ∈ t.vars)
    (ht : t ≠ var x) : f x ≠ t.bind f := by
  intro h
  by_cases hv : ∃ y, t = var y
  · obtain ⟨y, rfl⟩ := hv
    simp [vars] at hx
    exact ht (by rw [hx])
  · -- The two sides would have different heights.
    have hlt := height_lt_bind (f := f) hx fun y hy => hv ⟨y, hy⟩
    rw [h] at hlt
    exact Nat.lt_irrefl _ hlt

/-! ## Types without an absent part -/

mutual

/-- Whether no part of a type is absent. -/
def isWhole : Ty → Bool
  | absent => false
  | base _ => true
  | var _ => true
  | pair a d => isWhole a && isWhole d
  | proc ps r => areWhole ps && isWhole r

/-- Whether no part of any of the types is absent. -/
def areWhole : List Ty → Bool
  | [] => true
  | t :: ts => isWhole t && areWhole ts

end

theorem areWhole_iff {ts : List Ty} : areWhole ts = true ↔ ∀ t ∈ ts, t.isWhole = true := by
  induction ts with
  | nil => simp [areWhole]
  | cons t ts ih => simp [areWhole, ih]

theorem isWhole_pair {a d : Ty} :
    (pair a d).isWhole = true ↔ a.isWhole = true ∧ d.isWhole = true := by
  simp [isWhole]

theorem isWhole_proc {ps : List Ty} {r : Ty} :
    (proc ps r).isWhole = true ↔ (∀ p ∈ ps, p.isWhole = true) ∧ r.isWhole = true := by
  simp [isWhole, areWhole_iff]

/-- Replacing variables by whole types leaves a whole type whole. -/
theorem isWhole_bind {f : Nat → Ty} {t : Ty} (ht : t.isWhole = true)
    (hf : ∀ x ∈ t.vars, (f x).isWhole = true) : (t.bind f).isWhole = true := by
  induction t with
  | absent => exact ht
  | base b => rfl
  | var x => exact hf x (by simp [vars])
  | pair a d iha ihd =>
    obtain ⟨ha, hd⟩ := isWhole_pair.1 ht
    exact isWhole_pair.2 ⟨iha ha fun x hx => hf x (mem_vars_pair.2 (.inl hx)),
      ihd hd fun x hx => hf x (mem_vars_pair.2 (.inr hx))⟩
  | proc ps r ihps ihr =>
    obtain ⟨hps, hr⟩ := isWhole_proc.1 ht
    rw [bind_proc, isWhole_proc]
    refine ⟨?_, ihr hr fun x hx => hf x (mem_vars_proc.2 (.inr hx))⟩
    intro q hq
    obtain ⟨p, hp, rfl⟩ := List.mem_map.1 hq
    exact ihps p hp (hps p hp) fun x hx => hf x (mem_vars_proc.2 (.inl ⟨p, hp, hx⟩))

/-! ## Ground types -/

/-- A type without variables and without absent parts. -/
structure IsGround (t : Ty) : Prop where
  vars_eq_nil : t.vars = []
  whole : t.isWhole = true

instance (t : Ty) : Decidable t.IsGround :=
  decidable_of_iff (t.vars = [] ∧ t.isWhole = true)
    ⟨fun h => ⟨h.1, h.2⟩, fun h => ⟨h.vars_eq_nil, h.whole⟩⟩

theorem isGround_base (b : Base) : (base b).IsGround := ⟨rfl, rfl⟩

theorem isGround_pair {a d : Ty} : (pair a d).IsGround ↔ a.IsGround ∧ d.IsGround := by
  constructor
  · rintro ⟨hv, hw⟩
    obtain ⟨ha, hd⟩ := List.append_eq_nil_iff.1 hv
    obtain ⟨ha', hd'⟩ := isWhole_pair.1 hw
    exact ⟨⟨ha, ha'⟩, hd, hd'⟩
  · rintro ⟨ha, hd⟩
    exact ⟨List.append_eq_nil_iff.2 ⟨ha.vars_eq_nil, hd.vars_eq_nil⟩,
      isWhole_pair.2 ⟨ha.whole, hd.whole⟩⟩

theorem isGround_proc {ps : List Ty} {r : Ty} :
    (proc ps r).IsGround ↔ (∀ p ∈ ps, p.IsGround) ∧ r.IsGround := by
  have hvars : (proc ps r).vars = [] ↔ (∀ p ∈ ps, p.vars = []) ∧ r.vars = [] := by
    simp only [List.eq_nil_iff_forall_not_mem, mem_vars_proc, not_or, forall_and]
    exact and_congr_left fun _ => ⟨fun h p hp x hx => h x ⟨p, hp, hx⟩,
      fun h x ⟨p, hp, hx⟩ => h p hp x hx⟩
  constructor
  · rintro ⟨hv, hw⟩
    obtain ⟨hps, hr⟩ := hvars.1 hv
    obtain ⟨hps', hr'⟩ := isWhole_proc.1 hw
    exact ⟨fun p hp => ⟨hps p hp, hps' p hp⟩, hr, hr'⟩
  · rintro ⟨hps, hr⟩
    exact ⟨hvars.2 ⟨fun p hp => (hps p hp).vars_eq_nil, hr.vars_eq_nil⟩,
      isWhole_proc.2 ⟨fun p hp => (hps p hp).whole, hr.whole⟩⟩

/-- Replacing all variables by ground types makes a whole type ground. -/
theorem isGround_bind {f : Nat → Ty} {t : Ty} (ht : t.isWhole = true)
    (hf : ∀ x ∈ t.vars, (f x).IsGround) : (t.bind f).IsGround := by
  refine ⟨List.eq_nil_iff_forall_not_mem.2 fun y hy => ?_, isWhole_bind ht fun x hx => (hf x hx).whole⟩
  obtain ⟨x, hx, hy⟩ := mem_vars_bind.1 hy
  rw [(hf x hx).vars_eq_nil] at hy
  exact absurd hy List.not_mem_nil

/-- All types put in for the variables of a type are ground if what comes out is. -/
theorem IsGround.of_bind {f : Nat → Ty} {t : Ty} (h : (t.bind f).IsGround) {x : Nat}
    (hx : x ∈ t.vars) : (f x).IsGround := by
  induction t with
  | absent | base => exact absurd hx List.not_mem_nil
  | var y =>
    obtain rfl : x = y := by simpa [vars] using hx
    exact h
  | pair a d iha ihd =>
    obtain ⟨ha, hd⟩ := isGround_pair.1 h
    rcases mem_vars_pair.1 hx with hx | hx
    · exact iha ha hx
    · exact ihd hd hx
  | proc ps r ihps ihr =>
    rw [bind_proc] at h
    obtain ⟨hps, hr⟩ := isGround_proc.1 h
    rcases mem_vars_proc.1 hx with ⟨p, hp, hx⟩ | hx
    · exact ihps p hp (hps _ (List.mem_map_of_mem hp)) hx
    · exact ihr hr hx

end TypedScheme.Ty
