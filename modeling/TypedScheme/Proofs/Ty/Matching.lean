import TypedScheme.Proofs.Ty.Triangular

/-!
# What matching does to a substitution

Matching two types is solving one equation between them, and it goes on by solving the equations
between their parts. `Substitution.Solved` says once what an attempt to solve equations can do, and
every step of matching is shown to keep to it.

## What this module delivers

- `Solved n s E r`: the outcome `r` of an attempt to solve the equations `E` after the bindings `s`.
  The bindings stay triangular and only grow, a success makes the two sides of every equation equal,
  no binding is made that a solution of the equations would not respect, and the attempt succeeds if
  there is a solution whose types are at most `n` high.
- `Solved.andThen` joins two attempts, and `Solved.reduce` replaces equations by others with the same
  solutions; a step of matching is one or the other.
- `solved_matchWithin`: matching within a depth of `n` solves the equation between the two types.
-/

set_option autoImplicit false

namespace TypedScheme.Substitution

open Ty

/-! ## Equations -/

/-- A replacement makes the two sides of every equation equal. -/
def Holds (θ : Nat → Ty) (E : List (Ty × Ty)) : Prop := ∀ e ∈ E, e.1.bind θ = e.2.bind θ

theorem holds_append {θ : Nat → Ty} {E F : List (Ty × Ty)} :
    Holds θ (E ++ F) ↔ Holds θ E ∧ Holds θ F := by
  simp only [Holds, List.mem_append]
  exact ⟨fun h => ⟨fun e he => h e (.inl he), fun e he => h e (.inr he)⟩,
    fun h e he => he.elim (h.1 e) (h.2 e)⟩

@[simp] theorem holds_singleton {θ : Nat → Ty} {a b : Ty} :
    Holds θ [(a, b)] ↔ a.bind θ = b.bind θ := by
  simp [Holds]

/-- Equations between the elements of two lists hold when the replaced lists are equal. -/
theorem holds_zip {θ : Nat → Ty} {as bs : List Ty} (h : as.length = bs.length) :
    Holds θ (as.zip bs) ↔ as.map (bind θ) = bs.map (bind θ) := by
  induction as generalizing bs with
  | nil =>
    cases bs with
    | nil => simp [Holds]
    | cons b bs => simp at h
  | cons a as ih =>
    cases bs with
    | nil => simp at h
    | cons b bs =>
      have hrest := ih (by simpa using h)
      simp only [Holds, List.zip_cons_cons, List.mem_cons, forall_eq_or_imp, List.map_cons,
        List.cons.injEq] at hrest ⊢
      rw [hrest]

/-- A property of types that goes over to their parts. -/
structure Hereditary (Q : Ty → Prop) : Prop where
  pair : ∀ {a d}, Q (.pair a d) → Q a ∧ Q d
  proc : ∀ {ps r}, Q (.proc ps r) → (∀ p ∈ ps, Q p) ∧ Q r

theorem hereditary_isWhole : Hereditary fun t => t.isWhole = true :=
  ⟨isWhole_pair.1, isWhole_proc.1⟩

/-- A property of the types of the bindings goes over from a type to its head. -/
theorem walk_of_forall {Q : Ty → Prop} {s : Substitution} (hs : ∀ p ∈ s, Q p.2) {t : Ty}
    (ht : Q t) : Q (s.walk t) := by
  rcases walk_eq_self_or_mem s t with h | ⟨p, hp, h⟩
  · rw [h]
    exact ht
  · rw [h]
    exact hs p hp

/-! ## Attempts to solve equations -/

/-- The outcome of an attempt to solve equations after the bindings `s`, which succeeds at least when
there is a solution whose types are at most `n` high. -/
structure Solved (n : Nat) (s : Substitution) (E : List (Ty × Ty)) (r : Bool × Substitution) :
    Prop where
  triangular : r.2.Triangular
  suffix : s <:+ r.2
  holds : r.1 = true → Holds (fun x => r.2.apply (.var x)) E
  respected : ∀ θ, s.RespectedBy θ → Holds θ E → r.2.RespectedBy θ
  success : (∀ e ∈ E, e.1.isWhole = true ∧ e.2.isWhole = true) →
    (∀ p ∈ s, p.2.isWhole = true) → ∀ θ, s.RespectedBy θ → Holds θ E →
      (∀ e ∈ E, (e.1.bind θ).height ≤ n) → r.1 = true
  parts : ∀ {Q : Ty → Prop}, Hereditary Q → (∀ e ∈ E, Q e.1 ∧ Q e.2) → (∀ p ∈ s, Q p.2) →
    ∀ p ∈ r.2, p ∈ s ∨ Q (.var p.1) ∧ Q p.2

namespace Solved

variable {n m : Nat} {s : Substitution} {E F : List (Ty × Ty)} {r : Bool × Substitution}

/-- The bindings after an attempt have every hereditary property of the equations and of the
bindings before. -/
theorem types_of_hereditary (h : Solved n s E r) {Q : Ty → Prop} (hQ : Hereditary Q)
    (hE : ∀ e ∈ E, Q e.1 ∧ Q e.2) (hs : ∀ p ∈ s, Q p.2) : ∀ p ∈ r.2, Q p.2 := by
  intro p hp
  rcases h.parts hQ hE hs p hp with hp | hp
  · exact hs p hp
  · exact hp.2

/-- No equations are solved without a step. -/
theorem nil (hs : s.Triangular) : Solved n s [] (true, s) where
  triangular := hs
  suffix := List.suffix_refl s
  holds := by simp [Holds]
  respected := fun _ hθ _ => hθ
  success := by simp
  parts := fun _ _ _ p hp => .inl hp

/-- Equations without a low enough solution may fail at once. -/
theorem failure (hs : s.Triangular)
    (hE : (∀ e ∈ E, e.1.isWhole = true ∧ e.2.isWhole = true) → ∀ θ, s.RespectedBy θ → Holds θ E →
      ∃ e ∈ E, n < (e.1.bind θ).height) :
    Solved n s E (false, s) where
  triangular := hs
  suffix := List.suffix_refl s
  holds := by simp
  respected := fun _ hθ _ => hθ
  success := by
    intro hw _ θ hθ hθE hheight
    obtain ⟨e, he, hlt⟩ := hE hw θ hθ hθE
    exact absurd (hheight e he) (by omega)
  parts := fun _ _ _ p hp => .inl hp

/-- An attempt to solve some equations is one to solve others with the same solutions, if the first
equations are made of parts of the others and are as much lower as the bound. -/
theorem reduce (h : Solved m s E r) (hiff : ∀ θ, s.RespectedBy θ → (Holds θ F ↔ Holds θ E))
    (hparts : ∀ {Q : Ty → Prop}, Hereditary Q → (∀ e ∈ F, Q e.1 ∧ Q e.2) → (∀ p ∈ s, Q p.2) →
      ∀ e ∈ E, Q e.1 ∧ Q e.2)
    (hheight : ∀ θ, s.RespectedBy θ → Holds θ F → (∀ e ∈ F, (e.1.bind θ).height ≤ n) →
      ∀ e ∈ E, (e.1.bind θ).height ≤ m) :
    Solved n s F r where
  triangular := h.triangular
  suffix := h.suffix
  holds := by
    intro hr
    have hres := h.triangular.respectedBy_of_suffix h.suffix h.triangular.respectedBy_apply
    exact (hiff _ hres).2 (h.holds hr)
  respected := fun θ hθ hF => h.respected θ hθ ((hiff θ hθ).1 hF)
  success := by
    intro hw hsw θ hθ hF hn
    exact h.success (hparts hereditary_isWhole hw hsw) hsw θ hθ ((hiff θ hθ).1 hF)
      (hheight θ hθ hF hn)
  parts := fun hQ hF hs => h.parts hQ (hparts hQ hF hs) hs

/-- Two attempts in a row solve the equations of both. -/
theorem andThen {f : Substitution → Bool × Substitution} (h : Solved n s E r)
    (hf : r.2.Triangular → Solved n r.2 F (f r.2)) : Solved n s (E ++ F) (andThen r f) := by
  have hf := hf h.triangular
  cases hr : r.1 with
  | false =>
    -- The first attempt failed, so its equations have no solution within the bound.
    simp only [Substitution.andThen, hr, Bool.false_eq_true, if_false]
    exact {
      triangular := h.triangular
      suffix := h.suffix
      holds := by simp [hr]
      respected := fun θ hθ hEF => h.respected θ hθ (holds_append.1 hEF).1
      success := by
        intro hw hsw θ hθ hEF hn
        exact h.success (fun e he => hw e (List.mem_append_left _ he)) hsw θ hθ
          (holds_append.1 hEF).1 fun e he => hn e (List.mem_append_left _ he)
      parts := fun hQ hEF hs =>
        h.parts hQ (fun e he => hEF e (List.mem_append_left _ he)) hs }
  | true =>
    -- The second attempt starts from the bindings of the first, and keeps its equations solved.
    simp only [Substitution.andThen, hr, if_true]
    exact {
      triangular := hf.triangular
      suffix := h.suffix.trans hf.suffix
      holds := by
        intro hr2
        have hres := hf.triangular.respectedBy_of_suffix hf.suffix hf.triangular.respectedBy_apply
        refine holds_append.2 ⟨fun e he => ?_, hf.holds hr2⟩
        -- The later bindings are respected by no replacement that tells the two sides apart.
        have heq := h.holds hr e he
        rw [← apply_eq_bind, ← apply_eq_bind] at heq
        rw [← h.triangular.bind_apply hres, heq, h.triangular.bind_apply hres]
      respected := fun θ hθ hEF =>
        hf.respected θ (h.respected θ hθ (holds_append.1 hEF).1) (holds_append.1 hEF).2
      success := by
        intro hw hsw θ hθ hEF hn
        have hE : ∀ e ∈ E, e.1.isWhole = true ∧ e.2.isWhole = true :=
          fun e he => hw e (List.mem_append_left _ he)
        refine hf.success (fun e he => hw e (List.mem_append_right _ he))
          (h.types_of_hereditary hereditary_isWhole hE hsw) θ
          (h.respected θ hθ (holds_append.1 hEF).1) (holds_append.1 hEF).2
          fun e he => hn e (List.mem_append_right _ he)
      parts := by
        intro Q hQ hEF hs p hp
        have hE : ∀ e ∈ E, Q e.1 ∧ Q e.2 := fun e he => hEF e (List.mem_append_left _ he)
        rcases hf.parts hQ (fun e he => hEF e (List.mem_append_right _ he))
          (h.types_of_hereditary hQ hE hs) p hp with hp | hp
        · exact h.parts hQ hE hs p hp
        · exact .inr hp }

end Solved

/-! ## The steps of matching -/

/-- A type that is its own head is resolved to a variable only if it is that variable. -/
theorem Triangular.eq_var_of_apply_eq_var {s : Substitution} (hs : s.Triangular) {t : Ty} {x : Nat}
    (ht : s.walk t = t) (h : s.apply t = .var x) : t = .var x := by
  cases t with
  | absent => simp at h
  | base b => simp at h
  | var y => rwa [apply_var_of_not_mem_keys (hs.not_mem_keys_of_walk_eq_var ht)] at h
  | pair a d => simp at h
  | proc ps r => simp at h

/-- Binding a variable without a binding solves the equation between it and a type. -/
theorem solved_bindVar (n : Nat) {s : Substitution} (hs : s.Triangular) {x : Nat} {t : Ty}
    (hx : x ∉ s.keys) (ht : s.walk t = t) : Solved n s [(.var x, t)] (s.bindVar x t) := by
  unfold bindVar
  split
  · -- The type is the variable itself.
    rename_i heq
    subst heq
    exact {
      triangular := hs
      suffix := List.suffix_refl s
      holds := by simp
      respected := fun _ hθ _ => hθ
      success := by simp
      parts := fun _ _ _ p hp => .inl hp }
  · rename_i hne
    split
    · -- The type holds the variable, so no replacement makes them equal.
      rename_i hocc
      refine .failure hs fun _ θ hθ hE => ?_
      have hmem : x ∈ (s.apply t).vars := mentions_iff.1 hocc
      have hdiff := apply_ne_bind_of_mem_vars (f := θ) hmem
        fun h => hne (hs.eq_var_of_apply_eq_var ht h)
      rw [hs.bind_apply hθ] at hdiff
      exact absurd (holds_singleton.1 hE) hdiff
    · -- The variable gets its binding, which is the equation itself.
      rename_i hocc
      have hmem : x ∉ (s.apply t).vars := fun h => hocc (mentions_iff.2 h)
      have hs' : Triangular ((x, t) :: s) := hs.cons hx ht hmem
      exact {
        triangular := hs'
        suffix := List.suffix_cons (x, t) s
        holds := fun _ => holds_singleton.2 ((respectedBy_cons hx).1 hs'.respectedBy_apply).1
        respected := fun θ hθ hE => (respectedBy_cons hx).2 ⟨holds_singleton.1 hE, hθ⟩
        success := by simp
        parts := by
          intro Q _ hE _ p hp
          rcases List.mem_cons.1 hp with rfl | hp
          · exact .inr (hE (.var x, t) (by simp))
          · exact .inl hp }

namespace Solved

variable {n : Nat} {s : Substitution} {r : Bool × Substitution}

/-- The two sides of an equation may change places. -/
theorem swap {a b : Ty} (h : Solved n s [(a, b)] r) : Solved n s [(b, a)] r := by
  refine h.reduce (fun θ _ => ?_) (fun _ hF _ => ?_) fun θ _ hF hn => ?_
  · rw [holds_singleton, holds_singleton, eq_comm]
  · simpa [and_comm] using hF
  · have hba := holds_singleton.1 hF
    simpa [hba] using hn

/-- An equation has the solutions of the equation between the heads of its sides. -/
theorem of_walk {a b : Ty} (hs : s.Triangular) (h : Solved n s [(s.walk a, s.walk b)] r) :
    Solved n s [(a, b)] r := by
  refine h.reduce (fun θ hθ => ?_) (fun {Q} _ hF hQs => ?_) fun θ hθ _ hn => ?_
  · rw [holds_singleton, holds_singleton, hs.bind_walk hθ, hs.bind_walk hθ]
  · have hab : Q a ∧ Q b := hF (a, b) (by simp)
    simpa using ⟨walk_of_forall hQs hab.1, walk_of_forall hQs hab.2⟩
  · simpa [hs.bind_walk hθ] using hn

/-- An equation between pair types has the solutions of the equations between their parts. -/
theorem pair {a d a' d' : Ty} (h : Solved n s ([(a, a')] ++ [(d, d')]) r) :
    Solved (n + 1) s [(.pair a d, .pair a' d')] r := by
  refine h.reduce (fun θ _ => ?_) (fun {Q} hQ hF _ => ?_) fun θ _ _ hn => ?_
  · rw [holds_append, holds_singleton, holds_singleton, holds_singleton, bind_pair, bind_pair,
      pair.injEq]
  · have hF : Q (.pair a d) ∧ Q (.pair a' d') := by simpa using hF
    obtain ⟨ha, hd⟩ := hQ.pair hF.1
    obtain ⟨ha', hd'⟩ := hQ.pair hF.2
    simp [ha, hd, ha', hd']
  · have hle : ((Ty.pair a d).bind θ).height ≤ n + 1 := by simpa using hn
    rw [bind_pair, height_pair_le] at hle
    simpa using hle

/-- An equation between procedure types of the same arity has the solutions of the equations between
their parameters and between their results. -/
theorem proc {ps qs : List Ty} {t u : Ty} (hlen : ps.length = qs.length)
    (h : Solved n s (ps.zip qs ++ [(t, u)]) r) :
    Solved (n + 1) s [(.proc ps t, .proc qs u)] r := by
  refine h.reduce (fun θ _ => ?_) (fun {Q} hQ hF _ => ?_) fun θ _ _ hn => ?_
  · rw [holds_append, holds_zip hlen, holds_singleton, holds_singleton, bind_proc, bind_proc,
      proc.injEq]
  · have hF : Q (.proc ps t) ∧ Q (.proc qs u) := by simpa using hF
    obtain ⟨hps, ht⟩ := hQ.proc hF.1
    obtain ⟨hqs, hu⟩ := hQ.proc hF.2
    intro e he
    rcases List.mem_append.1 he with he | he
    · exact ⟨hps _ (List.of_mem_zip he).1, hqs _ (List.of_mem_zip he).2⟩
    · have he : e = (t, u) := by simpa using he
      subst he
      exact ⟨ht, hu⟩
  · have hle : ((Ty.proc ps t).bind θ).height ≤ n + 1 := by simpa using hn
    rw [bind_proc, height_proc_le] at hle
    intro e he
    rcases List.mem_append.1 he with he | he
    · exact hle.1 _ (List.mem_map_of_mem (List.of_mem_zip he).1)
    · have he : e = (t, u) := by simpa using he
      subst he
      exact hle.2

end Solved

/-- Matching lists of types of the same length solves the equations between their elements. -/
theorem solved_matchLists {n : Nat} {one : Substitution → Ty → Ty → Bool × Substitution}
    (hone : ∀ {s a b}, s.Triangular → Solved n s [(a, b)] (one s a b)) {s : Substitution}
    (hs : s.Triangular) {as bs : List Ty} (hlen : as.length = bs.length) :
    Solved n s (as.zip bs) (matchLists one s as bs) := by
  induction as generalizing s bs with
  | nil =>
    cases bs with
    | nil => exact .nil hs
    | cons b bs => simp at hlen
  | cons a as ih =>
    cases bs with
    | nil => simp at hlen
    | cons b bs =>
      rw [matchLists, List.zip_cons_cons]
      exact (hone hs).andThen (E := [(a, b)]) fun hs' => ih hs' (by simpa using hlen)

/-- Whole types of different forms, neither of them a variable, are not made equal. -/
theorem bind_ne_bind_of_clash {a b : Ty} (ha : a.isWhole = true) (hva : ∀ x, a ≠ .var x)
    (hvb : ∀ x, b ≠ .var x) (hbase : ∀ p q, a = .base p → b ≠ .base q)
    (hpair : ∀ c d c' d', a = .pair c d → b ≠ .pair c' d')
    (hproc : ∀ ps t qs u, a = .proc ps t → b ≠ .proc qs u) (θ : Nat → Ty) :
    a.bind θ ≠ b.bind θ := by
  cases a with
  | absent => simp [isWhole] at ha
  | var x => exact absurd rfl (hva x)
  | base p =>
    cases b with
    | base q => exact absurd rfl (hbase p q rfl)
    | var y => exact absurd rfl (hvb y)
    | absent | pair _ _ | proc _ _ => simp
  | pair c d =>
    cases b with
    | pair c' d' => exact absurd rfl (hpair c d c' d' rfl)
    | var y => exact absurd rfl (hvb y)
    | absent | base _ | proc _ _ => simp
  | proc ps t =>
    cases b with
    | proc qs u => exact absurd rfl (hproc ps t qs u rfl)
    | var y => exact absurd rfl (hvb y)
    | absent | base _ | pair _ _ => simp

/-- Matching within a depth of `n` solves the equation between two types. The induction is on the
depth; at each level the sides of the equation are replaced by their heads, and the forms of the
heads decide the step. -/
theorem solved_matchWithin (n : Nat) {s : Substitution} {a b : Ty} (hs : s.Triangular) :
    Solved n s [(a, b)] (matchWithin n s a b) := by
  induction n generalizing s a b with
  | zero =>
    -- No type has the height zero, so there is no solution within the depth.
    refine .failure hs fun _ θ _ _ => ⟨(a, b), by simp, ?_⟩
    exact one_le_height (a.bind θ)
  | succ n ih =>
    apply Solved.of_walk hs
    have ha := hs.walk_walk a
    have hb := hs.walk_walk b
    rw [matchWithin]
    generalize s.walk a = a' at *
    generalize s.walk b = b' at *
    split
    · -- A variable on the left is bound.
      exact solved_bindVar _ hs (hs.not_mem_keys_of_walk_eq_var ha) hb
    · -- A variable on the right is bound, which solves the equation read backwards.
      exact (solved_bindVar _ hs (hs.not_mem_keys_of_walk_eq_var hb) ha).swap
    · -- Two base types have nothing to solve: they are equal or never will be.
      rename_i p q
      by_cases hpq : p = q
      · subst hpq
        rw [decide_eq_true rfl]
        exact (Solved.nil (n := n) hs).reduce (fun θ _ => by simp [Holds]) (by simp) (by simp)
      · rw [decide_eq_false hpq]
        refine .failure hs fun _ θ _ hE => ?_
        rw [holds_singleton, bind_base, bind_base, base.injEq] at hE
        exact absurd hE hpq
    · -- Two pairs are matched part by part, one level down.
      exact Solved.pair ((ih hs).andThen fun hs' => ih hs')
    · -- So are two procedures, if they take the same number of parameters.
      split
      · rename_i hlen
        exact Solved.proc hlen ((solved_matchLists ih hs hlen).andThen fun hs' => ih hs')
      · rename_i hlen
        refine .failure hs fun _ θ _ hE => ?_
        rw [holds_singleton, bind_proc, bind_proc, proc.injEq] at hE
        exact absurd (by simpa using congrArg List.length hE.1) hlen
    · -- All other heads clash.
      rename_i hva hvb hbase hpair hproc
      refine .failure hs fun hw θ _ hE => ?_
      have hne := bind_ne_bind_of_clash (hw (a', b') (by simp)).1 hva hvb hbase hpair hproc θ
      exact absurd (holds_singleton.1 hE) hne

end TypedScheme.Substitution
