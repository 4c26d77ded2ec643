import Mathlib.Data.Finset.Card
import Mathlib.Order.Interval.Set.Defs
import TypedScheme.Proofs.Ty.Instances

/-!
# Copies of a type in new variables

A copy gives every variable a new number where it is met for the first time, and looks the number up
where it is met again. The invariant of the traversal relates the numbers given out so far to the list
of the variables met so far: the variable at place `i` of that list has got the number `last + 1 + i`.

## What this module delivers

- `Ty.addNew`: the variables met so far, with the new ones of more occurrences behind them.
- `Ty.Renewal.Knows` and `Ty.knows_renew`: the invariant, and that copying a type keeps it.
- `Ty.freshen_eq_bind`: a copy replaces the variables by those of `Ty.freshVars`, which are what an
  application gives its operator.
- `Ty.freshen_alphaVariant`: a copy is a renaming of the variables, in the order of their first
  occurrence, onto the numbers after the last one in use.
-/

set_option autoImplicit false

namespace TypedScheme.Ty

variable {known xs ys : List Nat} {x y last : Nat} {n : Renewal} {t : Ty}

/-! ## The order of first occurrences -/

/-- The elements of the first list, and behind them those of the second that are met there for the first
time. -/
def addNew (known xs : List Nat) : List Nat :=
  xs.foldl (fun known x => if x ∈ known then known else known ++ [x]) known

/-- New variables are added part by part. -/
theorem addNew_append (known xs ys : List Nat) :
    addNew known (xs ++ ys) = addNew (addNew known xs) ys :=
  List.foldl_append

theorem addNew_cons (known : List Nat) (x : Nat) (xs : List Nat) :
    addNew known (x :: xs) = addNew (if x ∈ known then known else known ++ [x]) xs := rfl

theorem addNew_singleton (known : List Nat) (x : Nat) :
    addNew known [x] = if x ∈ known then known else known ++ [x] := rfl

/-- Those that are added are the ones not yet known, each once. -/
theorem addNew_eq_append (known xs : List Nat) :
    addNew known xs = known ++ (xs.filter (· ∉ known)).eraseDups := by
  induction xs generalizing known with
  | nil => simp [addNew]
  | cons x xs ih =>
    rw [addNew_cons, ih]
    by_cases hx : x ∈ known
    · simp [hx]
    · have hfilter : (xs.filter (· ∉ known)).filter (fun y => !y == x) =
          xs.filter (· ∉ known ++ [x]) := by
        rw [List.filter_filter]
        refine List.filter_congr fun y _ => ?_
        rw [Bool.eq_iff_iff]
        simp [and_comm]
      rw [if_neg hx, List.filter_cons_of_pos (by simpa using hx), List.eraseDups_cons, hfilter,
        List.append_assoc, List.singleton_append]

/-- The different variables of a type are what is added to none. -/
theorem distinctVars_eq_addNew (t : Ty) : t.distinctVars = addNew [] t.vars := by
  simp [addNew_eq_append, distinctVars]

theorem mem_addNew : x ∈ addNew known xs ↔ x ∈ known ∨ x ∈ xs := by
  rw [addNew_eq_append, List.mem_append, List.mem_eraseDups, List.mem_filter]
  by_cases hx : x ∈ known <;> simp [hx]

/-- A variable that is known keeps its place. -/
theorem idxOf_addNew (hx : x ∈ known) (xs : List Nat) :
    (addNew known xs).idxOf x = known.idxOf x := by
  rw [addNew_eq_append, List.idxOf_append_of_mem hx]

theorem nodup_addNew (h : known.Nodup) : (addNew known xs).Nodup := by
  induction xs generalizing known with
  | nil => exact h
  | cons x xs ih =>
    rw [addNew_cons]
    apply ih
    split
    · exact h
    · next hx => exact List.nodup_append'.2 ⟨h, List.nodup_singleton x, by simpa using hx⟩

theorem idxOf_concat (hx : x ∉ xs) : (xs ++ [x]).idxOf x = xs.length := by
  simp [List.idxOf_append, hx]

/-- The places in the list of first occurrences have the order of the first occurrences. The induction
takes occurrences off the end, where they do not move those before them. -/
theorem idxOf_addNew_lt_iff (hx : x ∈ xs) (hy : y ∈ xs) :
    (addNew [] xs).idxOf x < (addNew [] xs).idxOf y ↔ xs.idxOf x < xs.idxOf y := by
  induction xs using List.reverseRecOn generalizing x y with
  | nil => simp at hx
  | append_singleton xs z ih =>
    have hold {w : Nat} (hw : w ∈ xs) : (xs ++ [z]).idxOf w = xs.idxOf w :=
      List.idxOf_append_of_mem hw
    -- A variable that occurs again is added to neither list, and a new one comes last in both.
    by_cases hz : z ∈ xs
    · have hmem {w : Nat} (hw : w ∈ xs ++ [z]) : w ∈ xs := by
        rcases List.mem_append.1 hw with hw | hw
        · exact hw
        · rwa [List.mem_singleton.1 hw]
      have hknown : z ∈ addNew [] xs := mem_addNew.2 (.inr hz)
      rw [addNew_append, addNew_singleton, if_pos hknown, hold (hmem hx), hold (hmem hy)]
      exact ih (hmem hx) (hmem hy)
    · have hunknown : z ∉ addNew [] xs := fun h => hz (by simpa using mem_addNew.1 h)
      rw [addNew_append, addNew_singleton, if_neg hunknown]
      have hbefore {w : Nat} (hw : w ∈ xs) :
          (addNew [] xs ++ [z]).idxOf w = (addNew [] xs).idxOf w ∧
            (addNew [] xs).idxOf w < (addNew [] xs).length ∧ xs.idxOf w < xs.length :=
        ⟨List.idxOf_append_of_mem (mem_addNew.2 (.inr hw)),
          List.idxOf_lt_length_of_mem (mem_addNew.2 (.inr hw)), List.idxOf_lt_length_of_mem hw⟩
      rcases List.mem_append.1 hx with hxs | hxz <;> rcases List.mem_append.1 hy with hys | hyz
      · rw [(hbefore hxs).1, (hbefore hys).1, hold hxs, hold hys]
        exact ih hxs hys
      · obtain ⟨hplacex, hlt, hlt'⟩ := hbefore hxs
        rw [List.mem_singleton.1 hyz, hplacex, hold hxs, idxOf_concat hunknown, idxOf_concat hz]
        omega
      · obtain ⟨hplacey, hlt, hlt'⟩ := hbefore hys
        rw [List.mem_singleton.1 hxz, hplacey, hold hys, idxOf_concat hunknown, idxOf_concat hz]
        omega
      · rw [List.mem_singleton.1 hxz, List.mem_singleton.1 hyz]
        simp

/-! ## The traversal -/

/-- The state of a copy that started after the number `last` and has met the variables `known`. -/
structure Renewal.Knows (last : Nat) (known : List Nat) (n : Renewal) : Prop where
  last_eq : n.last = last + known.length
  lookup_of_mem : ∀ x ∈ known, n.fresh.lookup x = some (.var (last + 1 + known.idxOf x))
  lookup_of_not_mem : ∀ x, x ∉ known → n.fresh.lookup x = none

theorem run_bind_of_run_eq {α β : Type} {c : StateM Renewal α} {f : α → StateM Renewal β} {a : α}
    {n n' : Renewal} (h : c.run n = (a, n')) : (c >>= f).run n = (f a).run n' := by
  rw [StateT.run_bind, h]
  rfl

/-- A variable that has been renewed is renewed the same way. -/
theorem run_renewVar_of_some {u : Ty} (h : n.fresh.lookup x = some u) :
    (renewVar x).run n = (u, n) := by
  rw [renewVar, run_bind_of_run_eq (show (get : StateM Renewal Renewal).run n = (n, n) from rfl)]
  simp only [h]
  rfl

/-- A variable that has not been renewed gets the next number. -/
theorem run_renewVar_of_none (h : n.fresh.lookup x = none) :
    (renewVar x).run n =
      (.var (n.last + 1), ⟨n.last + 1, (x, .var (n.last + 1)) :: n.fresh⟩) := by
  rw [renewVar, run_bind_of_run_eq (show (get : StateM Renewal Renewal).run n = (n, n) from rfl)]
  simp only [h]
  rfl

/-- One variable: a known one is looked up, and a new one gets the next number. -/
theorem knows_renewVar (h : n.Knows last known) (x : Nat) :
    ∃ n' : Renewal, (renewVar x).run n = (.var (last + 1 + (addNew known [x]).idxOf x), n') ∧
      n'.Knows last (addNew known [x]) := by
  rw [addNew_singleton]
  by_cases hx : x ∈ known
  · rw [if_pos hx]
    exact ⟨n, run_renewVar_of_some (h.lookup_of_mem x hx), h⟩
  · have hnew : n.last + 1 = last + 1 + (known ++ [x]).idxOf x := by
      rw [idxOf_concat hx, h.last_eq]
      omega
    rw [if_neg hx, ← hnew]
    refine ⟨_, run_renewVar_of_none (h.lookup_of_not_mem x hx), ?_, fun y hy => ?_, fun y hy => ?_⟩
    · simp [h.last_eq, Nat.add_assoc]
    · by_cases hyx : y = x
      · subst hyx
        simp [hnew]
      · have hy : y ∈ known := by simpa [hyx] using hy
        have hne : (y == x) = false := by simpa using hyx
        rw [List.lookup_cons, hne, List.idxOf_append_of_mem hy]
        exact h.lookup_of_mem y hy
    · simp only [List.mem_append, List.mem_singleton, not_or] at hy
      have hne : (y == x) = false := by simpa using hy.2
      rw [List.lookup_cons, hne]
      exact h.lookup_of_not_mem y hy.1

/-- The number of a variable in a copy that has met the variables `known`. -/
def newNumber (last : Nat) (known : List Nat) (x : Nat) : Nat := last + 1 + known.idxOf x

/-- More variables do not change the copy of a type whose variables are known. -/
theorem rename_newNumber_addNew (ht : ∀ x ∈ t.vars, x ∈ known) (xs : List Nat) :
    t.rename (newNumber last (addNew known xs)) = t.rename (newNumber last known) :=
  rename_congr fun x hx => by rw [newNumber, newNumber, idxOf_addNew (ht x hx)]

/-- Types in a row are renewed one after the other, each with what is known before it. -/
theorem knows_renewAll {ts : List Ty}
    (ih : ∀ t ∈ ts, ∀ {known : List Nat} {n : Renewal}, n.Knows last known →
      ∃ n' : Renewal, (renew t).run n = (t.rename (newNumber last (addNew known t.vars)), n') ∧
        n'.Knows last (addNew known t.vars))
    (h : n.Knows last known) :
    ∃ n' : Renewal, (renewAll ts).run n =
        (ts.map (rename (newNumber last (addNew known (varsAll ts)))), n') ∧
      n'.Knows last (addNew known (varsAll ts)) := by
  induction ts generalizing known n with
  | nil => exact ⟨n, rfl, h⟩
  | cons t ts ihts =>
    obtain ⟨ht, hts⟩ := List.forall_mem_cons.1 ih
    obtain ⟨n₁, hrun₁, h₁⟩ := ht h
    obtain ⟨n₂, hrun₂, h₂⟩ := ihts hts h₁
    rw [varsAll, addNew_append]
    refine ⟨n₂, ?_, h₂⟩
    rw [List.map_cons, rename_newNumber_addNew fun x hx => mem_addNew.2 (.inr hx)]
    rw [renewAll, run_bind_of_run_eq hrun₁, run_bind_of_run_eq hrun₂]
    rfl

/-- Copying a type renames its variables and gives numbers to those that are met for the first time. -/
theorem knows_renew (t : Ty) (h : n.Knows last known) :
    ∃ n' : Renewal, (renew t).run n = (t.rename (newNumber last (addNew known t.vars)), n') ∧
      n'.Knows last (addNew known t.vars) := by
  induction t generalizing known n with
  | absent => exact ⟨n, rfl, h⟩
  | base b => exact ⟨n, rfl, h⟩
  | var x => exact knows_renewVar h x
  | pair a d iha ihd =>
    obtain ⟨n₁, hrun₁, h₁⟩ := iha h
    obtain ⟨n₂, hrun₂, h₂⟩ := ihd h₁
    rw [vars, addNew_append]
    refine ⟨n₂, ?_, h₂⟩
    -- The variables that only the second part has do not change the copy of the first.
    rw [rename_pair, rename_newNumber_addNew fun x hx => mem_addNew.2 (.inr hx)]
    rw [renew, run_bind_of_run_eq hrun₁, run_bind_of_run_eq hrun₂]
    rfl
  | proc ps r ihps ihr =>
    obtain ⟨n₁, hrun₁, h₁⟩ := knows_renewAll (fun p hp => ihps p hp) h
    obtain ⟨n₂, hrun₂, h₂⟩ := ihr h₁
    rw [vars, addNew_append]
    refine ⟨n₂, ?_, h₂⟩
    have hps : ps.map (rename (newNumber last (addNew (addNew known (varsAll ps)) r.vars))) =
        ps.map (rename (newNumber last (addNew known (varsAll ps)))) :=
      List.map_congr_left fun p hp => rename_newNumber_addNew
        (fun x hx => mem_addNew.2 (.inr (mem_varsAll.2 ⟨p, hp, hx⟩))) _
    rw [rename_proc, hps]
    rw [renew, run_bind_of_run_eq hrun₁, run_bind_of_run_eq hrun₂]
    rfl

theorem knows_nil (last : Nat) : Renewal.Knows last [] ⟨last, []⟩ :=
  ⟨rfl, by simp, fun _ _ => rfl⟩

/-- A copy renames the variables to their places in the list of first occurrences. -/
theorem freshen_eq_rename (last : Nat) (t : Ty) :
    t.freshen last = (t.rename (newNumber last t.distinctVars), last + t.distinctVars.length) := by
  obtain ⟨n, hrun, hn⟩ := knows_renew t (knows_nil last)
  rw [distinctVars_eq_addNew, freshen, hrun, ← hn.last_eq]

/-- A copy replaces the variables as an application does with those of its operator. -/
theorem freshen_eq_bind (last : Nat) (t : Ty) :
    t.freshen last = (t.bind (t.freshVars last).1, (t.freshVars last).2) :=
  freshen_eq_rename last t

/-! ## Copies as renamings -/

theorem nodup_distinctVars (t : Ty) : t.distinctVars.Nodup := by
  rw [distinctVars_eq_addNew]
  exact nodup_addNew List.nodup_nil

/-- There are as many different variables as the set of variables has. -/
theorem length_distinctVars (t : Ty) : t.distinctVars.length = t.vars.toFinset.card := by
  have hset : t.distinctVars.toFinset = t.vars.toFinset := by
    ext x
    simp [mem_distinctVars]
  rw [← hset, List.toFinset_card_of_nodup (nodup_distinctVars t)]

/-- The variables of a type get exactly the next numbers. -/
theorem bijOn_newNumber (last : Nat) (t : Ty) :
    Set.BijOn (newNumber last t.distinctVars) {x | x ∈ t.vars}
      (Set.Icc (last + 1) (last + t.vars.toFinset.card)) := by
  rw [← length_distinctVars]
  refine ⟨fun x hx => ?_, freshVars_injOn last t, fun k hk => ?_⟩
  · have hlt := List.idxOf_lt_length_of_mem (mem_distinctVars.2 hx)
    simp only [newNumber, Set.mem_Icc]
    omega
  · obtain ⟨hlow, hhigh⟩ := Set.mem_Icc.1 hk
    have hlt : k - (last + 1) < t.distinctVars.length := by omega
    refine ⟨t.distinctVars[k - (last + 1)], mem_distinctVars.1 (List.getElem_mem hlt), ?_⟩
    rw [newNumber, (nodup_distinctVars t).idxOf_getElem]
    omega

/-- A copy of a type after the numbers up to `last`, where these include all variables of the type, is
the type with its variables renamed one to one to the next numbers, in the order of their first
occurrence. None of them is a variable of the type, the last one is the last number in use then, and to
rename them back gives the type again. A type without variables is its own copy. An application copies
its operator in the same way. -/
theorem freshen_alphaVariant (last : Nat) (t : Ty) (ht : ∀ x ∈ t.vars, x ≤ last) :
    ∃ ρ σ : Nat → Nat,
      t.freshen last = (t.rename ρ, last + t.vars.toFinset.card) ∧
      Set.BijOn ρ {x | x ∈ t.vars} (Set.Icc (last + 1) (last + t.vars.toFinset.card)) ∧
      (∀ x ∈ t.vars, ∀ y ∈ t.vars, ρ x < ρ y ↔ t.vars.idxOf x < t.vars.idxOf y) ∧
      (∀ x ∈ (t.freshen last).1.vars, x ∉ t.vars) ∧
      Set.InvOn σ ρ {x | x ∈ t.vars} (Set.Icc (last + 1) (last + t.vars.toFinset.card)) ∧
      (t.freshen last).1.rename σ = t ∧
      (t.vars = [] → t.freshen last = (t, last)) ∧
      t.freshen last = (t.bind (t.freshVars last).1, (t.freshVars last).2) := by
  have hbij := bijOn_newNumber last t
  have hcopy := freshen_eq_rename last t
  rw [length_distinctVars] at hcopy
  refine ⟨newNumber last t.distinctVars, Function.invFunOn (newNumber last t.distinctVars) _, hcopy,
    hbij, fun x hx y hy => ?_, fun x hx hxt => ?_, hbij.invOn_invFunOn, ?_, fun hvars => ?_,
    freshen_eq_bind last t⟩
  · rw [← idxOf_addNew_lt_iff hx hy, ← distinctVars_eq_addNew, newNumber, newNumber]
    omega
  · rw [hcopy, vars_rename] at hx
    obtain ⟨y, hy, rfl⟩ := List.mem_map.1 hx
    have hlow := (Set.mem_Icc.1 (hbij.mapsTo hy)).1
    have hhigh := ht _ hxt
    omega
  · rw [hcopy, rename, rename, bind_bind]
    conv_rhs => rw [← bind_var t]
    exact bind_congr fun x hx => congrArg var (hbij.invOn_invFunOn.1 hx)
  · rw [hcopy, rename_of_vars_eq_nil hvars, hvars]
    rfl

/-- A variable that is shared by the parameters of a procedure type, and one that is met in its result
only. -/
theorem freshen_alphaVariant_shared :
    let t : Ty := .proc [.pair (.var 3) (.var 1), .var 3] (.proc [] (.var 2))
    (∀ x ∈ t.vars, x ≤ 7) ∧
    t.freshen 7 = (.proc [.pair (.var 8) (.var 9), .var 8] (.proc [] (.var 10)), 10) ∧
    ∃ σ : Nat → Nat, (t.freshen 7).1.rename σ = t := by
  intro t
  have ht : ∀ x ∈ t.vars, x ≤ 7 := by decide
  obtain ⟨ρ, σ, -, -, -, -, -, hback, -⟩ := freshen_alphaVariant 7 t ht
  exact ⟨ht, by decide, σ, hback⟩

end TypedScheme.Ty
