import Mathlib.Data.List.Basic
import TypedScheme.Command.Check
import TypedScheme.Proofs.Files.Path

/-!
# Where paths lead

A path leads from one place to another, element by element: a name goes one place down, two dots go one
place up, and nothing goes above the root. A place is lexical: it is the names on the way to it, and no
disk is asked whether they are there. On a disk `nope/../x.l5` is missing if `nope` is, and two dots
behind a link go up from where the link points; both lead here as if `nope` and the link were plain
directories. Cleaning a path and cutting it into a directory and a name both keep where it leads. The
name is one that a directory can be asked for, unless the path leads to the root or to a place above the
one where it starts: the name is then empty or two dots.

## What this module delivers

- `Path.enter` and `Path.walk`: where an element leads, and where a path leads.
- `Path.IsClean`, the shape of a clean path, kept by every element (`Path.isClean_push`) and so true of
  every path (`Path.isClean_stackOf`).
- `Path.descend_push` and `Path.walk_cleanChars`: cleaning keeps where a path leads.
- `Path.cleanChars_cleanChars`: cleaning a clean path changes nothing.
- `Path.LeadsUp`: the paths that lead to the root or upwards.
- `Path.locate_denotes`: where the directory and the name of a path lead, and when the name is valid.
-/

set_option autoImplicit false

namespace TypedScheme.Path

/-! ## Walking -/

/-- The place that an element leads to. A place is given by the names on the way from the root to it, the
last one first, and nothing is above the root. -/
def enter (place : List (List Char)) (e : List Char) : List (List Char) :=
  if e = [] || e = ['.'] then place
  else if e = ['.', '.'] then place.tail
  else e :: place

/-- The place that a path leads to from the place `here`. Places are lexical, so a path may lead through
directories that are missing: `nope/../x.l5` leads where `x.l5` leads. -/
def walk (here : List (List Char)) (path : List Char) : List (List Char) :=
  (elements path).foldl enter (if isRooted path then [] else here)

/-- The place that the elements of a clean path lead to. They are given with the last one first. -/
def descend (here : List (List Char)) (stack : List (List Char)) : List (List Char) :=
  stack.foldr (fun e place => enter place e) here

theorem enter_of_isPlainElement {e : List Char} (h : isPlainElement e = true)
    (place : List (List Char)) : enter place e = e :: place := by
  simp only [isPlainElement, Bool.and_eq_true, decide_eq_true_eq] at h
  obtain ⟨⟨hnil, hdot⟩, hdots⟩ := h
  simp [enter, hnil, hdot, hdots]

theorem enter_dots (place : List (List Char)) : enter place ['.', '.'] = place.tail := rfl

theorem enter_of_stays {e : List Char} (h : e = [] ∨ e = ['.']) (place : List (List Char)) :
    enter place e = place :=
  if_pos (by simpa using h)

theorem push_of_stays {e : List Char} (h : e = [] ∨ e = ['.']) (rooted : Bool)
    (stack : List (List Char)) : push rooted stack e = stack := by
  unfold push
  exact if_pos (by simpa using h)

/-! ## Clean paths -/

/-- An element of a clean path that leads down. -/
def IsStep (e : List Char) : Prop := isPlainElement e = true ∧ '/' ∉ e

/-- The elements of a clean path, the last one first: names, and in front of them as many pairs of dots as
the path leads up at first. A path from the root does not lead up. -/
def IsClean (rooted : Bool) (stack : List (List Char)) : Prop :=
  ∃ names up, stack = names ++ List.replicate up ['.', '.'] ∧ (∀ e ∈ names, IsStep e) ∧
    (rooted = true → up = 0)

variable {rooted : Bool} {stack here : List (List Char)}

theorem isClean_nil : IsClean rooted [] := ⟨[], 0, rfl, by simp, fun _ => rfl⟩

/-- One more element keeps a clean path clean. -/
theorem isClean_push (h : IsClean rooted stack) {e : List Char} (he : '/' ∉ e) :
    IsClean rooted (push rooted stack e) := by
  obtain ⟨names, up, rfl, hnames, hrooted⟩ := h
  by_cases hstay : e = [] ∨ e = ['.']
  · rw [push_of_stays hstay]
    exact ⟨names, up, rfl, hnames, hrooted⟩
  · rw [not_or] at hstay
    by_cases hup : e = ['.', '.']
    · subst hup
      cases names with
      | cons name names =>
        -- Two dots take the last name away.
        obtain ⟨hname, hnames⟩ := List.forall_mem_cons.1 hnames
        have hne : name ≠ ['.', '.'] := by
          rintro rfl
          simp [IsStep, isPlainElement] at hname
        refine ⟨names, up, ?_, hnames, hrooted⟩
        simp [push, hne]
      | nil =>
        -- No name is left: two dots lead up, unless the path is at the root.
        cases up with
        | succ up =>
          refine ⟨[], up + 2, ?_, by simp, fun h => absurd (hrooted h) (Nat.succ_ne_zero up)⟩
          simp [push, List.replicate_succ]
        | zero =>
          cases rooted with
          | true => exact ⟨[], 0, by simp [push], by simp, fun _ => rfl⟩
          | false => exact ⟨[], 1, by simp [push], by simp, fun h => absurd h Bool.false_ne_true⟩
    · have hplain : isPlainElement e = true := by simp [isPlainElement, hstay, hup]
      rw [push_of_isPlainElement hplain]
      exact ⟨e :: names, up, rfl, List.forall_mem_cons.2 ⟨⟨hplain, he⟩, hnames⟩, hrooted⟩

/-- The elements of a path have no slashes in them. -/
theorem slash_not_mem_elements (cs : List Char) : ∀ e ∈ elements cs, '/' ∉ e := by
  induction cs with
  | nil => simp [elements]
  | cons c cs ih =>
    intro e he
    rw [elements] at he
    split at he
    · rcases List.mem_cons.1 he with rfl | he
      · simp
      · exact ih e he
    · rename_i hc
      obtain ⟨first, others, hfirst⟩ := List.exists_cons_of_ne_nil (elements_ne_nil cs)
      rw [hfirst] at he ih
      rcases List.mem_cons.1 he with rfl | he
      · have hin := ih first List.mem_cons_self
        simp [hin, Ne.symm hc]
      · exact ih e (List.mem_cons_of_mem _ he)

/-- The elements of a clean path, the last one first. -/
def stackOf (cs : List Char) : List (List Char) := (elements cs).foldl (push (isRooted cs)) []

theorem isClean_foldl_push {es : List (List Char)} (hes : ∀ e ∈ es, '/' ∉ e)
    (h : IsClean rooted stack) : IsClean rooted (es.foldl (push rooted) stack) := by
  induction es generalizing stack with
  | nil => exact h
  | cons e es ih =>
    obtain ⟨he, hes⟩ := List.forall_mem_cons.1 hes
    exact ih hes (isClean_push h he)

theorem isClean_stackOf (cs : List Char) : IsClean (isRooted cs) (stackOf cs) := by
  apply isClean_foldl_push (slash_not_mem_elements cs)
  exact isClean_nil

/-! ## Cleaning keeps where a path leads -/

/-- Where a clean path leads after one more element: where the element leads from there. A path from the
root starts at the root. -/
theorem descend_push (h : IsClean rooted stack) (hhere : rooted = true → here = []) (e : List Char) :
    descend here (push rooted stack e) = enter (descend here stack) e := by
  by_cases hstay : e = [] ∨ e = ['.']
  · rw [push_of_stays hstay, enter_of_stays hstay]
  · rw [not_or] at hstay
    by_cases hup : e = ['.', '.']
    · subst hup
      obtain ⟨names, up, rfl, hnames, hrooted⟩ := h
      cases names with
      | cons name names =>
        -- The name and the dots after it lead back.
        have hname := (List.forall_mem_cons.1 hnames).1.1
        have hne : name ≠ ['.', '.'] := by
          rintro rfl
          simp [isPlainElement] at hname
        simp [push, hne, descend, enter_of_isPlainElement hname, enter_dots]
      | nil =>
        cases up with
        | succ up => simp [push, List.replicate_succ, descend, enter_dots]
        | zero =>
          cases rooted with
          | true => simp [push, descend, enter_dots, hhere rfl]
          | false => simp [push, descend, enter_dots]
    · have hplain : isPlainElement e = true := by simp [isPlainElement, hstay, hup]
      rw [push_of_isPlainElement hplain]
      rfl

/-- The elements of a path lead where those of the clean path lead. -/
theorem descend_foldl_push {es : List (List Char)} (hes : ∀ e ∈ es, '/' ∉ e)
    (h : IsClean rooted stack) (hhere : rooted = true → here = []) :
    descend here (es.foldl (push rooted) stack) = es.foldl enter (descend here stack) := by
  induction es generalizing stack with
  | nil => rfl
  | cons e es ih =>
    obtain ⟨he, hes⟩ := List.forall_mem_cons.1 hes
    rw [List.foldl_cons, List.foldl_cons, ih hes (isClean_push h he), descend_push h hhere]

/-- Where a path leads, by the elements of its clean path. -/
theorem walk_eq_descend (here : List (List Char)) (cs : List Char) :
    walk here cs = descend (if isRooted cs then [] else here) (stackOf cs) := by
  rw [stackOf, descend_foldl_push (slash_not_mem_elements cs) isClean_nil]
  · rfl
  · intro h
    exact if_pos h

/-- A clean path leads up at first and then down along its names. -/
theorem descend_names {names : List (List Char)} (hnames : ∀ e ∈ names, IsStep e) (up : Nat)
    (here : List (List Char)) :
    descend here (names ++ List.replicate up ['.', '.']) = names ++ here.drop up := by
  induction names with
  | nil =>
    induction up with
    | zero => rfl
    | succ up ih =>
      rw [List.nil_append] at ih ⊢
      change enter (descend here (List.replicate up ['.', '.'])) ['.', '.'] = here.drop (up + 1)
      rw [ih, enter_dots, List.nil_append, List.tail_drop]
  | cons name names ih =>
    obtain ⟨hname, hnames⟩ := List.forall_mem_cons.1 hnames
    change enter (descend here (names ++ List.replicate up ['.', '.'])) name = _
    rw [ih hnames, enter_of_isPlainElement hname.1]
    rfl

/-! ## The text of a clean path -/

theorem IsClean.ne_nil_and_slash (h : IsClean rooted stack) : ∀ e ∈ stack, e ≠ [] ∧ '/' ∉ e := by
  obtain ⟨names, up, rfl, hnames, -⟩ := h
  intro e he
  rcases List.mem_append.1 he with he | he
  · obtain ⟨hplain, hslash⟩ := hnames e he
    refine ⟨?_, hslash⟩
    rintro rfl
    simp [isPlainElement] at hplain
  · rw [List.eq_of_mem_replicate he]
    decide

theorem elements_unite {es : List (List Char)} (hne : es ≠ []) (hes : ∀ e ∈ es, '/' ∉ e) :
    elements (unite es) = es := by
  induction es with
  | nil => exact absurd rfl hne
  | cons e es ih =>
    obtain ⟨he, hes⟩ := List.forall_mem_cons.1 hes
    cases es with
    | nil => exact elements_of_not_mem he
    | cons e' es =>
      rw [unite_cons_cons, elements_append_slash, elements_of_not_mem he,
        ih (List.cons_ne_nil e' es) hes]
      rfl

/-- The characters of a clean path, by its elements. -/
theorem cleanChars_eq (cs : List Char) :
    cleanChars cs =
      if isRooted cs then '/' :: unite (stackOf cs).reverse
      else if stackOf cs = [] then ['.'] else unite (stackOf cs).reverse := by
  have hempty : (unite (stackOf cs).reverse).isEmpty = true ↔ stackOf cs = [] := by
    constructor
    · intro h
      by_contra hne
      -- The first of the elements is not empty, and so neither is their text.
      have hfirst := elements_unite (List.reverse_ne_nil_iff.2 hne) fun e he =>
        ((isClean_stackOf cs).ne_nil_and_slash e (List.mem_reverse.1 he)).2
      rw [List.isEmpty_iff.1 h] at hfirst
      have hmem : [] ∈ (stackOf cs).reverse := by simp [← hfirst, elements]
      exact ((isClean_stackOf cs).ne_nil_and_slash [] (List.mem_reverse.1 hmem)).1 rfl
    · intro h
      rw [h]
      rfl
  have hcs : cleanChars cs = if isRooted cs then '/' :: unite (stackOf cs).reverse
    else if (unite (stackOf cs).reverse).isEmpty then ['.'] else unite (stackOf cs).reverse := rfl
  rw [hcs]
  simp only [hempty]

theorem isRooted_unite (h : ∀ e ∈ stack, e ≠ [] ∧ '/' ∉ e) : isRooted (unite stack) = false := by
  cases stack with
  | nil => rfl
  | cons e es =>
    obtain ⟨hne, hslash⟩ := h e List.mem_cons_self
    obtain ⟨c, cs, rfl⟩ := List.exists_cons_of_ne_nil hne
    have hc : c ≠ '/' := fun h => hslash (by simp [h])
    cases es with
    | nil => simp [unite, isRooted, hc]
    | cons e' es => simp [unite, isRooted, hc]

theorem isRooted_cleanChars (cs : List Char) : isRooted (cleanChars cs) = isRooted cs := by
  rw [cleanChars_eq]
  split
  · rename_i h
    rw [h]
    rfl
  · rename_i h
    rw [Bool.eq_false_iff.2 h]
    split
    · rfl
    · apply isRooted_unite
      intro e he
      exact (isClean_stackOf cs).ne_nil_and_slash e (List.mem_reverse.1 he)

/-- Whatever stays at an empty element and at a dot goes along the elements of the clean path only. -/
theorem foldl_elements_cleanChars {α : Type} {f : α → List Char → α}
    (hstays : ∀ a e, e = [] ∨ e = ['.'] → f a e = a) (cs : List Char) (a : α) :
    (elements (cleanChars cs)).foldl f a = (stackOf cs).reverse.foldl f a := by
  have hslash : ∀ e ∈ (stackOf cs).reverse, '/' ∉ e := fun e he =>
    ((isClean_stackOf cs).ne_nil_and_slash e (List.mem_reverse.1 he)).2
  rw [cleanChars_eq]
  by_cases hnil : stackOf cs = []
  · rw [hnil]
    cases isRooted cs with
    | true => simp [unite, elements, hstays]
    | false => simp [elements, hstays]
  · rw [if_neg hnil]
    have hunite := elements_unite (List.reverse_ne_nil_iff.2 hnil) hslash
    cases isRooted cs with
    | true =>
      simp only [if_true]
      rw [elements, if_pos rfl, List.foldl_cons, hunite, hstays a [] (.inl rfl)]
    | false =>
      simp only [Bool.false_eq_true, if_false]
      rw [hunite]

/-- A clean path leads where the path leads. -/
theorem walk_cleanChars (here : List (List Char)) (cs : List Char) :
    walk here (cleanChars cs) = walk here cs := by
  rw [walk_eq_descend here cs, walk, isRooted_cleanChars,
    foldl_elements_cleanChars (fun a e h => enter_of_stays h a), List.foldl_reverse]
  rfl

/-- Pushing the elements of a clean path one by one gives them back. -/
theorem IsClean.foldl_push (h : IsClean rooted stack) :
    stack.reverse.foldl (push rooted) [] = stack := by
  obtain ⟨names, up, rfl, hnames, hrooted⟩ := h
  induction names with
  | cons name names ih =>
    obtain ⟨hname, hnames⟩ := List.forall_mem_cons.1 hnames
    rw [List.cons_append, List.reverse_cons, List.foldl_append, ih hnames, List.foldl_cons,
      List.foldl_nil, push_of_isPlainElement hname.1]
  | nil =>
    induction up with
    | zero => rfl
    | succ up ih =>
      -- The path leads up, so it does not start at the root.
      have hnot : rooted = false := by
        rw [← Bool.not_eq_true]
        exact fun h => absurd (hrooted h) (Nat.succ_ne_zero up)
      subst hnot
      have ih := ih fun h => absurd h Bool.false_ne_true
      rw [List.nil_append] at ih ⊢
      rw [List.replicate_succ, List.reverse_cons, List.foldl_append, ih, List.foldl_cons,
        List.foldl_nil]
      cases up with
      | zero => simp [push]
      | succ up => simp [push, List.replicate_succ]

theorem stackOf_cleanChars (cs : List Char) : stackOf (cleanChars cs) = stackOf cs := by
  rw [stackOf, isRooted_cleanChars, foldl_elements_cleanChars (fun a e h => push_of_stays h _ a)]
  exact (isClean_stackOf cs).foldl_push

/-- Paths with the same elements that start at the same place are the same path when they are clean. -/
theorem cleanChars_congr {cs ds : List Char} (hrooted : isRooted cs = isRooted ds)
    (hstack : stackOf cs = stackOf ds) : cleanChars cs = cleanChars ds := by
  rw [cleanChars_eq, cleanChars_eq, hrooted, hstack]

/-- Cleaning a clean path changes nothing. -/
theorem cleanChars_cleanChars (cs : List Char) : cleanChars (cleanChars cs) = cleanChars cs :=
  cleanChars_congr (isRooted_cleanChars cs) (stackOf_cleanChars cs)

/-! ## The directory and the name of a path -/

/-- The last element of a clean path. -/
def lastOf (cs : List Char) : List Char :=
  (stackOf cs).headD (if isRooted cs then [] else ['.'])

/-- A clean path is its last element behind a stem. -/
theorem exists_stem (cs : List Char) :
    ∃ stem, IsStem stem ∧ '/' ∉ lastOf cs ∧ cleanChars cs = stem ++ lastOf cs := by
  rw [cleanChars_eq, lastOf]
  cases hstack : stackOf cs with
  | nil =>
    cases isRooted cs with
    | true => exact ⟨['/'], .inr ⟨[], rfl⟩, by simp, rfl⟩
    | false => exact ⟨[], .inl rfl, by decide, rfl⟩
  | cons e below =>
    have hslash : '/' ∉ e :=
      ((isClean_stackOf cs).ne_nil_and_slash e (by rw [hstack]; exact List.mem_cons_self)).2
    rw [List.reverse_cons, unite_append_singleton, if_neg (List.cons_ne_nil e below)]
    -- What is in front of the last element ends with a slash, if there is anything.
    have habove : IsStem (if below.reverse = [] then [] else unite below.reverse ++ ['/']) := by
      split
      · exact .inl rfl
      · exact .inr ⟨_, rfl⟩
    generalize (if below.reverse = [] then [] else unite below.reverse ++ ['/']) = above at habove
    cases isRooted cs with
    | false => exact ⟨above, habove, hslash, rfl⟩
    | true =>
      refine ⟨'/' :: above, ?_, hslash, rfl⟩
      rcases habove with rfl | ⟨ds, rfl⟩
      · exact .inr ⟨[], rfl⟩
      · exact .inr ⟨'/' :: ds, rfl⟩

/-- A path behind a stem is cut where the stem ends. -/
theorem split_append {stem name : List Char} (hstem : IsStem stem) (hname : '/' ∉ name) :
    split (String.ofList (stem ++ name)) = (String.ofList stem, String.ofList name) := by
  rw [split, String.toList_ofList, takeWhile_reverse_append hstem hname, List.reverse_reverse]
  simp

/-- The directory that something behind a stem lies in. -/
def directoryOf (stem : List Char) : List Char := if stem = [] then ['.'] else stem

theorem directory_ofList (stem : List Char) :
    directory (String.ofList stem) = String.ofList (directoryOf stem) := by
  simp only [directory, directoryOf, String.ofList_eq_empty_iff]
  split <;> rfl

/-- The directory and the name of a path are those of the clean path. -/
theorem exists_locate (path : String) :
    ∃ stem, IsStem stem ∧ '/' ∉ lastOf path.toList ∧
      cleanChars path.toList = stem ++ lastOf path.toList ∧
      locate path = (String.ofList (directoryOf stem), String.ofList (lastOf path.toList)) := by
  obtain ⟨stem, hstem, hslash, hclean⟩ := exists_stem path.toList
  refine ⟨stem, hstem, hslash, hclean, ?_⟩
  rw [locate, clean, hclean, split_append hstem hslash]
  exact congrArg (·, _) (directory_ofList stem)

/-- A name behind the directory of a stem has the elements of the name behind the stem. -/
theorem stackOf_directoryOf {stem name : List Char} (hstem : IsStem stem) (hname : '/' ∉ name) :
    isRooted (directoryOf stem ++ '/' :: name) = isRooted (stem ++ name) ∧
      stackOf (directoryOf stem ++ '/' :: name) = stackOf (stem ++ name) := by
  have hrooted : isRooted (directoryOf stem ++ '/' :: name) = isRooted (stem ++ name) := by
    rcases hstem with rfl | ⟨cs, rfl⟩
    · cases name with
      | nil => rfl
      | cons c cs =>
        have hc : c ≠ '/' := fun h => hname (by simp [h])
        simp [directoryOf, isRooted, hc]
    · cases cs <;> simp [directoryOf, isRooted]
  refine ⟨hrooted, ?_⟩
  rw [stackOf, stackOf, hrooted]
  generalize isRooted (stem ++ name) = rooted
  rcases hstem with rfl | ⟨cs, rfl⟩
  · -- The directory is the place where the path starts.
    rw [directoryOf, if_pos rfl, elements_append_slash, List.foldl_append, List.nil_append]
    rfl
  · -- The second of two slashes is behind an empty element.
    have hdir : directoryOf (cs ++ ['/']) = cs ++ ['/'] := if_neg (by simp)
    have htwo : elements ('/' :: name) = [] :: elements name := by simp [elements]
    rw [hdir, List.append_assoc, List.append_assoc, List.singleton_append, List.singleton_append,
      elements_append_slash, elements_append_slash, htwo, List.foldl_append, List.foldl_append,
      List.foldl_cons, push_of_stays (.inl rfl)]

/-- A name is put behind the directory of a stem as it stands behind the stem. -/
theorem join_directoryOf {stem name : List Char} (hstem : IsStem stem) (hname : '/' ∉ name) :
    join (String.ofList (directoryOf stem)) (String.ofList name) =
      String.ofList (cleanChars (stem ++ name)) := by
  have hdir : String.ofList (directoryOf stem) ≠ "" := by
    rw [ne_eq, String.ofList_eq_empty_iff, directoryOf]
    split
    · decide
    · assumption
  rw [join, if_neg (by simp [hdir]), if_neg hdir]
  by_cases hnil : name = []
  · subst hnil
    rw [if_pos rfl, clean, String.toList_ofList, List.append_nil, directoryOf]
    split
    · rename_i h
      rw [h]
      rfl
    · rfl
  · rw [if_neg (by rwa [String.ofList_eq_empty_iff]), clean]
    obtain ⟨hrooted, hstack⟩ := stackOf_directoryOf hstem hname
    have htext : (String.ofList (directoryOf stem) ++ "/" ++ String.ofList name).toList =
        directoryOf stem ++ '/' :: name := by simp
    rw [htext, cleanChars_congr hrooted hstack]

/-! ## Paths that lead up -/

/-- A path from the root that leads back to the root, or a path that leads from every place to one that
is a number of places above it. -/
def LeadsUp (path : String) : Prop :=
  (isAbsolute path = true ∧ ∀ here, walk here path.toList = []) ∨
    (isAbsolute path = false ∧ ∃ up, 0 < up ∧ ∀ here, walk here path.toList = here.drop up)

/-- The last element of a path is no name exactly if the path leads up. -/
theorem not_isValid_lastOf_iff (path : String) :
    isValid (String.ofList (lastOf path.toList)) = false ↔ LeadsUp path := by
  obtain ⟨-, -, hslash, -⟩ := exists_stem path.toList
  have hvalid : isValid (String.ofList (lastOf path.toList)) = true ↔
      lastOf path.toList = ['.'] ∨ isPlainElement (lastOf path.toList) = true := by
    rw [isValid, String.toList_ofList, elements_of_not_mem hslash, Bool.or_eq_true,
      decide_eq_true_eq]
    refine or_congr ?_ (by simp)
    rw [← String.toList_inj, String.toList_ofList]
    rfl
  have hwalk (here : List (List Char)) := walk_eq_descend here path.toList
  rw [← Bool.not_eq_true, hvalid, LeadsUp, isAbsolute]
  simp only [hwalk, lastOf]
  obtain ⟨names, up, hstack, hnames, hrooted⟩ := isClean_stackOf path.toList
  rw [hstack]
  simp only [descend_names hnames]
  generalize isRooted path.toList = rooted at hrooted
  cases names with
  | cons name names =>
    -- The last element is a name, and no place is above itself behind a name.
    have hname := (List.forall_mem_cons.1 hnames).1.1
    have hne : name ≠ ['.', '.'] := by
      rintro rfl
      simp [isPlainElement] at hname
    refine ⟨fun h => absurd (.inr hname) h, ?_⟩
    rintro (⟨-, h⟩ | ⟨-, above, -, h⟩)
    · exact absurd (h []) (by simp)
    · have hhead := h (List.replicate (above + 1) ['.', '.'])
      cases rooted with
      | true => simp [hne] at hhead
      | false => simp [hne] at hhead
  | nil =>
    cases up with
    | succ up =>
      -- Only dots are left, so the path does not start at the root.
      cases rooted with
      | true => exact absurd (hrooted rfl) (Nat.succ_ne_zero up)
      | false =>
        refine ⟨fun _ => .inr ⟨rfl, up + 1, Nat.succ_pos up, fun here => by simp⟩, fun _ => ?_⟩
        simp [isPlainElement, List.replicate_succ]
    | zero =>
      cases rooted with
      | true =>
        refine ⟨fun _ => .inl ⟨rfl, fun here => by simp⟩, fun _ => ?_⟩
        simp [isPlainElement]
      | false =>
        refine ⟨fun h => absurd (.inl rfl) h, ?_⟩
        rintro (⟨h, -⟩ | ⟨-, above, habove, h⟩)
        · cases h
        · have hstay := h [[]]
          obtain ⟨above, rfl⟩ : ∃ k, above = k + 1 := ⟨above - 1, by omega⟩
          simp at hstay

end TypedScheme.Path

namespace TypedScheme

/-- What stands in the way on a disk is never that a name is invalid. -/
theorem FileTree.obstacle?_ne_invalid (t : FileTree) (places : List String) :
    t.obstacle? places ≠ some .invalid := by
  induction places with
  | nil => nofun
  | cons place rest ih =>
    rw [obstacle?]
    split
    · exact ih
    · split
      · exact ih
      · nofun
      · nofun

/-- A disk refuses a name as invalid by looking at the name alone. -/
theorem FileTree.reach_eq_invalid_iff (t : FileTree) (verb : FileVerb) (dir name : String) :
    t.reach verb dir name = .error ⟨verb, name, .invalid⟩ ↔ Path.isValid name = false := by
  rw [reach]
  split
  · rename_i hvalid
    refine ⟨fun h => ?_, fun h => by rw [hvalid] at h; cases h⟩
    dsimp only at h
    split at h
    · rename_i reason hobstacle
      cases h
      exact absurd hobstacle (t.obstacle?_ne_invalid _)
    · split at h <;> cases h
    · cases h
  · rename_i hvalid
    exact ⟨fun _ => Bool.not_eq_true _ ▸ hvalid, fun _ => rfl⟩

namespace Path

/-- The directory and the name of a path together lead where the path leads, from every place, also as
the text that a disk opens, and joined they are the clean path. The name is valid unless the path leads
up, and exactly then every disk refuses it as invalid. -/
theorem locate_denotes (path : String) :
    join (locate path).1 (locate path).2 = clean path ∧
    (∀ here, walk here (join (locate path).1 (locate path).2).toList = walk here path.toList) ∧
    (∀ here, walk here ((locate path).1 ++ "/" ++ (locate path).2).toList =
      walk here path.toList) ∧
    (isValid (locate path).2 = true ↔ ¬LeadsUp path) ∧
    ∀ (t : FileTree) (verb : FileVerb),
      t.reach verb (locate path).1 (locate path).2 = .error ⟨verb, (locate path).2, .invalid⟩ ↔
        LeadsUp path := by
  obtain ⟨stem, hstem, hslash, hclean, hlocate⟩ := exists_locate path
  rw [hlocate]
  have hjoin : join (String.ofList (directoryOf stem)) (String.ofList (lastOf path.toList)) =
      clean path := by
    rw [join_directoryOf hstem hslash, ← hclean, cleanChars_cleanChars]
    rfl
  refine ⟨hjoin, fun here => ?_, fun here => ?_, ?_, fun t verb => ?_⟩
  · rw [hjoin, clean, String.toList_ofList, walk_cleanChars]
  · have htext : (String.ofList (directoryOf stem) ++ "/" ++
        String.ofList (lastOf path.toList)).toList =
          directoryOf stem ++ '/' :: lastOf path.toList := by simp
    obtain ⟨hrooted, hstack⟩ := stackOf_directoryOf hstem hslash
    rw [htext, walk_eq_descend, hrooted, hstack, ← hclean, ← walk_eq_descend, walk_cleanChars]
  · rw [← not_isValid_lastOf_iff, Bool.not_eq_false]
  · rw [FileTree.reach_eq_invalid_iff, not_isValid_lastOf_iff]

/-- Two dots lead up, and the name that they are cut into is refused. -/
example : locate "a/../.." = (".", "..") ∧ isValid ".." = false := by decide

end Path

end TypedScheme
