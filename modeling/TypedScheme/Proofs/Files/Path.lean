import Mathlib.Data.List.Basic
import TypedScheme.Files.Path

/-!
# Names in a directory

A name without slashes that is neither empty nor one or two dots is put behind a directory as it is: the
path to it is the path to the directory, cleaned, and the name.

## What this module delivers

- `Path.IsName`: what a directory may call something that it holds.
- `Path.exists_join_eq`: all names are put behind the same stem.
- `Path.join_inj` and `Path.extension_join`: so different names have different paths, with the extensions
  of the names.
-/

set_option autoImplicit false

namespace TypedScheme.Path

/-! ## Elements -/

/-- What a directory may call something that it holds. -/
def IsName (name : String) : Prop := '/' ∉ name.toList ∧ isPlainElement name.toList = true

theorem elements_ne_nil (cs : List Char) : elements cs ≠ [] := by
  cases cs with
  | nil => simp [elements]
  | cons c cs =>
    rw [elements]
    split
    · simp
    · split <;> simp

/-- A text without slashes is one element. -/
theorem elements_of_not_mem {cs : List Char} (h : '/' ∉ cs) : elements cs = [cs] := by
  induction cs with
  | nil => rfl
  | cons c cs ih =>
    rw [List.mem_cons, not_or] at h
    rw [elements, if_neg (Ne.symm h.1), ih h.2]

/-- The elements on both sides of a slash. -/
theorem elements_append_slash (as bs : List Char) :
    elements (as ++ '/' :: bs) = elements as ++ elements bs := by
  induction as with
  | nil => simp [elements]
  | cons a as ih =>
    rw [List.cons_append, elements, elements, ih]
    split
    · rfl
    · obtain ⟨first, others, hfirst⟩ := List.exists_cons_of_ne_nil (elements_ne_nil as)
      rw [hfirst]
      rfl

theorem unite_cons_cons (e e' : List Char) (es : List (List Char)) :
    unite (e :: e' :: es) = e ++ '/' :: unite (e' :: es) := rfl

/-- An element behind others. -/
theorem unite_append_singleton (es : List (List Char)) (e : List Char) :
    unite (es ++ [e]) = (if es = [] then [] else unite es ++ ['/']) ++ e := by
  induction es with
  | nil => rfl
  | cons e' es ih =>
    cases es with
    | nil => simp [unite]
    | cons e'' es =>
      rw [List.cons_append, List.cons_append, unite_cons_cons, ← List.cons_append, ih]
      simp [unite_cons_cons]

/-! ## Names behind a directory -/

theorem push_of_isPlainElement {e : List Char} (h : isPlainElement e = true) (rooted : Bool)
    (stack : List (List Char)) : push rooted stack e = e :: stack := by
  simp only [isPlainElement, Bool.and_eq_true, decide_eq_true_eq] at h
  obtain ⟨⟨hnil, hdot⟩, hdots⟩ := h
  simp [push, hnil, hdot, hdots]

/-- What stands in front of every name in a directory: nothing, or something that ends with a slash. -/
def IsStem (stem : List Char) : Prop := stem = [] ∨ ∃ cs, stem = cs ++ ['/']

/-- A clean path that ends with a plain element. -/
theorem exists_cleanChars_eq (cs : List Char) :
    ∃ stem, IsStem stem ∧ ∀ e, '/' ∉ e → isPlainElement e = true →
      cleanChars (cs ++ '/' :: e) = stem ++ e := by
  -- The stem is what the elements in front of the name come to, and a slash.
  let rooted := isRooted (cs ++ ['/'])
  let stack := ((elements cs).foldl (push rooted) []).reverse
  let above := if stack = [] then [] else unite stack ++ ['/']
  refine ⟨if rooted then '/' :: above else above, ?_, fun e hslash hplain => ?_⟩
  · have habove : IsStem above := by
      by_cases h : stack = []
      · exact .inl (if_pos h)
      · exact .inr ⟨unite stack, if_neg h⟩
    split
    · rcases habove with h | ⟨as, h⟩
      · exact .inr ⟨[], by rw [h]; rfl⟩
      · exact .inr ⟨'/' :: as, by rw [h]; rfl⟩
    · exact habove
  · have hrooted : isRooted (cs ++ '/' :: e) = rooted := by
      cases cs <;> rfl
    have hbody : unite ((elements (cs ++ '/' :: e)).foldl (push rooted) []).reverse = above ++ e := by
      rw [elements_append_slash, elements_of_not_mem hslash, List.foldl_append, List.foldl_cons,
        List.foldl_nil, push_of_isPlainElement hplain, List.reverse_cons, unite_append_singleton]
    have hne : e ≠ [] := by
      rintro rfl
      simp [isPlainElement] at hplain
    rw [cleanChars, hrooted, hbody]
    split
    · rfl
    · rw [if_neg (by simp [hne])]

/-- The names in a directory are all put behind the same stem. -/
theorem exists_join_eq (dir : String) :
    ∃ stem, IsStem stem ∧ ∀ name, IsName name → (join dir name).toList = stem ++ name.toList := by
  by_cases hdir : dir = ""
  · -- The name stands alone; its path is clean, as it is behind an empty stack.
    refine ⟨[], .inl rfl, fun name hname => ?_⟩
    have hne : name ≠ "" := by
      rintro rfl
      simp [IsName, isPlainElement] at hname
    have hrooted : isRooted name.toList = false := by
      cases hcs : name.toList with
      | nil => rfl
      | cons c cs =>
        have hc : c ≠ '/' := fun h => hname.1 (by simp [hcs, h])
        simp [isRooted, hc]
    rw [join, if_neg (by simp [hne]), if_pos hdir, clean, String.toList_ofList, cleanChars, hrooted,
      elements_of_not_mem hname.1, List.foldl_cons, List.foldl_nil, push_of_isPlainElement hname.2]
    simp [unite, hne]
  · obtain ⟨stem, hstem, heq⟩ := exists_cleanChars_eq dir.toList
    refine ⟨stem, hstem, fun name hname => ?_⟩
    have hne : name ≠ "" := by
      rintro rfl
      simp [IsName, isPlainElement] at hname
    rw [join, if_neg (by simp [hdir]), if_neg hdir, if_neg hne, clean, String.toList_ofList,
      String.toList_append, String.toList_append, List.append_assoc]
    exact heq _ hname.1 hname.2

/-- Different names in a directory have different paths. -/
theorem join_inj {dir a b : String} (ha : IsName a) (hb : IsName b) (h : join dir a = join dir b) :
    a = b := by
  obtain ⟨stem, -, hstem⟩ := exists_join_eq dir
  have hsame : stem ++ a.toList = stem ++ b.toList := by rw [← hstem a ha, ← hstem b hb, h]
  exact String.toList_injective (List.append_cancel_left hsame)

/-! ## Extensions -/

/-- The last element of a path behind a stem is the name. -/
theorem takeWhile_reverse_append {stem cs : List Char} (hstem : IsStem stem) (hcs : '/' ∉ cs) :
    (stem ++ cs).reverse.takeWhile (· ≠ '/') = cs.reverse := by
  have hall : ∀ c ∈ cs.reverse, decide (c ≠ '/') = true := by
    intro c hc
    have hne : c ≠ '/' := fun h => hcs (h ▸ List.mem_reverse.1 hc)
    simpa using hne
  rw [List.reverse_append, List.takeWhile_append_of_pos hall]
  rcases hstem with rfl | ⟨as, rfl⟩
  · simp
  · simp

/-- A path in a directory has the extension of its name. -/
theorem extension_join {dir name : String} (h : IsName name) :
    extension (join dir name) = extension name := by
  obtain ⟨stem, hstem, heq⟩ := exists_join_eq dir
  have hself := takeWhile_reverse_append (.inl rfl) h.1
  rw [extension, extension, heq name h, takeWhile_reverse_append hstem h.1]
  rw [List.nil_append] at hself
  rw [hself]

/-- A text without slashes that has an extension of more than a dot is a name. -/
theorem isName_of_extension {name : String} (hslash : '/' ∉ name.toList)
    (hnone : extension name ≠ "") (hdot : extension name ≠ ".") : IsName name := by
  refine ⟨hslash, ?_⟩
  simp only [isPlainElement, Bool.and_eq_true, decide_eq_true_eq]
  refine ⟨⟨fun h => hnone ?_, fun h => hdot ?_⟩, fun h => hdot ?_⟩
  · rw [extension, h]
    rfl
  · rw [extension, h]
    rfl
  · rw [extension, h]
    rfl

end TypedScheme.Path
