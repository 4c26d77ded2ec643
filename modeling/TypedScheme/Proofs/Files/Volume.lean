import Mathlib.Data.List.Sort
import Mathlib.Data.String.Basic
import TypedScheme.Files.Library
import TypedScheme.Proofs.Files.Path

/-!
# Listings

What a file system promises about the listings of its directories, and the source files that a listing
stands for.

## What this module delivers

- `Volume.WellListed`: entries are called by single path elements, and no two files in a directory have
  the same name.
- `FileTree.wellListed_volume`: a tree keeps the promise.
- `Library.mem_sourcesIn`, `Library.pairwise_sourcesIn`: the source files of a directory are its files
  with the right extension, in strictly ascending order.
-/

set_option autoImplicit false

namespace TypedScheme

/-! ## What a volume promises -/

/-- The entries of every listing are called by single path elements, and the files among them have
distinct names. -/
structure Volume.WellListed (v : Volume) : Prop where
  plain : ∀ {dir entries}, v.list dir = .ok entries → ∀ e ∈ entries, '/' ∉ e.name.toList
  distinct : ∀ {dir entries}, v.list dir = .ok entries →
    ((entries.filter fun e => !e.isDirectory).map DirectoryEntry.name).Nodup

theorem nodup_eraseDups {α : Type} [BEq α] [LawfulBEq α] (l : List α) : l.eraseDups.Nodup := by
  cases l with
  | nil => exact List.nodup_nil
  | cons a as =>
    rw [List.eraseDups_cons, List.nodup_cons]
    exact ⟨by simp, nodup_eraseDups _⟩
termination_by l.length
decreasing_by exact Nat.lt_succ_of_le (List.length_filter_le _ _)

namespace FileTree

theorem not_mem_leading (isDirectory : Bool) (rest : String) :
    '/' ∉ (leading isDirectory rest).name.toList := by
  rw [leading, String.toList_ofList]
  intro h
  simpa using List.all_eq_true.1 List.all_takeWhile _ h

/-- The entries of a directory are the first names of what lies below it. -/
theorem mem_entries {t : FileTree} {dir : String} {e : DirectoryEntry} (h : e ∈ t.entries dir) :
    ∃ isDirectory rest, e = leading isDirectory rest := by
  rw [entries, List.mem_mergeSort, List.mem_eraseDups, List.mem_append, List.mem_filterMap,
    List.mem_filterMap] at h
  rcases h with ⟨f, -, hf⟩ | ⟨d, -, hd⟩
  · obtain ⟨rest, -, rfl⟩ := Option.map_eq_some_iff.1 hf
    exact ⟨false, rest, rfl⟩
  · obtain ⟨rest, -, rfl⟩ := Option.map_eq_some_iff.1 hd
    exact ⟨true, rest, rfl⟩

/-- No entry is listed twice, so two files with the same name are one entry. -/
theorem nodup_names_entries (t : FileTree) (dir : String) :
    (((t.entries dir).filter fun e => !e.isDirectory).map DirectoryEntry.name).Nodup := by
  have hnodup : (t.entries dir).Nodup :=
    (List.mergeSort_perm _ _).nodup_iff.2 (nodup_eraseDups _)
  refine (hnodup.filter _).map_on fun a ha b hb hname => ?_
  have ha : a.isDirectory = false := by simpa using (List.mem_filter.1 ha).2
  have hb : b.isDirectory = false := by simpa using (List.mem_filter.1 hb).2
  cases a
  cases b
  simp_all

theorem eq_entries_of_list {t : FileTree} {dir : String} {entries : List DirectoryEntry}
    (h : t.volume.list dir = .ok entries) : entries = t.entries dir := by
  simp only [volume] at h
  cases hentry : t.access dir with
  | error e =>
    rw [hentry] at h
    cases h
  | ok entry =>
    rw [hentry] at h
    cases entry with
    | file contents => cases h
    | directory =>
      cases h
      rfl

/-- A tree keeps the promise of a volume. -/
theorem wellListed_volume (t : FileTree) : t.volume.WellListed where
  plain hlist e he := by
    obtain rfl := eq_entries_of_list hlist
    obtain ⟨isDirectory, rest, rfl⟩ := mem_entries he
    exact not_mem_leading isDirectory rest
  distinct hlist := by
    obtain rfl := eq_entries_of_list hlist
    exact nodup_names_entries t _

end FileTree

/-! ## The source files of a directory -/

namespace Library

/-- The sources in a directory are its files with the right extension. -/
theorem mem_sourcesIn {dir name : String} {entries : List DirectoryEntry} :
    name ∈ sourcesIn dir entries ↔ ∃ e ∈ entries, e.isDirectory = false ∧
      Path.extension e.name = sourceExtension ∧ name = Path.join dir e.name := by
  rw [sourcesIn, List.mem_mergeSort, List.mem_map]
  simp only [List.mem_filter, Bool.and_eq_true, Bool.not_eq_true', decide_eq_true_eq]
  constructor
  · rintro ⟨e, ⟨he, hfile, hext⟩, rfl⟩
    exact ⟨e, he, hfile, hext, rfl⟩
  · rintro ⟨e, he, hfile, hext, rfl⟩
    exact ⟨e, ⟨he, hfile, hext⟩, rfl⟩

/-- The source files of a directory in ascending order are what sorting them comes to. -/
theorem sourcesIn_eq_of_perm {dir : String} {entries : List DirectoryEntry} {names : List String}
    (hsorted : names.Pairwise (· ≤ ·))
    (hperm : ((entries.filter fun e => !e.isDirectory && Path.extension e.name = sourceExtension).map
      fun e => Path.join dir e.name).Perm names) : sourcesIn dir entries = names :=
  ((List.mergeSort_perm _ _).trans hperm).eq_of_pairwise (fun _ _ _ _ => le_antisymm)
    (List.pairwise_mergeSort' (· ≤ ·) _) hsorted

theorem isName_of_source {e : DirectoryEntry} (hplain : '/' ∉ e.name.toList)
    (hext : Path.extension e.name = sourceExtension) : Path.IsName e.name :=
  Path.isName_of_extension hplain (by rw [hext]; decide) (by rw [hext]; decide)

/-- The source files of a directory have the extension of source files. -/
theorem extension_of_mem_sourcesIn {v : Volume} (hv : v.WellListed) {dir name : String}
    {entries : List DirectoryEntry} (hlist : v.list dir = .ok entries)
    (h : name ∈ sourcesIn dir entries) : Path.extension name = sourceExtension := by
  obtain ⟨e, he, -, hext, rfl⟩ := mem_sourcesIn.1 h
  rw [Path.extension_join (isName_of_source (hv.plain hlist e he) hext), hext]

/-- The source files of a directory come in strictly ascending order. -/
theorem pairwise_sourcesIn {v : Volume} (hv : v.WellListed) {dir : String}
    {entries : List DirectoryEntry} (hlist : v.list dir = .ok entries) :
    (sourcesIn dir entries).Pairwise (· < ·) := by
  let sources := entries.filter fun e => !e.isDirectory && Path.extension e.name = sourceExtension
  have hsource : ∀ e ∈ sources, Path.IsName e.name := by
    intro e he
    obtain ⟨he, hcond⟩ := List.mem_filter.1 he
    simp only [Bool.and_eq_true, decide_eq_true_eq] at hcond
    exact isName_of_source (hv.plain hlist e he) hcond.2
  -- The names are distinct, and different names have different paths.
  have hnames : (sources.map DirectoryEntry.name).Nodup := by
    have hsub : sources.Sublist (entries.filter fun e => !e.isDirectory) :=
      List.monotone_filter_right entries fun e he => (Bool.and_eq_true_iff.1 he).1
    exact (hv.distinct hlist).sublist (hsub.map _)
  have hpaths : (sources.map fun e => Path.join dir e.name).Nodup := by
    refine List.Nodup.map_on (fun a ha b hb hab => ?_) hnames.of_map
    exact List.inj_on_of_nodup_map hnames ha hb (Path.join_inj (hsource a ha) (hsource b hb) hab)
  have hsorted : (sourcesIn dir entries).Pairwise (· ≤ ·) := List.pairwise_mergeSort' (· ≤ ·) _
  have hnodup : (sourcesIn dir entries).Nodup := (List.mergeSort_perm _ _).nodup_iff.2 hpaths
  exact (hsorted.and hnodup).imp fun h => lt_of_le_of_ne h.1 h.2

end Library

end TypedScheme
