import Mathlib.Logic.Relation
import TypedScheme.Proofs.Expr.Shift
import TypedScheme.Proofs.Files.Volume

/-!
# Libraries that stay coherent

Whatever is asked of a library, and whether it succeeds or fails, the files it keeps are those of the
volume, each parsed once and for all.

## What this module delivers

- `Volume.source` and `Volume.fault?`: the text of a source file and why it cannot be loaded, by the
  volume alone.
- `Library.Answers v name r`: `r` is what loading a name from a volume comes to, up to the numbers given
  out before; any two answers are the same but for the names of type variables (`Answers.same`).
- `Library.Step` and `Library.Run`: what loading one file, or files in order, can do to a library.
- `Library.Coherent`, which every step keeps, and `Library.LoadsInOrder` for files up to the first that
  fails.
- `Library.eq_of_mem_serve` and `Library.lookup_of_mem_serve`: whatever is asked for, a file that is kept
  is the one that is given, and a file that is given with a program is kept.
- `Library.mem_files_loadDirectory` and `Library.LoadsWhatIsThere`: the same file comes with its directory
  and with its bare name.
- `Library.coherent_of_leads`: what holds after any sequence of requests.
-/

set_option autoImplicit false

namespace TypedScheme

/-! ## What a volume has to load -/

namespace Volume

/-- The text of a source file, whose extension is judged before it is opened. -/
def source (v : Volume) (name : String) : Except LoadError String :=
  if Path.extension name = sourceExtension then (v.read name).mapError .refused
  else .error (.wrongExtension (Path.extension name))

/-- The error of a text that does not parse. -/
def malformed? : Except SyntaxError Program → Option LoadError
  | .ok _ => none
  | .error e => some (.malformed e)

/-- Why a file cannot be loaded, if it cannot. -/
def fault? (v : Volume) (name : String) : Option LoadError :=
  match v.source name with
  | .error e => some e
  | .ok text => malformed? ((Program.parse text).runFrom 0).1

/-- The names before the first that cannot be loaded. -/
def loadable (v : Volume) (names : List String) : List String :=
  names.takeWhile fun name => (v.fault? name).isNone

/-- The first name that cannot be loaded. -/
def failing? (v : Volume) (names : List String) : Option String :=
  names.find? fun name => (v.fault? name).isSome

variable {v : Volume} {name text : String}

theorem fault?_of_error {e : LoadError} (h : v.source name = .error e) : v.fault? name = some e := by
  rw [fault?, h]

/-- Whether and how a text fails to parse does not depend on the numbers given out before. -/
theorem malformed?_congr {r r' : Except SyntaxError Program} (h : Program.SameReading r r') :
    malformed? r = malformed? r' := by
  cases h with
  | ok _ => rfl
  | error e => rfl

/-- Whether a text parses does not depend on the numbers given out before. -/
theorem fault?_of_source (h : v.source name = .ok text) (k : Nat) :
    v.fault? name = malformed? ((Program.parse text).runFrom k).1 := by
  rw [fault?, h]
  exact malformed?_congr (Program.sameReading_parse text 0 k)

/-- The files that can be loaded go on behind one that can. -/
theorem loadable_cons_of_none {names : List String} (h : v.fault? name = none) :
    v.loadable (name :: names) = name :: v.loadable names := by
  simp [loadable, h]

theorem loadable_cons_of_some {names : List String} {e : LoadError} (h : v.fault? name = some e) :
    v.loadable (name :: names) = [] := by
  simp [loadable, h]

theorem failing?_cons_of_none {names : List String} (h : v.fault? name = none) :
    v.failing? (name :: names) = v.failing? names := by
  simp [failing?, h]

/-- The first file that fails is the first that cannot be loaded. -/
theorem failing?_cons_of_some {names : List String} {e : LoadError} (h : v.fault? name = some e) :
    v.failing? (name :: names) = some name := by
  simp [failing?, h]

/-- A source file has a text exactly if it has the right extension and can be read. -/
theorem source_eq_ok_iff : v.source name = .ok text ↔
    Path.extension name = sourceExtension ∧ v.read name = .ok text := by
  unfold source
  split
  · simp [mapError_eq_ok_iff, *]
  · simp [*]

/-- A file with the right extension is a source if it can be read. -/
theorem isOk_source (h : Path.extension name = sourceExtension) :
    (v.source name).isOk = (v.read name).isOk := by
  rw [source, if_pos h]
  cases v.read name <;> rfl

end Volume

/-! ## Answers that are the same -/

/-- Two files of one name with the same source, and with the same program but for the names of type
variables. -/
structure SourceFile.Same (f g : SourceFile) : Prop where
  name : f.name = g.name
  source : f.source = g.source
  program : Option.Rel Program.Variant f.program? g.program?

/-- Two answers with the same files and the same error. -/
structure Loaded.Same (r r' : Loaded) : Prop where
  files : List.Forall₂ SourceFile.Same r.files r'.files
  error : r.error? = r'.error?

namespace Library

variable {v : Volume} {name : String} {l l' : Library} {r r' : Loaded}

/-- What loading a name from a volume comes to, after some numbers and files read before. -/
inductive Answers (v : Volume) (name : String) : Loaded → Prop
  | refused {e : LoadError} : v.source name = .error e → Answers v name ⟨[], some e⟩
  | malformed {text : String} {stamp k : Nat} {e : SyntaxError} : v.source name = .ok text →
      ((Program.parse text).runFrom k).1 = .error e →
      Answers v name ⟨[⟨stamp, name, text, none⟩], some (.malformed e)⟩
  | parsed {text : String} {stamp k : Nat} {p : Program} : v.source name = .ok text →
      ((Program.parse text).runFrom k).1 = .ok p →
      Answers v name ⟨[⟨stamp, name, text, some p⟩], none⟩

/-- An answer fails exactly if the volume alone says so. -/
theorem Answers.error?_eq (h : Answers v name r) : r.error? = v.fault? name := by
  cases h with
  | refused he => exact (Volume.fault?_of_error he).symm
  | malformed htext he => rw [Volume.fault?_of_source htext, he, Volume.malformed?]
  | parsed htext hp => rw [Volume.fault?_of_source htext, hp, Volume.malformed?]

/-- The file of an answer has the name and the text of the volume. -/
theorem Answers.of_mem (h : Answers v name r) {f : SourceFile} (hf : f ∈ r.files) :
    f.name = name ∧ v.source name = .ok f.source := by
  cases h with
  | refused he => cases hf
  | malformed htext _ | parsed htext _ =>
    obtain rfl := List.mem_singleton.1 hf
    exact ⟨rfl, htext⟩

/-- The files of an answer: the program is there exactly when there is no fault, and the file is there
when it could be read. -/
theorem Answers.map_files (h : Answers v name r) :
    r.files.map (fun f => (f.name, f.program?.isSome)) =
      if (v.source name).isOk then [(name, (v.fault? name).isNone)] else [] := by
  have herror := h.error?_eq
  cases h with
  | refused he => simp [he, Except.isOk, Except.toBool]
  | malformed htext he => simp [htext, Except.isOk, Except.toBool, ← herror]
  | parsed htext hp => simp [htext, Except.isOk, Except.toBool, ← herror]

/-- Any two answers for a name are the same. -/
theorem Answers.same (h : Answers v name r) (h' : Answers v name r') : r.Same r' := by
  have herror : r.error? = r'.error? := h.error?_eq.trans h'.error?_eq.symm
  refine ⟨?_, herror⟩
  cases h with
  | refused he =>
    cases h' with
    | refused _ => exact .nil
    | malformed htext _ | parsed htext _ =>
      rw [he] at htext
      cases htext
  | malformed htext he =>
    cases h' with
    | refused he' =>
      rw [htext] at he'
      cases he'
    | malformed htext' _ =>
      obtain rfl := Except.ok.inj (htext.symm.trans htext')
      exact .cons ⟨rfl, rfl, .none⟩ .nil
    | parsed _ _ => cases herror
  | @parsed text _ k p htext hp =>
    cases h' with
    | refused he' =>
      rw [htext] at he'
      cases he'
    | malformed _ _ => cases herror
    | @parsed _ _ k' q htext' hq =>
      obtain rfl := Except.ok.inj (htext.symm.trans htext')
      -- Both programs come from this text, read after different numbers.
      have hsame := Program.sameReading_parse text k k'
      rw [hp, hq] at hsame
      cases hsame with
      | ok hvariant => exact .cons ⟨rfl, rfl, .some hvariant⟩ .nil

/-! ## One file -/

/-- What reading and parsing a file can do: be refused, or give a file that does not parse, or one that
does. The files that are kept stay as they are. -/
inductive Parsed (v : Volume) (name : String) (l : Library) : Loaded × Library → Prop
  | refused {e : LoadError} : v.source name = .error e → Parsed v name l (⟨[], some e⟩, l)
  | malformed {text : String} {e : SyntaxError} {last : Nat} : v.source name = .ok text →
      (Program.parse text).runFrom l.last = (.error e, last) →
      Parsed v name l (⟨[⟨l.stamps, name, text, none⟩], some (.malformed e)⟩,
        ⟨l.cache, l.stamps + 1, last⟩)
  | parsed {text : String} {p : Program} {last : Nat} : v.source name = .ok text →
      (Program.parse text).runFrom l.last = (.ok p, last) →
      Parsed v name l (⟨[⟨l.stamps, name, text, some p⟩], none⟩, ⟨l.cache, l.stamps + 1, last⟩)

theorem parsed_parseFile (v : Volume) (name : String) (l : Library) :
    Parsed v name l (l.parseFile v name) := by
  unfold parseFile
  split
  · rename_i hext
    cases hread : v.read name with
    | error e => exact .refused (by rw [Volume.source, if_pos hext, hread]; rfl)
    | ok text =>
      have htext := Volume.source_eq_ok_iff.2 ⟨hext, hread⟩
      dsimp only
      rcases hparse : (Program.parse text).runFrom l.last with ⟨_ | p, last⟩
      · exact .malformed htext hparse
      · exact .parsed htext hparse
  · rename_i hext
    exact .refused (by simp [Volume.source, hext])

/-- Parsing a file answers for its name. -/
theorem answers_parseFile (v : Volume) (name : String) (l : Library) :
    Answers v name (l.parseFile v name).1 := by
  have hparsed := parsed_parseFile v name l
  generalize l.parseFile v name = o at hparsed
  cases hparsed with
  | refused he => exact .refused he
  | malformed htext he => exact .malformed (k := l.last) htext (by rw [he])
  | parsed htext hp => exact .parsed (k := l.last) htext (by rw [hp])

/-- What loading a file can do: give the file that is kept, be refused, give a file that does not parse,
or parse a file and keep it. -/
inductive Step (v : Volume) (name : String) (l : Library) : Loaded × Library → Prop
  | kept {f : SourceFile} : l.cache.lookup name = some f → Step v name l (⟨[f], none⟩, l)
  | refused {e : LoadError} : l.cache.lookup name = none → v.source name = .error e →
      Step v name l (⟨[], some e⟩, l)
  | malformed {text : String} {e : SyntaxError} {last : Nat} : l.cache.lookup name = none →
      v.source name = .ok text → (Program.parse text).runFrom l.last = (.error e, last) →
      Step v name l (⟨[⟨l.stamps, name, text, none⟩], some (.malformed e)⟩,
        ⟨l.cache, l.stamps + 1, last⟩)
  | added {text : String} {p : Program} {last : Nat} : l.cache.lookup name = none →
      v.source name = .ok text → (Program.parse text).runFrom l.last = (.ok p, last) →
      Step v name l (⟨[⟨l.stamps, name, text, some p⟩], none⟩,
        ⟨(name, ⟨l.stamps, name, text, some p⟩) :: l.cache, l.stamps + 1, last⟩)

/-- Loading a file is one step: it is kept already, or it is parsed and kept, or it fails. -/
theorem step_loadFile (v : Volume) (name : String) (l : Library) :
    Step v name l (l.loadFile v name) := by
  unfold loadFile
  cases hlookup : l.cache.lookup name with
  | some f => exact .kept hlookup
  | none =>
    dsimp only
    have hparsed := parsed_parseFile v name l
    generalize l.parseFile v name = o at hparsed
    cases hparsed with
    | refused he => exact .refused hlookup he
    | malformed htext he => exact .malformed hlookup htext he
    | parsed htext hp => exact .added hlookup htext hp

/-- A name has a file that is kept. -/
def Keeps (l : Library) (name : String) : Prop := (l.cache.lookup name).isSome

/-- What is kept stays as it is. -/
def Extends (l l' : Library) : Prop :=
  ∀ name f, l.cache.lookup name = some f → l'.cache.lookup name = some f

/-- The files that are kept are those of the volume: each under its own name, with the text of the
volume and a program that was parsed from it, and read before the next stamp. -/
structure Coherent (v : Volume) (l : Library) : Prop where
  nodup : (l.cache.map Prod.fst).Nodup
  name : ∀ p ∈ l.cache, p.2.name = p.1
  source : ∀ p ∈ l.cache, v.source p.1 = .ok p.2.source
  program : ∀ p ∈ l.cache, ∃ q k, p.2.program? = some q ∧
    ((Program.parse p.2.source).runFrom k).1 = .ok q
  stamp : ∀ p ∈ l.cache, p.2.stamp < l.stamps

theorem mem_of_lookup {f : SourceFile} (h : l.cache.lookup name = some f) : (name, f) ∈ l.cache := by
  obtain ⟨before, after, hcache, -⟩ := List.lookup_eq_some_iff.1 h
  rw [hcache]
  simp

theorem not_mem_of_lookup (h : l.cache.lookup name = none) : name ∉ l.cache.map Prod.fst := by
  intro hmem
  obtain ⟨p, hp, rfl⟩ := List.mem_map.1 hmem
  simpa using List.lookup_eq_none_iff.1 h p hp

/-- A file that is kept answers for its name. -/
theorem Coherent.answers (hl : l.Coherent v) {f : SourceFile} (h : l.cache.lookup name = some f) :
    Answers v name ⟨[f], none⟩ := by
  have hmem := mem_of_lookup h
  obtain ⟨q, k, hprogram, hparse⟩ := hl.program _ hmem
  have hname := hl.name _ hmem
  have hsource := hl.source _ hmem
  obtain ⟨stamp, name', text, program?⟩ := f
  obtain rfl : name' = name := hname
  obtain rfl : program? = some q := hprogram
  exact .parsed hsource hparse

namespace Step

variable {o : Loaded × Library}

/-- A step from a coherent library answers for its name. -/
theorem answers (hl : l.Coherent v) (h : Step v name l o) : Answers v name o.1 := by
  cases h with
  | kept hf => exact hl.answers hf
  | refused _ he => exact .refused he
  | malformed _ htext he => exact .malformed (k := l.last) htext (by rw [he])
  | added _ htext hp => exact .parsed (k := l.last) htext (by rw [hp])

/-- Loading a file keeps a library coherent. -/
theorem coherent (hl : l.Coherent v) (h : Step v name l o) : o.2.Coherent v := by
  cases h with
  | kept _ | refused _ _ => exact hl
  | malformed _ _ _ =>
    exact { hl with stamp := fun p hp => Nat.lt_succ_of_lt (hl.stamp p hp) }
  | added hnone htext hp =>
    refine ⟨List.nodup_cons.2 ⟨not_mem_of_lookup hnone, hl.nodup⟩, ?_, ?_, ?_, ?_⟩
    · exact List.forall_mem_cons.2 ⟨rfl, hl.name⟩
    · exact List.forall_mem_cons.2 ⟨htext, hl.source⟩
    · exact List.forall_mem_cons.2 ⟨⟨_, l.last, rfl, by rw [hp]⟩, hl.program⟩
    · exact List.forall_mem_cons.2 ⟨Nat.lt_succ_self _, fun p hp =>
        Nat.lt_succ_of_lt (hl.stamp p hp)⟩

/-- Loading a file leaves what is kept as it is: only a name without a file gets one. -/
theorem extends_cache (h : Step v name l o) : l.Extends o.2 := by
  cases h with
  | kept _ | refused _ _ | malformed _ _ _ => exact fun _ _ hf => hf
  | added hnone _ _ =>
    intro x f hf
    have hne : (x == name) = false := by
      rw [beq_eq_false_iff_ne]
      rintro rfl
      rw [hnone] at hf
      cases hf
    rw [List.lookup_cons, hne]
    exact hf

/-- A file that comes with a program is kept from then on. -/
theorem lookup_of_mem (h : Step v name l o) {f : SourceFile} (hf : f ∈ o.1.files)
    (hprogram : f.program?.isSome) : o.2.cache.lookup name = some f := by
  cases h with
  | kept hkept =>
    obtain rfl := List.mem_singleton.1 hf
    exact hkept
  | refused _ _ => cases hf
  | malformed _ _ _ =>
    obtain rfl := List.mem_singleton.1 hf
    cases hprogram
  | added _ _ _ =>
    obtain rfl := List.mem_singleton.1 hf
    simp

/-- A file that is kept is the one that comes. -/
theorem eq_of_lookup (h : Step v name l o) {f : SourceFile} (hf : l.cache.lookup name = some f) :
    o = (⟨[f], none⟩, l) := by
  cases h with
  | kept hkept =>
    rw [hf] at hkept
    cases hkept
    rfl
  | refused hnone _ | malformed hnone _ _ | added hnone _ _ =>
    rw [hf] at hnone
    cases hnone

/-- Loading a file adds its name to those that are kept, unless it fails. -/
theorem keeps_iff (hl : l.Coherent v) (h : Step v name l o) (x : String) :
    o.2.Keeps x ↔ l.Keeps x ∨ x = name ∧ v.fault? name = none := by
  have herror := (h.answers hl).error?_eq
  cases h with
  | kept hf =>
    refine ⟨.inl, ?_⟩
    rintro (hx | ⟨rfl, -⟩)
    · exact hx
    · simp [Keeps, hf]
  | refused _ _ | malformed _ _ _ => simp [Keeps, ← herror]
  | added hnone _ _ =>
    simp only [Keeps, List.lookup_cons, ← herror, and_true]
    by_cases hx : x = name
    · simp [hx]
    · simp [hx, beq_false_of_ne hx]

end Step

/-! ## Files in order -/

/-- What loading files in order can do: stop at the first that fails, or go on. -/
inductive Run (v : Volume) : List String → Library → Loaded × Library → Prop
  | nil {l : Library} : Run v [] l (⟨[], none⟩, l)
  | stop {name : String} {rest : List String} {l l' : Library} {files : List SourceFile}
      {e : LoadError} : Step v name l (⟨files, some e⟩, l') →
      Run v (name :: rest) l (⟨files, some e⟩, l')
  | cons {name : String} {rest : List String} {l l' l'' : Library} {f : SourceFile} {r : Loaded} :
      Step v name l (⟨[f], none⟩, l') → Run v rest l' (r, l'') →
      Run v (name :: rest) l (⟨f :: r.files, r.error?⟩, l'')

/-- Loading files in order is a run. -/
theorem run_loadFiles (v : Volume) (names : List String) (l : Library) :
    Run v names l (loadFiles v names l) := by
  induction names generalizing l with
  | nil => exact .nil
  | cons name rest ih =>
    rw [loadFiles]
    have hstep := step_loadFile v name l
    generalize l.loadFile v name = o at hstep
    obtain ⟨⟨files, error?⟩, l'⟩ := o
    cases error? with
    | some e => exact .stop hstep
    | none =>
      -- Only a single file comes without an error.
      obtain ⟨f, rfl⟩ : ∃ f, files = [f] := by
        cases hstep with
        | kept _ | added _ _ _ => exact ⟨_, rfl⟩
      exact .cons hstep (ih l')

namespace Run

variable {names : List String} {o : Loaded × Library}

theorem coherent (hl : l.Coherent v) (h : Run v names l o) : o.2.Coherent v := by
  induction h with
  | nil => exact hl
  | stop hstep => exact hstep.coherent hl
  | cons hstep _ ih => exact ih (hstep.coherent hl)

/-- A run keeps what is kept. -/
theorem extends_cache (h : Run v names l o) : l.Extends o.2 := by
  induction h with
  | nil => exact fun _ _ hf => hf
  | stop hstep => exact hstep.extends_cache
  | cons hstep _ ih => exact fun x f hf => ih x f (hstep.extends_cache x f hf)

/-- Every file that comes has the text of the volume; it is the one that is kept, if there is one, and
it is kept from then on, if it has a program. -/
theorem of_mem (hl : l.Coherent v) (h : Run v names l o) {g : SourceFile} (hg : g ∈ o.1.files) :
    v.source g.name = .ok g.source ∧ (∀ f, l.cache.lookup g.name = some f → g = f) ∧
      (g.program?.isSome → o.2.cache.lookup g.name = some g) := by
  have hone : ∀ {name : String} {l : Library} {o : Loaded × Library}, l.Coherent v → Step v name l o →
      g ∈ o.1.files → v.source g.name = .ok g.source ∧
        (∀ f, l.cache.lookup g.name = some f → g = f) ∧
        (g.program?.isSome → o.2.cache.lookup g.name = some g) := by
    intro name l o hl hstep hg
    obtain ⟨rfl, hsource⟩ := (hstep.answers hl).of_mem hg
    refine ⟨hsource, fun f hf => ?_, hstep.lookup_of_mem hg⟩
    rw [hstep.eq_of_lookup hf] at hg
    exact List.mem_singleton.1 hg
  induction h with
  | nil => cases hg
  | stop hstep => exact hone hl hstep hg
  | @cons name rest l l' l'' f r hstep hrun ih =>
    rcases List.mem_cons.1 hg with rfl | hg
    · obtain ⟨hsource, hkept, hadded⟩ := hone hl hstep (List.mem_singleton.2 rfl)
      exact ⟨hsource, hkept, fun hprogram => hrun.extends_cache _ _ (hadded hprogram)⟩
    · obtain ⟨hsource, hkept, hadded⟩ := ih (hstep.coherent hl) hg
      exact ⟨hsource, fun f hf => hkept f (hstep.extends_cache _ _ hf), hadded⟩

end Run

/-- Files are loaded in order up to the first that fails. Those before it come with programs and are
kept. The one that fails comes without a program, if it could be read, and it is not kept. -/
structure LoadsInOrder (v : Volume) (names : List String) (l : Library) (o : Loaded × Library) :
    Prop where
  files : o.1.files.map (fun f => (f.name, f.program?.isSome)) =
    (v.loadable names).map (·, true) ++
      (((v.failing? names).filter fun name => (v.read name).isOk).toList.map (·, false))
  error : o.1.error? = (v.failing? names).bind v.fault?
  keeps : ∀ x, o.2.Keeps x ↔ l.Keeps x ∨ x ∈ v.loadable names

theorem Run.loadsInOrder {names : List String} {o : Loaded × Library} (hl : l.Coherent v)
    (hext : ∀ name ∈ names, Path.extension name = sourceExtension) (h : Run v names l o) :
    LoadsInOrder v names l o := by
  induction h with
  | nil => exact ⟨rfl, rfl, fun x => by simp [Volume.loadable]⟩
  | @stop name rest l l' files e hstep =>
    -- A file that fails is given if it could be read, but it is not kept.
    have hanswers := hstep.answers hl
    have hfault : v.fault? name = some e := hanswers.error?_eq.symm
    refine ⟨?_, ?_, fun x => ?_⟩
    · rw [hanswers.map_files, Volume.loadable_cons_of_some hfault,
        Volume.failing?_cons_of_some hfault, hfault,
        Volume.isOk_source (List.forall_mem_cons.1 hext).1]
      by_cases hok : (v.read name).isOk = true
      · simp [hok, Option.filter]
      · simp [hok, Option.filter]
    · rw [Volume.failing?_cons_of_some hfault]
      exact hfault.symm
    · rw [hstep.keeps_iff hl, Volume.loadable_cons_of_some hfault, hfault]
      simp
  | @cons name rest l l' l'' f r hstep _ ih =>
    have hanswers := hstep.answers hl
    have hfault : v.fault? name = none := hanswers.error?_eq.symm
    have ih := ih (hstep.coherent hl) (List.forall_mem_cons.1 hext).2
    -- A file that does not fail is given alone and with its program.
    have hfirst : (f.name, f.program?.isSome) = (name, true) := by
      have hmap := hanswers.map_files
      rw [hfault] at hmap
      split at hmap
      · exact List.singleton_inj.1 hmap
      · cases hmap
    refine ⟨?_, ?_, fun x => ?_⟩
    · rw [Volume.loadable_cons_of_none hfault, Volume.failing?_cons_of_none hfault, List.map_cons,
        hfirst, ih.files]
      rfl
    · rw [Volume.failing?_cons_of_none hfault]
      exact ih.error
    · rw [ih.keeps, hstep.keeps_iff hl, Volume.loadable_cons_of_none hfault, List.mem_cons, hfault]
      simp [or_assoc]

/-! ## Requests -/

/-- What can be asked of a library: a directory or a file, whichever a name denotes, or one of them. -/
inductive Request where
  | either (name : String)
  | directory (dir : String)
  | file (name : String)

/-- What comes of a request. -/
def serve (v : Volume) (l : Library) : Request → Loaded × Library
  | .either name => l.load v name
  | .directory dir => l.loadDirectory v dir
  | .file name => l.loadFile v name

theorem loadFiles_singleton (v : Volume) (name : String) (l : Library) :
    loadFiles v [name] l = l.loadFile v name := by
  rw [loadFiles]
  have hstep := step_loadFile v name l
  generalize l.loadFile v name = o at hstep
  cases hstep <;> rfl

theorem run_loadFile (v : Volume) (name : String) (l : Library) :
    Run v [name] l (l.loadFile v name) :=
  loadFiles_singleton v name l ▸ run_loadFiles v [name] l

/-- Loading a directory fails at once, or it is a run through its source files. -/
theorem loadDirectory_cases (v : Volume) (dir : String) (l : Library) :
    (∃ e, l.loadDirectory v dir = (⟨[], some e⟩, l)) ∨
      ∃ names, Run v names l (l.loadDirectory v dir) := by
  unfold loadDirectory
  cases v.list dir with
  | error e => exact .inl ⟨_, rfl⟩
  | ok entries =>
    dsimp only
    split
    · exact .inl ⟨_, rfl⟩
    · exact .inr ⟨_, run_loadFiles v _ l⟩

/-- A request is refused and changes nothing, or it loads files in order. -/
theorem serve_cases (v : Volume) (l : Library) (request : Request) :
    (∃ e, l.serve v request = (⟨[], some e⟩, l)) ∨ ∃ names, Run v names l (l.serve v request) := by
  cases request with
  | file name => exact .inr ⟨_, run_loadFile v name l⟩
  | directory dir => exact loadDirectory_cases v dir l
  | either name =>
    rw [serve, load]
    cases v.isDirectory name with
    | error e => exact .inl ⟨_, rfl⟩
    | ok isDirectory =>
      cases isDirectory with
      | true => exact loadDirectory_cases v name l
      | false => exact .inr ⟨_, run_loadFile v name l⟩

/-- Every request keeps a library coherent. -/
theorem coherent_serve (hl : l.Coherent v) (request : Request) :
    (l.serve v request).2.Coherent v := by
  rcases serve_cases v l request with ⟨e, he⟩ | ⟨names, hrun⟩
  · rw [he]
    exact hl
  · exact hrun.coherent hl

/-- Every request keeps what is kept. -/
theorem extends_serve (v : Volume) (l : Library) (request : Request) :
    l.Extends (l.serve v request).2 := by
  rcases serve_cases v l request with ⟨e, he⟩ | ⟨names, hrun⟩
  · rw [he]
    exact fun _ _ hf => hf
  · exact hrun.extends_cache

/-- A request gives the file that is kept under a name and no other of that name. -/
theorem eq_of_mem_serve (hl : l.Coherent v) (request : Request) {f g : SourceFile}
    (hg : g ∈ (l.serve v request).1.files) (hf : l.cache.lookup g.name = some f) : g = f := by
  rcases serve_cases v l request with ⟨e, he⟩ | ⟨names, hrun⟩
  · rw [he] at hg
    cases hg
  · exact (hrun.of_mem hl hg).2.1 f hf

/-- A file that comes with a program is kept after the request. -/
theorem lookup_of_mem_serve (hl : l.Coherent v) (request : Request) {g : SourceFile}
    (hg : g ∈ (l.serve v request).1.files) (hprogram : g.program?.isSome) :
    (l.serve v request).2.cache.lookup g.name = some g := by
  rcases serve_cases v l request with ⟨e, he⟩ | ⟨names, hrun⟩
  · rw [he] at hg
    cases hg
  · exact (hrun.of_mem hl hg).2.2 hprogram

/-- What can happen to a library: a request, or numbers that are given out elsewhere. -/
inductive Next (v : Volume) : Library → Library → Prop
  | serve (l : Library) (request : Request) : Next v l (l.serve v request).2
  | numbers {l : Library} {last : Nat} : l.last ≤ last → Next v l { l with last }

/-- What a library becomes by requests, succeeding or failing. -/
abbrev Leads (v : Volume) : Library → Library → Prop := Relation.ReflTransGen (Next v)

/-- A library that keeps nothing is coherent. -/
theorem coherent_startFrom (v : Volume) (last : Nat) : (startFrom last).Coherent v := by
  constructor <;> simp [startFrom]

/-- Requests in any order keep a library coherent. -/
theorem Leads.coherent (hl : l.Coherent v) (h : Leads v l l') : l'.Coherent v := by
  induction h with
  | refl => exact hl
  | tail _ hnext ih =>
    cases hnext with
    | serve request => exact coherent_serve ih request
    | numbers _ => exact { ih with }

theorem Leads.extends_cache (h : Leads v l l') : l.Extends l' := by
  induction h with
  | refl => exact fun _ _ hf => hf
  | tail _ hnext ih =>
    intro x f hf
    have hf := ih x f hf
    cases hnext with
    | serve request => exact extends_serve v _ request x f hf
    | numbers _ => exact hf

/-! ## Directories -/

theorem loadDirectory_of_error {dir : String} {e : FileError} (h : v.list dir = .error e) :
    l.loadDirectory v dir = (⟨[], some (.refused e)⟩, l) := by
  rw [loadDirectory, h]
  rfl

theorem loadDirectory_of_nil {dir : String} {entries : List DirectoryEntry}
    (h : v.list dir = .ok entries) (hnil : sourcesIn dir entries = []) :
    l.loadDirectory v dir = (⟨[], some (.noSources dir)⟩, l) := by
  simp only [loadDirectory, h, hnil]
  rfl

/-- A directory with sources loads them in order. -/
theorem loadsInOrder_loadDirectory (hv : v.WellListed) (hl : l.Coherent v) {dir : String}
    {entries : List DirectoryEntry} (h : v.list dir = .ok entries)
    (hne : sourcesIn dir entries ≠ []) :
    LoadsInOrder v (sourcesIn dir entries) l (l.loadDirectory v dir) := by
  have hload : l.loadDirectory v dir = loadFiles v (sourcesIn dir entries) l := by
    simp only [loadDirectory, h]
  rw [hload]
  exact (run_loadFiles v _ l).loadsInOrder hl fun name hname =>
    extension_of_mem_sourcesIn hv h hname

/-- A file that is kept is among those of every directory whose listing comes to it. -/
theorem mem_files_loadDirectory (hv : v.WellListed) (hl : l.Coherent v) {f : SourceFile}
    (hf : l.cache.lookup name = some f) {dir : String} {entries : List DirectoryEntry}
    (hlist : v.list dir = .ok entries) (hname : name ∈ v.loadable (sourcesIn dir entries)) :
    f ∈ (l.loadDirectory v dir).1.files := by
  have hne : sourcesIn dir entries ≠ [] :=
    List.ne_nil_of_mem (List.takeWhile_subset _ hname)
  have hmem : (name, true) ∈
      (l.loadDirectory v dir).1.files.map (fun f => (f.name, f.program?.isSome)) := by
    rw [(loadsInOrder_loadDirectory hv hl hlist hne).files]
    exact List.mem_append_left _ (List.mem_map_of_mem hname)
  obtain ⟨g, hg, heq⟩ := List.mem_map.1 hmem
  have hgname : g.name = name := congrArg Prod.fst heq
  -- The file that comes under the name is the one that is kept.
  obtain rfl : g = f := eq_of_mem_serve hl (.directory dir) hg (hgname ▸ hf)
  exact hg

/-! ## A directory or a file -/

/-- A name without anything is refused, a directory is loaded as one, and anything else is loaded as a
file. -/
structure LoadsWhatIsThere (v : Volume) (name : String) (l : Library) : Prop where
  refused : ∀ e, v.isDirectory name = .error e → l.load v name = (⟨[], some (.refused e)⟩, l)
  directory : v.isDirectory name = .ok true → l.load v name = l.loadDirectory v name
  file : v.isDirectory name = .ok false → l.load v name = l.loadFile v name

/-- Loading a name loads a file or a directory, as the volume has it. -/
theorem loadsWhatIsThere (v : Volume) (name : String) (l : Library) : LoadsWhatIsThere v name l where
  refused e h := by
    rw [load, h]
    rfl
  directory h := by rw [load, h]
  file h := by rw [load, h]

/-! ## All requests -/

/-- After any sequence of requests to a library on a volume, succeeding or failing: every file that is
kept has the name it is kept under, the text of the volume and a program. What is kept stays, so from
then on loading that name, as a file or as whatever is there, gives that very file and changes nothing;
so does every request that gives a file of that name, and a directory gives it wherever its listing comes
to it. A file that comes with a program is kept, and one that cannot be read or parsed never is. Loading
a file comes to what parsing it anew comes to, but for the names of type variables. A name is loaded as a
directory or as a file, whichever is there. A directory stands for the files in it that have the
extension of source files, in strictly ascending order, and loads them in order up to the first that
fails. -/
theorem coherent_of_leads (hv : v.WellListed) {last : Nat} (h : Leads v (startFrom last) l) :
    (l.cache.map Prod.fst).Nodup ∧
    (∀ name f, (name, f) ∈ l.cache →
      f.name = name ∧ v.read name = .ok f.source ∧ f.program?.isSome) ∧
    (∀ l', Leads v l l' → ∀ name f, l.cache.lookup name = some f →
      l'.cache.lookup name = some f ∧
      l'.loadFile v name = (⟨[f], none⟩, l') ∧
      (v.isDirectory name = .ok false → l'.load v name = (⟨[f], none⟩, l')) ∧
      (∀ dir entries, v.list dir = .ok entries → name ∈ v.loadable (sourcesIn dir entries) →
        f ∈ (l'.loadDirectory v dir).1.files) ∧
      ∀ request, ∀ g ∈ (l'.serve v request).1.files, g.name = name → g = f) ∧
    (∀ request, ∀ g ∈ (l.serve v request).1.files, g.program?.isSome →
      (l.serve v request).2.cache.lookup g.name = some g) ∧
    (∀ name l₀, (parseFile v name l₀).1.error?.isSome → ¬l.Keeps name) ∧
    (∀ name l₀, (l.loadFile v name).1.Same (parseFile v name l₀).1) ∧
    (∀ name, LoadsWhatIsThere v name l) ∧
    ∀ dir,
      (∀ e, v.list dir = .error e → l.loadDirectory v dir = (⟨[], some (.refused e)⟩, l)) ∧
      ∀ entries, v.list dir = .ok entries →
        let sources := sourcesIn dir entries
        (∀ name, name ∈ sources ↔ ∃ e ∈ entries, e.isDirectory = false ∧
          Path.extension e.name = sourceExtension ∧ name = Path.join dir e.name) ∧
        sources.Pairwise (· < ·) ∧
        (sources = [] → l.loadDirectory v dir = (⟨[], some (.noSources dir)⟩, l)) ∧
        (sources ≠ [] → LoadsInOrder v sources l (l.loadDirectory v dir)) := by
  have hl : l.Coherent v := Leads.coherent (coherent_startFrom v last) h
  refine ⟨hl.nodup, fun name f hf => ?_, fun l' h' name f hf => ?_, fun request g hg => ?_,
    fun name l₀ herror hkeeps => ?_, fun name l₀ => ?_, fun name => loadsWhatIsThere v name l,
    fun dir => ⟨fun e he => ?_, ?_⟩⟩
  · obtain ⟨q, -, hprogram, -⟩ := hl.program _ hf
    refine ⟨hl.name _ hf, (Volume.source_eq_ok_iff.1 (hl.source _ hf)).2, ?_⟩
    rw [hprogram]
    rfl
  · have hl' := h'.coherent hl
    have hf' := h'.extends_cache name f hf
    have hload := (step_loadFile v name l').eq_of_lookup hf'
    refine ⟨hf', hload, fun hfile => ((loadsWhatIsThere v name l').file hfile).trans hload,
      fun dir entries hlist hname => mem_files_loadDirectory hv hl' hf' hlist hname,
      fun request g hg hname => ?_⟩
    exact eq_of_mem_serve hl' request hg (hname ▸ hf')
  · exact lookup_of_mem_serve hl request hg
  · obtain ⟨f, hf⟩ := Option.isSome_iff_exists.1 hkeeps
    rw [← (hl.answers hf).same (answers_parseFile v name l₀) |>.error] at herror
    cases herror
  · exact ((step_loadFile v name l).answers hl).same (answers_parseFile v name l₀)
  · exact loadDirectory_of_error he
  · intro entries hlist sources
    exact ⟨fun name => mem_sourcesIn, pairwise_sourcesIn hv hlist, loadDirectory_of_nil hlist,
      loadsInOrder_loadDirectory hv hl hlist⟩

/-- A directory with a file that does not parse between two that do. Loading the directory keeps the
first, gives the second without a program and does not look at the third, which is then loaded by its
name. In the library after that, the first name gives the file that was kept before, whether it is loaded
as a file, as whatever is there or with the directory. -/
theorem coherent_of_leads_brokenSource :
    let t : FileTree := .ofFiles [("p/b.l5", "(f"), ("p/a.l5", "(define (x : T) 1)"), ("p/c.l5", "y"),
      ("p/notes.txt", "z")]
    let v := t.volume
    let o := (startFrom 0).loadDirectory v "p"
    let l' := (o.2.load v "p/c.l5").2
    v.WellListed ∧ Leads v (startFrom 0) o.2 ∧ Leads v o.2 l' ∧
      o.1.files.map (fun f => (f.name, f.program?.isSome)) = [("p/a.l5", true), ("p/b.l5", false)] ∧
      o.2.Keeps "p/a.l5" ∧ ¬o.2.Keeps "p/b.l5" ∧ ¬o.2.Keeps "p/c.l5" ∧ l'.Keeps "p/c.l5" ∧
      ∃ f, o.2.cache.lookup "p/a.l5" = some f ∧ l'.loadFile v "p/a.l5" = (⟨[f], none⟩, l') ∧
        l'.load v "p/a.l5" = (⟨[f], none⟩, l') ∧ f ∈ (l'.loadDirectory v "p").1.files := by
  intro t v o l'
  have hv : v.WellListed := t.wellListed_volume
  have hleads : Leads v (startFrom 0) o.2 := .single (.serve (startFrom 0) (.directory "p"))
  have hleads' : Leads v o.2 l' := .single (.serve o.2 (.either "p/c.l5"))
  have hlist : v.list "p" = .ok (t.entries "p") := rfl
  have hsources : sourcesIn "p" (t.entries "p") = ["p/a.l5", "p/b.l5", "p/c.l5"] :=
    sourcesIn_eq_of_perm (by decide) ((((List.mergeSort_perm _ _).filter _).map _).trans
      (by decide +kernel))
  have hloadable : v.loadable ["p/a.l5", "p/b.l5", "p/c.l5"] = ["p/a.l5"] := by decide +kernel
  have hfailing : (v.failing? ["p/a.l5", "p/b.l5", "p/c.l5"]).filter
      (fun name => (v.read name).isOk) = some "p/b.l5" := by decide +kernel
  -- The directory is loaded by a library that keeps nothing yet.
  obtain ⟨-, -, -, -, -, -, -, hdirectory⟩ :=
    coherent_of_leads hv (.refl : Leads v (startFrom 0) (startFrom 0))
  obtain ⟨-, -, -, horder⟩ := (hdirectory "p").2 _ hlist
  rw [hsources] at horder
  obtain ⟨hfiles, -, hkeeps⟩ := horder (by simp)
  rw [hloadable, hfailing] at hfiles
  rw [hloadable] at hkeeps
  have honly : ∀ x, o.2.Keeps x ↔ x = "p/a.l5" := fun x =>
    (hkeeps x).trans (by simp [Keeps, startFrom])
  -- From then on the library keeps the first file, whatever else is loaded.
  obtain ⟨-, -, hkept, -, -, -, hwhatever, -⟩ := coherent_of_leads hv hleads
  have hthird : l' = (o.2.loadFile v "p/c.l5").2 :=
    congrArg Prod.snd ((hwhatever "p/c.l5").file (by decide +kernel))
  have hthirdKept : l'.Keeps "p/c.l5" := by
    have hl := Leads.coherent (coherent_startFrom v 0) hleads
    rw [hthird, (step_loadFile v "p/c.l5" o.2).keeps_iff hl]
    exact .inr ⟨rfl, by decide +kernel⟩
  obtain ⟨f, hf⟩ := Option.isSome_iff_exists.1 ((honly "p/a.l5").2 rfl)
  obtain ⟨-, hfile, hload, hdir, -⟩ := hkept l' hleads' "p/a.l5" f hf
  refine ⟨hv, hleads, hleads', hfiles, (honly _).2 rfl, ?_, ?_, hthirdKept, f, hf, hfile,
    hload (by decide +kernel), hdir "p" _ hlist (by rw [hsources, hloadable]; simp)⟩
  · rw [honly]
    decide
  · rw [honly]
    decide

end Library

end TypedScheme
