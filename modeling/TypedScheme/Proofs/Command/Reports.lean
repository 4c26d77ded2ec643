import TypedScheme.Command.Run
import TypedScheme.Proofs.Files.Library
import TypedScheme.Proofs.Typing.History
import TypedScheme.Proofs.Typing.Steps

/-!
# Every file is reported once

Checking paths gives one report for every file that was loaded and one for every path that could not be
loaded to its end, in order and whatever failed before. The status tells whether anything failed.

## What this module delivers

- `Program.HasType` and `Program.HasError`: the verdict on a program, which does not depend on the
  numbers given out before (`Program.HasType.not_hasError`).
- `Report` and `Loaded.Accounts`: the reports that are due for what came of a path.
- `Library.reportable_load`: a file without a program is the last of its path and comes with the error.
- `FileCheck.Reported`: what checking files comes to, file by file.
- `Command.run_check_accounted`: what the command prints, and its status.
-/

set_option autoImplicit false

namespace TypedScheme

open Check

/-! ## The verdict on a program -/

namespace Program

variable {p : Program} {k k₁ k₂ : Nat}

/-- A program is accepted with a type, checked by itself after numbers that cover its type variables. -/
def HasType (p : Program) (t : Ty) : Prop :=
  ∃ k Γ, Expr.NumberedAll k p.forms ∧ ((p.check .empty).runFrom k false).result = .ok (t, Γ)

/-- A program is rejected with an error, checked by itself after numbers that cover its type
variables. -/
def HasError (p : Program) (e : TypeError) : Prop :=
  ∃ k, Expr.NumberedAll k p.forms ∧ ((p.check .empty).runFrom k false).result = .error e

/-- A program is checked in the same way after any numbers that cover its type variables. -/
theorem parallel_check (h₁ : Expr.NumberedAll k₁ p.forms) (h₂ : Expr.NumberedAll k₂ p.forms) :
    Parallel k₁ k₂ (fun r₁ r₂ => r₁.1.Variant r₂.1) (p.check .empty) (p.check .empty) := by
  have hnone : ∀ k, Expr.NumberedAll k [] := fun k t ht => absurd ht List.not_mem_nil
  exact Expr.parallel_typeOfForms 0 0 (hnone k₁) (hnone k₂) h₁ h₂

/-- A check gives no number back. -/
theorem last_le_check (h : Expr.NumberedAll k p.forms) (tracing : Bool) :
    k ≤ ((p.check .empty).runFrom k tracing).last := by
  obtain ⟨m, hm, -⟩ := (parallel_check h h).runFrom tracing tracing
  omega

/-- A program that is accepted after some numbers is not rejected after others. -/
theorem HasType.not_hasError {t : Ty} {e : TypeError} (ht : p.HasType t) : ¬p.HasError e := by
  rintro ⟨k₂, h₂, herror⟩
  obtain ⟨k₁, Γ, h₁, hok⟩ := ht
  obtain ⟨m, -, -, halike⟩ := (parallel_check h₁ h₂).runFrom false false
  obtain ⟨r, hr, -⟩ := halike.exists_of_ok hok
  rw [herror] at hr
  cases hr

end Program

/-! ## Reports -/

/-- What is reported: the type of a file or why it was rejected, why a file does not parse, or why a
path could not be loaded. -/
inductive Report where
  | typed (file : SourceFile) (type : Ty)
  | rejected (file : SourceFile) (error : TypeError)
  | unparsed (file : SourceFile) (error : SyntaxError)
  | unloaded (error : LoadError)

namespace Report

/-- A report on one of the two streams: a type on the output, a diagnostic of a file or a line behind
the name of the program on the log. -/
def chunk (s : Settings) (dir : String) : Report → Chunk
  | typed f t => .outLine (Path.join dir f.name ++ ": " ++ t.render)
  | rejected f e =>
    .errLine ((Diagnostic.ofTypeError e).render (Path.join dir f.name) f.source s.color)
  | unparsed f e =>
    .errLine ((Diagnostic.ofSyntaxError e).render (Path.join dir f.name) f.source s.color)
  | unloaded e => .log e.render

/-- Whether a report is one of a failure. -/
def isFailure : Report → Bool
  | typed _ _ => false
  | _ => true

end Report

namespace SourceFile

/-- The program of a file is accepted. -/
def Accepted (f : SourceFile) : Prop := ∃ p t, f.program? = some p ∧ p.HasType t

/-- The program of a file is rejected. -/
def Rejected (f : SourceFile) : Prop := ∃ p e, f.program? = some p ∧ p.HasError e

/-- The report that is due for a file with a program. -/
inductive Judged (f : SourceFile) : Report → Prop
  | typed {p : Program} {t : Ty} : f.program? = some p → p.HasType t → Judged f (.typed f t)
  | rejected {p : Program} {e : TypeError} : f.program? = some p → p.HasError e →
      Judged f (.rejected f e)

theorem Accepted.not_rejected {f : SourceFile} (h : f.Accepted) : ¬f.Rejected := by
  rintro ⟨q, e, hq, he⟩
  obtain ⟨p, t, hp, ht⟩ := h
  obtain rfl := Option.some.inj (hp.symm.trans hq)
  exact ht.not_hasError he

/-- The report on a file is a failure exactly if the file is rejected. -/
theorem Judged.isFailure_iff {f : SourceFile} {r : Report} (h : f.Judged r) :
    r.isFailure = true ↔ f.Rejected := by
  cases h with
  | typed hp ht => simpa [Report.isFailure] using Accepted.not_rejected ⟨_, _, hp, ht⟩
  | rejected hp he => simpa [Report.isFailure] using ⟨_, _, hp, he⟩

theorem Judged.accepted {f : SourceFile} {r : Report} (h : f.Judged r) (hr : r.isFailure = false) :
    f.Accepted := by
  cases h with
  | typed hp ht => exact ⟨_, _, hp, ht⟩
  | rejected _ _ => cases hr

/-- A file has a program, whose type variables were numbered before. -/
def Ready (k : Nat) (f : SourceFile) : Prop :=
  ∃ p, f.program? = some p ∧ Expr.NumberedAll k p.forms

theorem Ready.mono {f : SourceFile} {k k' : Nat} (h : f.Ready k) (hk : k ≤ k') : f.Ready k' := by
  obtain ⟨p, hp, hnumbered⟩ := h
  exact ⟨p, hp, hnumbered.mono hk⟩

end SourceFile

namespace Loaded

/-- The reports that are due for what came of a path: one for every file, in order, and one more for an
error, unless it is the error of the last file, which is reported as that file. -/
inductive Accounts (r : Loaded) : List Report → Prop
  | loaded {reports : List Report} : r.error? = none →
      List.Forall₂ SourceFile.Judged r.files reports → Accounts r reports
  | unparsed {files : List SourceFile} {f : SourceFile} {e : SyntaxError} {reports : List Report} :
      r.files = files ++ [f] → f.program? = none → r.error? = some (.malformed e) →
      List.Forall₂ SourceFile.Judged files reports → Accounts r (reports ++ [.unparsed f e])
  | unloaded {e : LoadError} {reports : List Report} : r.error? = some e →
      List.Forall₂ SourceFile.Judged r.files reports → Accounts r (reports ++ [.unloaded e])

/-- There is a failure among the reports exactly if a file is rejected. -/
theorem any_isFailure_iff {files : List SourceFile} {reports : List Report}
    (h : List.Forall₂ SourceFile.Judged files reports) :
    reports.any Report.isFailure = true ↔ ∃ f ∈ files, f.Rejected := by
  induction h with
  | nil => simp
  | cons hr _ ih => simp [hr.isFailure_iff, ih]

theorem accepted_of_any_eq_false {files : List SourceFile} {reports : List Report}
    (h : List.Forall₂ SourceFile.Judged files reports)
    (hany : reports.any Report.isFailure = false) : ∀ f ∈ files, f.Accepted := by
  induction h with
  | nil => simp
  | cons hr _ ih =>
    rw [List.any_cons, Bool.or_eq_false_iff] at hany
    exact List.forall_mem_cons.2 ⟨hr.accepted hany.1, ih hany.2⟩

/-- A failure is reported exactly when the path could not be loaded or a program was rejected. -/
theorem Accounts.any_isFailure {r : Loaded} {reports : List Report} (h : r.Accounts reports) :
    reports.any Report.isFailure = true ↔ r.error?.isSome ∨ ∃ f ∈ r.files, f.Rejected := by
  cases h with
  | loaded hnone hjudged => simp [hnone, any_isFailure_iff hjudged]
  | unparsed _ _ hsome _ | unloaded hsome _ => simp [hsome, Report.isFailure]

/-- If no report is a failure, everything has been loaded and accepted. -/
theorem Accounts.accepted {r : Loaded} {reports : List Report} (h : r.Accounts reports)
    (hany : reports.any Report.isFailure = false) :
    r.error? = none ∧ ∀ f ∈ r.files, f.Accepted := by
  cases h with
  | loaded hnone hjudged => exact ⟨hnone, accepted_of_any_eq_false hjudged hany⟩
  | unparsed _ _ _ _ | unloaded _ _ => simp [Report.isFailure] at hany

/-- What can come of a path: files with programs, then possibly one without a program, whose error ends
the list, or an error of another kind. -/
inductive Reportable (k : Nat) : Loaded → Prop
  | complete {files : List SourceFile} : (∀ f ∈ files, f.Ready k) → Reportable k ⟨files, none⟩
  | unparsed {files : List SourceFile} {f : SourceFile} {e : SyntaxError} :
      (∀ f ∈ files, f.Ready k) → f.program? = none →
      Reportable k ⟨files ++ [f], some (.malformed e)⟩
  | unloaded {files : List SourceFile} {e : LoadError} :
      (∀ f ∈ files, f.Ready k) → Reportable k ⟨files, some e⟩

/-- A file that is ready goes in front of what can be reported on. -/
theorem Reportable.cons {k : Nat} {f : SourceFile} {r : Loaded} (hf : f.Ready k)
    (h : Reportable k r) : Reportable k ⟨f :: r.files, r.error?⟩ := by
  cases h with
  | complete hfiles => exact .complete (List.forall_mem_cons.2 ⟨hf, hfiles⟩)
  | @unparsed files g e hfiles hg =>
    exact @Reportable.unparsed k (f :: files) g e (List.forall_mem_cons.2 ⟨hf, hfiles⟩) hg
  | unloaded hfiles => exact .unloaded (List.forall_mem_cons.2 ⟨hf, hfiles⟩)

theorem Reportable.ready {k : Nat} {r : Loaded} (h : Reportable k r) (hnone : r.error? = none) :
    ∀ f ∈ r.files, f.Ready k := by
  cases h with
  | complete hfiles => exact hfiles
  | unparsed _ _ | unloaded _ => cases hnone

end Loaded

/-! ## What comes of a path -/

namespace Library

variable {v : Volume} {l : Library} {o : Loaded × Library}

/-- The files that are kept have programs, whose type variables were numbered before. -/
def Numbered (l : Library) : Prop := ∀ p ∈ l.cache, p.2.Ready l.last

theorem Step.last_le {name : String} (h : Step v name l o) : l.last ≤ o.2.last := by
  cases h with
  | kept _ | refused _ _ => exact Nat.le_refl _
  | @malformed text _ _ _ _ hparse | @added text _ _ _ _ hparse =>
    have hle := Program.last_le_parse text l.last
    rw [hparse] at hle
    exact hle

/-- A step numbers what it adds to a library. -/
theorem Step.numbered {name : String} (hl : l.Numbered) (h : Step v name l o) : o.2.Numbered := by
  have hle := h.last_le
  have hkept : ∀ p ∈ l.cache, p.2.Ready o.2.last := fun p hp => (hl p hp).mono hle
  cases h with
  | kept _ | refused _ _ => exact hl
  | malformed _ _ _ => exact hkept
  | added _ _ hparse =>
    exact List.forall_mem_cons.2 ⟨⟨_, rfl, Program.numbered_of_parse hparse⟩, hkept⟩

/-- What a step gives can be reported on, with the numbers of the library after it. -/
theorem Step.reportable {name : String} (hl : l.Numbered) (h : Step v name l o) :
    o.1.Reportable o.2.last := by
  cases h with
  | kept hf => exact .complete (by simpa using hl _ (mem_of_lookup hf))
  | refused _ _ => exact .unloaded (by simp)
  | malformed _ _ _ => exact @Loaded.Reportable.unparsed _ [] _ _ (by simp) rfl
  | added _ _ hparse => exact .complete (by simpa using ⟨_, rfl, Program.numbered_of_parse hparse⟩)

theorem Run.last_le {names : List String} (h : Run v names l o) : l.last ≤ o.2.last := by
  induction h with
  | nil => exact Nat.le_refl _
  | stop hstep => exact hstep.last_le
  | cons hstep _ ih => exact hstep.last_le.trans ih

/-- Loading files in order, the invariant being that of what is kept. -/
theorem Run.reportable {names : List String} (hl : l.Numbered) (h : Run v names l o) :
    o.1.Reportable o.2.last := by
  induction h with
  | nil => exact .complete (by simp)
  | stop hstep => exact hstep.reportable hl
  | @cons name rest l l' l'' f r hstep hrun ih =>
    -- The first file was numbered before the others were read.
    have hfirst : f.Ready l'.last := (hstep.reportable hl).ready rfl f List.mem_cons_self
    exact (ih (hstep.numbered hl)).cons (hfirst.mono hrun.last_le)

/-- What comes of a path in a library of its own can be reported. -/
theorem reportable_load (v : Volume) (name : String) (last : Nat) :
    ((startFrom last).load v name).1.Reportable ((startFrom last).load v name).2.last := by
  have hl : (startFrom last).Numbered := fun p hp => absurd hp List.not_mem_nil
  rcases serve_cases v (startFrom last) (.either name) with ⟨e, he⟩ | ⟨names, hrun⟩
  · rw [serve] at he
    rw [he]
    exact .unloaded (by simp)
  · exact hrun.reportable hl

end Library

/-! ## Checking files -/

namespace FileCheck

variable {s : Settings} {dir : String}

/-- What checking files with programs comes to: one report for each, in order. -/
structure Reported (s : Settings) (dir : String) (files : List SourceFile) (o : Progress)
    (reports : List Report) : Prop where
  judged : List.Forall₂ SourceFile.Judged files reports
  chunks : o.chunks = reports.map (Report.chunk s dir)
  failed : o.failed = reports.any Report.isFailure

/-- A file is checked to one report, and the numbers go up. -/
theorem reported_checkFile (hdump : s.dump = false) (htrace : s.trace = false) (dir : String)
    {f : SourceFile} {last : Nat} (hf : f.Ready last) :
    last ≤ (checkFile s dir f last).last ∧
      ∃ report, Reported s dir [f] (checkFile s dir f last) [report] := by
  obtain ⟨p, hp, hnumbered⟩ := hf
  have hle := Program.last_le_check hnumbered false
  have hnotes := (p.built_check .empty).notes_runFrom last
  simp only [checkFile, hp, checkProgram, htrace, hnotes, Note.chunks, Settings.listing, hdump]
  cases hresult : ((p.check .empty).runFrom last false).result with
  | ok r =>
    obtain ⟨t, Γ⟩ := r
    exact ⟨hle, .typed f t, .cons (.typed hp ⟨last, Γ, hnumbered, hresult⟩) .nil, rfl, rfl⟩
  | error e =>
    exact ⟨hle, .rejected f e, .cons (.rejected hp ⟨last, hnumbered, hresult⟩) .nil, rfl, rfl⟩

/-- Files are reported one by one, whatever was found in those before. -/
theorem reported_checkFiles (hdump : s.dump = false) (htrace : s.trace = false) (dir : String)
    {files : List SourceFile} {last : Nat} (hfiles : ∀ f ∈ files, f.Ready last) :
    ∃ reports, Reported s dir files (checkFiles s dir files last) reports := by
  induction files generalizing last with
  | nil => exact ⟨[], .nil, rfl, rfl⟩
  | cons f files ih =>
    obtain ⟨hf, hfiles⟩ := List.forall_mem_cons.1 hfiles
    obtain ⟨hle, report, hreport⟩ := reported_checkFile hdump htrace dir hf
    obtain ⟨reports, hreports⟩ := ih fun g hg => (hfiles g hg).mono hle
    refine ⟨report :: reports, ?_, ?_, ?_⟩
    · cases hreport.judged with
      | cons hjudged _ => exact .cons hjudged hreports.judged
    · simp [checkFiles, hreport.chunks, hreports.chunks]
    · simp [checkFiles, hreport.failed, hreports.failed]

/-- A file without a program is passed over. -/
theorem checkFiles_append_of_none {f : SourceFile} (hf : f.program? = none)
    (files : List SourceFile) (last : Nat) :
    checkFiles s dir (files ++ [f]) last = checkFiles s dir files last := by
  induction files generalizing last with
  | nil => simp [checkFiles, checkFile, hf]
  | cons g files ih => simp [checkFiles, ih]

/-- The error of a last file that does not parse is shown as a diagnostic of that file. -/
theorem reportError_of_none {f : SourceFile} (hf : f.program? = none) (files : List SourceFile)
    (e : SyntaxError) :
    reportError s dir (files ++ [f]) (.malformed e) = (Report.unparsed f e).chunk s dir := by
  simp [reportError, hf, diagnosticOf, Report.chunk]

/-- An error after files that all have programs is a line on the log. -/
theorem reportError_of_ready {files : List SourceFile} {last : Nat}
    (hfiles : ∀ f ∈ files, f.Ready last) (e : LoadError) :
    reportError s dir files e = (Report.unloaded e).chunk s dir := by
  unfold reportError
  cases hlast : files.getLast? with
  | none => rfl
  | some f =>
    obtain ⟨p, hp, -⟩ := hfiles f (List.mem_of_getLast? hlast)
    simp [hp, Report.chunk]

/-! ## Checking paths -/

/-- A path, what came of it, and what was reported. -/
structure Visit where
  path : String
  loaded : Loaded
  reports : List Report

namespace Visit

/-- What is printed for a path. -/
def chunks (s : Settings) (visit : Visit) : List Chunk :=
  visit.reports.map (Report.chunk s (Path.locate visit.path).1)

/-- A path was loaded from the directory it lies in, and reported as is due. -/
structure Faithful (disk : String → Volume) (visit : Visit) : Prop where
  loads : ∃ last, visit.loaded = ((Library.startFrom last).load (disk (Path.locate visit.path).1)
    (Path.locate visit.path).2).1
  accounts : visit.loaded.Accounts visit.reports

end Visit

/-- The check of a path is a visit of it: what is loaded there is what is reported on. -/
theorem exists_visit_checkPath (hdump : s.dump = false) (htrace : s.trace = false)
    (disk : String → Volume) (path : String) (last : Nat) :
    ∃ visit : Visit, visit.path = path ∧ visit.Faithful disk ∧
      (checkPath s disk path last).chunks = visit.chunks s ∧
      (checkPath s disk path last).failed = visit.reports.any Report.isFailure := by
  have hload := Library.reportable_load (disk (Path.locate path).1) (Path.locate path).2 last
  simp only [checkPath]
  generalize hr : (Library.startFrom last).load (disk (Path.locate path).1) (Path.locate path).2 = r
    at hload
  obtain ⟨loaded, library⟩ := r
  have hloads := congrArg Prod.fst hr.symm
  cases hload with
  | complete hfiles =>
    obtain ⟨reports, h⟩ := reported_checkFiles hdump htrace (Path.locate path).1 hfiles
    exact ⟨⟨path, _, reports⟩, rfl, ⟨⟨last, hloads⟩, .loaded rfl h.judged⟩, h.chunks, h.failed⟩
  | @unparsed files f e hfiles hf =>
    obtain ⟨reports, h⟩ := reported_checkFiles hdump htrace (Path.locate path).1 hfiles
    refine ⟨⟨path, _, reports ++ [.unparsed f e]⟩, rfl,
      ⟨⟨last, hloads⟩, .unparsed rfl hf rfl h.judged⟩, ?_, ?_⟩
    · simp [Visit.chunks, checkFiles_append_of_none hf, h.chunks, reportError_of_none hf]
    · simp [Report.isFailure]
  | @unloaded files e hfiles =>
    obtain ⟨reports, h⟩ := reported_checkFiles hdump htrace (Path.locate path).1 hfiles
    refine ⟨⟨path, _, reports ++ [.unloaded e]⟩, rfl,
      ⟨⟨last, hloads⟩, .unloaded rfl h.judged⟩, ?_, ?_⟩
    · simp [Visit.chunks, h.chunks, reportError_of_ready hfiles]
    · simp [Report.isFailure]

/-- Paths are visited one by one, whatever was found in those before. -/
theorem exists_visits_checkPaths (hdump : s.dump = false) (htrace : s.trace = false)
    (disk : String → Volume) (paths : List String) (last : Nat) :
    ∃ visits : List Visit, visits.map Visit.path = paths ∧ (∀ visit ∈ visits, visit.Faithful disk) ∧
      (checkPaths s disk paths last).chunks = visits.flatMap (Visit.chunks s) ∧
      (checkPaths s disk paths last).failed =
        visits.any fun visit => visit.reports.any Report.isFailure := by
  induction paths generalizing last with
  | nil => exact ⟨[], rfl, by simp, rfl, rfl⟩
  | cons path paths ih =>
    obtain ⟨visit, hpath, hvisit, hchunks, hfailed⟩ :=
      exists_visit_checkPath hdump htrace disk path last
    obtain ⟨visits, hpaths, hvisits, hchunks', hfailed'⟩ := ih (checkPath s disk path last).last
    refine ⟨visit :: visits, by simp [hpath, hpaths], List.forall_mem_cons.2 ⟨hvisit, hvisits⟩, ?_, ?_⟩
    · simp [checkPaths, hchunks, hchunks']
    · simp [checkPaths, hfailed, hfailed']

end FileCheck

/-! ## The command -/

namespace Command

open FileCheck

/-- What checking paths comes to: every path is visited in order, all that is printed are the reports
that are due, and the status tells whether a path could not be loaded or a program was rejected. -/
structure Accounted (s : Settings) (disk : String → Volume) (paths : List String)
    (visits : List Visit) (o : Outcome) : Prop where
  paths : visits.map Visit.path = paths
  faithful : ∀ visit ∈ visits, visit.Faithful disk
  chunks : o.chunks = visits.flatMap (Visit.chunks s)
  failure : o.status = 1 ↔
    ∃ visit ∈ visits, visit.loaded.error?.isSome ∨ ∃ f ∈ visit.loaded.files, f.Rejected
  success : o.status = 0 ↔
    ∀ visit ∈ visits, visit.loaded.error? = none ∧ ∀ f ∈ visit.loaded.files, f.Accepted

/-- Without listings and traces, the command to check paths reports every file that was loaded exactly
once, in order: the type of one that is accepted on the output, and a diagnostic of one that is rejected
or does not parse on the log. Any other load error is one line on the log. No failure keeps later files
or paths from being reported, and the status is one exactly when something failed, and else zero. -/
theorem run_check_accounted {w : Surroundings} {args paths : List String} {fs : Flags} {s : Settings}
    (hargs : Flags.parse Flag.common args = .ok (fs, paths)) (hs : fs.settings w.disk = .ok s)
    (hdump : s.dump = false) (htrace : s.trace = false) :
    ∃ visits, Accounted s w.disk (pathsOf s paths) visits (run w (ofArgs ("check" :: args))) := by
  obtain ⟨visits, hpaths, hvisits, hchunks, hfailed⟩ :=
    exists_visits_checkPaths hdump htrace w.disk (pathsOf s paths) 0
  have hrun : run w (ofArgs ("check" :: args)) = runCheck w paths s := by
    simp [ofArgs, withFlags, hargs, run, underSettings, hs]
  have hiff : (checkPaths s w.disk (pathsOf s paths) 0).failed = true ↔
      ∃ visit ∈ visits, visit.loaded.error?.isSome ∨ ∃ f ∈ visit.loaded.files, f.Rejected := by
    rw [hfailed, List.any_eq_true]
    refine exists_congr fun visit => and_congr_right fun hmem => ?_
    exact (hvisits visit hmem).accounts.any_isFailure
  rw [hrun]
  refine ⟨visits, hpaths, hvisits, hchunks, ?_, ?_⟩
  · rw [← hiff]
    simp [runCheck, Outcome.printed]
  · have hstatus : (runCheck w paths s).status = 0 ↔
        (checkPaths s w.disk (pathsOf s paths) 0).failed = false := by
      simp [runCheck, Outcome.printed]
    rw [hstatus]
    constructor
    · intro h visit hmem
      rw [hfailed, List.any_eq_false] at h
      exact (hvisits visit hmem).accounts.accepted (by simpa using h visit hmem)
    · intro h
      -- A visit that failed would have an error or a rejected program, and it has neither.
      rw [← Bool.not_eq_true, hiff]
      rintro ⟨visit, hmem, herror | ⟨f, hf, hrejected⟩⟩
      · simp [(h visit hmem).1] at herror
      · exact ((h visit hmem).2 f hf).not_rejected hrejected

/-- A directory with a file that is accepted, one that is rejected, one that does not parse and one
after it, and a path with nothing there: a type on the output, two diagnostics and a line on the log. -/
theorem run_check_accounted_allFailures :
    let t : FileTree := .ofFiles [("p/a.l5", "(+ 1 2)"), ("p/b.l5", "(+ 1 #t)"), ("p/c.l5", "(f"),
      ("p/d.l5", "3")]
    let w : Surroundings := ⟨t.diskAt, "", fun _ => none, ""⟩
    let o := run w (ofArgs ["check", "p", "q.l5"])
    Flags.parse Flag.common ["p", "q.l5"] = .ok (.none, ["p", "q.l5"]) ∧
      Flags.settings .none w.disk = .ok .defaults ∧
      Settings.defaults.dump = false ∧ Settings.defaults.trace = false ∧
      (∃ visits, Accounted .defaults w.disk ["p", "q.l5"] visits o) ∧
      o.status = 1 ∧ o.chunks = [.out "p/a.l5: number\n",
        .err ("type mismatch in p/b.l5 at 1:6: type mismatch: expected number, got boolean in #t\n\n"
          ++ "   1 | (+ 1 #t)\n     |      ^^\n\n"),
        .err "syntax error in p/c.l5 at 1:1: unclosed '('\n\n   1 | (f\n     | ^\n\n",
        .err "l5: stat q.l5: no such file or directory\n"] := by
  intro t w o
  have hargs : Flags.parse Flag.common ["p", "q.l5"] = .ok (.none, ["p", "q.l5"]) := by decide +kernel
  have hs : Flags.settings .none w.disk = .ok .defaults := by decide +kernel
  refine ⟨hargs, hs, rfl, rfl, run_check_accounted hargs hs rfl rfl, ?_⟩
  -- The listing is sorted first, since sorting is all that the kernel does not compute by itself.
  have hsources : Library.sourcesIn "p" (t.entries "p") =
      ["p/a.l5", "p/b.l5", "p/c.l5", "p/d.l5"] :=
    Library.sourcesIn_eq_of_perm (by decide)
      ((((List.mergeSort_perm _ _).filter _).map _).trans (by decide +kernel))
  have hdir : (t.diskAt ".").isDirectory "p" = .ok true := by decide +kernel
  have hlist : (t.diskAt ".").list "p" = .ok (t.entries "p") := rfl
  have hload : (Library.startFrom 0).load (t.diskAt ".") "p" =
      Library.loadFiles (t.diskAt ".") ["p/a.l5", "p/b.l5", "p/c.l5", "p/d.l5"]
        (Library.startFrom 0) := by
    simp only [Library.load, hdir, Library.loadDirectory, hlist, hsources]
  have hlocate : Path.locate "p" = (".", "p") := by decide +kernel
  have hpaths : pathsOf .defaults ["p", "q.l5"] = ["p", "q.l5"] := rfl
  have hrun : o = runCheck w ["p", "q.l5"] .defaults := by
    simp only [o, ofArgs, withFlags, hargs, run, underSettings, hs]
  rw [hrun]
  simp only [runCheck, hpaths, checkPaths, checkPath, hlocate, w, hload]
  constructor
  · decide +kernel
  · decide +kernel

end Command

end TypedScheme
