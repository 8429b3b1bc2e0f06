import GoWeave.Proofs.Command.FileSystem
import GoWeave.Proofs.Command.Trees

/-!
# Runs that fail

A run can fail at every stage, and what it has done by then stays. Up to the merge it has written
nothing but the log, the report follows, and the output comes last, after which nothing can fail.
So a failure leaves the output alone, unless the report or the log is at the same place. Checking
writes no output at all.
-/
namespace GoWeave.Command

open FileView (locate text? Apart ChangesOnly)

variable {α σ π : Type} [Workspace (StateM σ)] {disk disk' : σ} {logVariable : Option String}
  {inv : Invocation} {args : MergeArgs} {log : Log}

/-- Whether a run failed with nothing written but the log: in loading the settings, in starting the
log, in resolving, reading or parsing the units, or in merging them. -/
def RunError.isEarly : RunError → Bool
  | settingsUnreadable .. => true
  | settingsInvalid _ => true
  | logFilter _ => true
  | logDirNotMade _ => true
  | logNotOpened .. => true
  | units _ => true
  | unitUnreadable .. => true
  | unitInvalid .. => true
  | merge _ => true
  | _ => false

/-- Where the log of a run goes, if it has one. -/
def logOf (inv : Invocation) (args : MergeArgs) (disk : σ) : Option String :=
  (loaded? args disk).bind (logFile? inv)

/-- Where the report on a run goes, if there is one. -/
def reportOf (args : MergeArgs) (disk : σ) : Option String :=
  (loaded? args disk).bind (·.report)

/-- Where the output of a run goes, unless it is shown. -/
def outputOf (args : MergeArgs) (disk : σ) : Option String :=
  (loaded? args disk).bind (·.output)

/-- A run of either command fails before it does its work, with the log as the only thing written,
or goes on with the settings and the log. -/
theorem cases_of_started {work : Settings → Log → ExceptT RunError (StateM σ) α}
    {r : Except RunError α}
    (h : exec (do
      let s ← loadSettings args
      let log ← startLog logVariable inv s
      work s log) disk = (r, disk')) :
    Grows (logOf inv args disk).toList disk disk' ∨
      ∃ s log mid, logOf inv args disk = log.file ∧ reportOf args disk = s.report ∧
        Grows log.file.toList disk mid ∧ exec (work s log) mid = (r, disk') := by
  rcases (only_loadSettings args).cases_bind h with hload | ⟨s, d₁, hsettings, hload, h⟩
  · exact .inl (hload.mono (List.nil_subset _))
  have hloaded : loaded? args disk = some s := by rw [loaded?, hsettings]; rfl
  have hlogOf : logOf inv args disk = logFile? inv s := by rw [logOf, hloaded]; rfl
  have hreportOf : reportOf args disk = s.report := by rw [reportOf, hloaded]; rfl
  have hload := hload.mono (List.nil_subset (logFile? inv s).toList)
  rw [hlogOf]
  rcases (only_startLog logVariable inv s).cases_bind h with hstart | ⟨log, d₂, hlog, hstart, h⟩
  · exact .inl (hload.trans hstart)
  · have hfile := (exec_startLog_eq_ok.1 hlog).2.1
    refine .inr ⟨s, log, d₂, hfile.symm, hreportOf, ?_, h⟩
    rw [hfile]
    exact hload.trans hstart

/-- Once the units are merged, a failure has to do with the output, which is then as it was. -/
theorem grows_of_output_error {path text : String} {reply : Reply} {e : RunError}
    (h : exec (do
      orFail .system (Workspace.createDirs (Path.parent path))
      orFail (.outputNotWritten path) (Workspace.write path text)
      log.write [⟨.info, programOrigin, "wrote merged file " ++ path⟩]
      pure reply) disk = (.error e, disk')) :
    e.isEarly = false ∧ Grows [] disk disk' := by
  have hmake : Only [] (orFail .system (Workspace.createDirs (Path.parent path)) :
      ExceptT RunError (StateM σ) Unit) := .orFail fun _ => .createDirs .refl _
  rcases cases_of_exec_bind h with ⟨_, da, hmade, h⟩ | ⟨e', hmade, he⟩
  · rcases cases_of_exec_bind h with ⟨_, db, -, h⟩ | ⟨e', hwrite, he⟩
    · obtain ⟨dc, hlog⟩ := log.exists_exec_write
        [⟨.info, programOrigin, "wrote merged file " ++ path⟩] db
      rw [exec_bind_of_ok hlog] at h
      cases h
    · cases he
      obtain ⟨cause, rfl, -⟩ := exists_of_orFail_error hwrite
      exact ⟨rfl, (hmake.grows hmade).trans (grows_of_write_error hwrite)⟩
  · cases he
    obtain ⟨cause, rfl, -⟩ := exists_of_orFail_error hmade
    exact ⟨rfl, hmake.grows hmade⟩

/-- A command that fails early has written to the log only, and one that fails later to the log and
to the report. -/
theorem grows_of_failed_merge {e : RunError}
    (h : exec (merge logVariable inv args) disk = (.error e, disk')) :
    Grows (logOf inv args disk).toList disk disk' ∨
      e.isEarly = false ∧
        Grows ((logOf inv args disk).toList ++ (reportOf args disk).toList) disk disk' := by
  unfold merge at h
  rcases cases_of_started h with hstart | ⟨s, log, d₁, hlogOf, hreportOf, hstart, h⟩
  · exact .inl hstart
  rw [hlogOf, hreportOf]
  rcases cases_of_exec_bind h with ⟨merger, d₂, hmerger, h⟩ | ⟨e', hmerger, -⟩
  · have hmerged := (only_runMerge log s args).grows hmerger
    dsimp only at h
    cases houtput : s.output with
    | none =>
      rw [houtput] at h
      cases h
    | some path =>
      rw [houtput] at h
      obtain ⟨hlate, hkept⟩ := grows_of_output_error h
      refine .inr ⟨hlate, ((hstart.mono (List.subset_append_left _ _)).trans hmerged).trans ?_⟩
      exact hkept.mono (List.nil_subset _)
  · rcases grows_of_runMerge hmerger with hmerged | ⟨⟨merger, hok⟩, -⟩
    · exact .inl (hstart.trans hmerged)
    · cases hok

theorem grows_of_check {r : Except RunError Reply}
    (h : exec (check logVariable inv args) disk = (r, disk')) :
    Grows ((logOf inv args disk).toList ++ (reportOf args disk).toList) disk disk' := by
  unfold check at h
  rcases cases_of_started h with hstart | ⟨s, log, d₁, hlogOf, hreportOf, hstart, h⟩
  · exact hstart.mono (List.subset_append_left _ _)
  rw [hlogOf, hreportOf]
  apply (hstart.mono (List.subset_append_left _ s.report.toList)).trans
  cases houtput : s.output with
  | none =>
    rw [houtput] at h
    cases h
    exact .refl
  | some path =>
    rw [houtput] at h
    dsimp only at h
    rcases (only_runMerge log s args).cases_bind h with hmerge | ⟨merger, d₂, -, hmerge, h⟩
    · exact hmerge
    have hlift : Only (log.file.toList ++ s.report.toList)
        (ExceptT.lift (Workspace.read path) : ExceptT RunError (StateM σ) _) :=
      .lift fun _ => .read .refl path
    rcases hlift.cases_bind h with hread | ⟨found, d₃, -, hread, h⟩
    · exact hmerge.trans hread
    -- What is found is only compared.
    apply (hmerge.trans hread).trans
    cases found with
    | error e =>
      dsimp only at h
      split at h <;> cases h <;> exact .refl
    | ok existing =>
      dsimp only at h
      split at h <;> cases h <;> exact .refl

/-- A merge that fails early changes no file but the log, and one that fails later none but the log
and the report. The output keeps its text if neither of them is where it is. A check changes no file
but the log and the report, however it ends. -/
theorem failed_run_keeps_files [FileSystem σ π] {argv : List String} {outcome : Outcome}
    (hargv : Invocation.parse argv = .ok inv)
    (hrun : perform (runArguments logVariable argv) disk = (outcome, disk')) :
    (∀ args e, inv.task = .merge args → outcome = .failed e →
      (e.isEarly → ChangesOnly (logOf inv args disk).toList disk disk') ∧
      ChangesOnly ((logOf inv args disk).toList ++ (reportOf args disk).toList) disk disk' ∧
      ∀ output, outputOf args disk = some output →
        (∀ p ∈ (logOf inv args disk).toList ++ (reportOf args disk).toList,
          Apart disk' p output) →
        ∀ place, locate disk' output = some place → text? disk' place = text? disk place) ∧
    ∀ args, inv.task = .check args →
      ChangesOnly ((logOf inv args disk).toList ++ (reportOf args disk).toList) disk disk' := by
  rw [perform_runArguments hargv] at hrun
  rcases hended : exec (run logVariable inv) disk with ⟨r, last⟩
  rw [hended] at hrun
  constructor
  · rintro args e htask rfl
    cases r with
    | ok reply => cases hrun
    | error e =>
      cases hrun
      simp only [run, htask] at hended
      have hgrows : Grows ((logOf inv args disk).toList ++ (reportOf args disk).toList) disk
          last := by
        rcases grows_of_failed_merge hended with hlog | ⟨-, hreport⟩
        · exact hlog.mono (List.subset_append_left _ _)
        · exact hreport
      refine ⟨?_, hgrows.changesOnly, ?_⟩
      · intro hearly
        rcases grows_of_failed_merge hended with hlog | ⟨hlate, -⟩
        · exact hlog.changesOnly
        · rw [hlate] at hearly
          cases hearly
      · intro output _ hapart place hplace
        exact hgrows.changesOnly.text?_eq hapart hplace
  · intro args htask
    simp only [run, htask] at hended
    have hgrows := grows_of_check hended
    cases hrun
    exact hgrows.changesOnly

/-- With an output that must not be written, the report is written and the output keeps its text,
also behind a link. With a unit that is missing, only the log is there, and with a log that cannot
be opened there is nothing new. -/
theorem failed_run_keeps_files_guarded :
    let disk : GuardedTree := ⟨⟨[(["a.go"], .file "package a\n"), (["out"], .dir),
      (["out", "m.go"], .file "old"), (["r.json"], .file "old"), (["full"], .dir),
      (["full", "srcmerge.log"], .dir)]⟩, [["out", "m.go"]], [("m.go", "out/m.go")]⟩
    let argv (unit dir : String) := ["merge", "-f", unit, "-r", "A", "-o", "m.go", "--report",
      "r.json", "--log-dir", dir]
    let late := perform (runArguments none (argv "a.go" "log")) disk
    let early := perform (runArguments (some "off") (argv "b.go" "log")) disk
    let unlogged := perform (runArguments none (argv "a.go" "full")) disk
    (late.1 = .failed (.outputNotWritten "m.go" ⟨13, "Permission denied"⟩) ∧
      text? late.2 ["r.json"] = some "[]" ∧
      text? late.2 ["out", "m.go"] = text? disk ["out", "m.go"]) ∧
    (early.1 = .failed (.unitUnreadable "b.go" .notFound) ∧
      text? early.2 ["log", "srcmerge.log"] = some "" ∧
      ChangesOnly ["log/srcmerge.log"] disk early.2) ∧
    unlogged.1 = .failed (.logNotOpened "full/srcmerge.log" .isDirectory) ∧
      unlogged.1.exit = 101 ∧ ChangesOnly ["full/srcmerge.log"] disk unlogged.2 := by
  intro disk argv late early unlogged
  let args (unit : String) : MergeArgs := ⟨[unit], ["A"], none, some "m.go", none, some "r.json"⟩
  let inv (unit dir : String) : Invocation := ⟨.merge (args unit), none, some dir⟩
  refine ⟨?_, ?_, ?_⟩
  · obtain ⟨hfailed, hreport, hapart, hlocate⟩ :
        late.1 = .failed (.outputNotWritten "m.go" ⟨13, "Permission denied"⟩) ∧
          text? late.2 ["r.json"] = some "[]" ∧
          (∀ p ∈ ["log/srcmerge.log", "r.json"], Apart late.2 p "m.go") ∧
          locate late.2 "m.go" = some ["out", "m.go"] := by
      decide +kernel
    have hargv : Invocation.parse (argv "a.go" "log") = .ok (inv "a.go" "log") := by
      decide +kernel
    have hlog : logOf (inv "a.go" "log") (args "a.go") disk = some "log/srcmerge.log" := by
      decide +kernel
    have hlate : perform (runArguments none (argv "a.go" "log")) disk = late := rfl
    clear_value late
    obtain ⟨outcome, disk'⟩ := late
    have hkept := (failed_run_keeps_files hargv hlate).1 (args "a.go") _ rfl hfailed
    rw [hlog] at hkept
    exact ⟨hfailed, hreport, hkept.2.2 "m.go" rfl hapart _ hlocate⟩
  · obtain ⟨hfailed, htext⟩ : early.1 = .failed (.unitUnreadable "b.go" .notFound) ∧
        text? early.2 ["log", "srcmerge.log"] = some "" := by
      decide +kernel
    have hargv : Invocation.parse (argv "b.go" "log") = .ok (inv "b.go" "log") := by
      decide +kernel
    have hlog : logOf (inv "b.go" "log") (args "b.go") disk = some "log/srcmerge.log" := by
      decide +kernel
    have hearly : perform (runArguments (some "off") (argv "b.go" "log")) disk = early := rfl
    clear_value early
    obtain ⟨outcome, disk'⟩ := early
    have hkept := (failed_run_keeps_files hargv hearly).1 (args "b.go") _ rfl hfailed
    rw [hlog] at hkept
    exact ⟨hfailed, htext, hkept.1 rfl⟩
  · have hfailed : unlogged.1 = .failed (.logNotOpened "full/srcmerge.log" .isDirectory) := by
      decide +kernel
    have hargv : Invocation.parse (argv "a.go" "full") = .ok (inv "a.go" "full") := by
      decide +kernel
    have hlog : logOf (inv "a.go" "full") (args "a.go") disk = some "full/srcmerge.log" := by
      decide +kernel
    have hunlogged : perform (runArguments none (argv "a.go" "full")) disk = unlogged := rfl
    clear_value unlogged
    obtain ⟨outcome, disk'⟩ := unlogged
    have hkept := (failed_run_keeps_files hargv hunlogged).1 (args "a.go") _ rfl hfailed
    rw [hlog] at hkept
    exact ⟨hfailed, congrArg Outcome.exit hfailed, hkept.1 rfl⟩

/-- A log at the place of the output goes into it, also if the run fails after the merge, for
instance because the report is to be where a directory is. What the output was before could be
merged, and what it is now cannot. -/
theorem exists_output_changed_by_log :
    let disk : FileTree := ⟨[(["a.go"], .file "package a\n"),
      (["srcmerge.log"], .file "package old\n"), (["r"], .dir)]⟩
    let argv := ["merge", "-f", "a.go", "-r", "A", "-o", "srcmerge.log", "--report", "r",
      "--log-dir", "."]
    let again := ["merge", "-f", "srcmerge.log", "-r", "B"]
    let ended := perform (runArguments none argv) disk
    ended.1 = .failed (.reportNotWritten "r" .isDirectory) ∧
      locate ended.2 "r" = some ["r"] ∧ locate ended.2 "srcmerge.log" = some ["srcmerge.log"] ∧
      text? ended.2 ["srcmerge.log"] ≠ text? disk ["srcmerge.log"] ∧
      (perform (runArguments none again) disk).1 = .replied ⟨0, "package merged\n"⟩ ∧
      (perform (runArguments none again) ended.2).1 =
        .failed (.unitInvalid "srcmerge.log" .syntaxError) := by
  decide +kernel

end GoWeave.Command
