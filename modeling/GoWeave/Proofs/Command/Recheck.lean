import GoWeave.Proofs.Command.FileSystem
import GoWeave.Proofs.Command.Trees

/-!
# Checking what was merged

A merge that writes its output and a check after it go through the same stages: they load the
settings, start the log, read the units, merge them and write the report. In a steady file system
each stage that succeeds is shown to succeed again, with the same result, on any later disk on which
the files it reads are still the same. What the first run writes is apart from what it reads, so the
second run gets the text that the output holds by then. The report is written once more with the
text it has, and only the log grows.
-/
namespace GoWeave.Command

open FileView (Apart Keeps)

variable {σ π : Type} [Workspace (StateM σ)] [SteadyFileSystem σ π]
  {disk disk' disk₁ disk₂ : σ} {paths : List String}
  {logVariable : Option String} {inv : Invocation} {s : Settings} {args : MergeArgs} {log : Log}

/-! ## Stages that succeed again -/

/-- What was read once reads the same where nothing was written to it. -/
theorem exec_read_again {fail : SystemError → RunError} {path text : String}
    (h : exec (orFail fail (Workspace.read path)) disk = (.ok text, disk₁))
    (hgrows : Grows paths disk disk₂) (hapart : ∀ p ∈ paths, Apart disk₂ p path) :
    ∃ disk₃, exec (orFail fail (Workspace.read path)) disk₂ = (.ok text, disk₃) ∧
      Keeps [] disk₂ disk₃ := by
  have hread := congrArg Prod.fst (exec_orFail_eq_ok.1 h)
  have hread₂ := hgrows.read_eq hread hapart
  exact ⟨_, exec_orFail_eq_ok.2 (Prod.ext hread₂ rfl), FileSystem.keeps_read path disk₂⟩

/-- Settings that were loaded once load again where nothing was written to their file. -/
theorem loadSettings_again (h : exec (loadSettings args) disk = (.ok s, disk₁))
    (hgrows : Grows paths disk disk₂)
    (hapart : ∀ config ∈ args.config.toList, ∀ path ∈ paths, Apart disk₂ path config) :
    ∃ disk₃, exec (loadSettings args) disk₂ = (.ok s, disk₃) ∧ Keeps [] disk₂ disk₃ := by
  unfold loadSettings at *
  cases hconfig : args.config with
  | none =>
    rw [hconfig] at h
    cases h
    exact ⟨disk₂, rfl, .refl [] disk₂⟩
  | some config =>
    rw [hconfig] at h hapart
    obtain ⟨text, mid, hexec, hrest⟩ := exec_bind_eq_ok.1 h
    obtain ⟨disk₃, hexec₃, hkeeps₃⟩ := exec_read_again hexec hgrows (hapart config (by simp))
    refine ⟨disk₃, ?_, hkeeps₃⟩
    dsimp only
    rw [exec_bind_of_ok hexec₃]
    cases hload : Settings.load? text with
    | none =>
      rw [hload] at hrest
      cases hrest
    | some loaded =>
      rw [hload] at hrest
      cases hrest
      rfl

/-- A log that was started once starts again. -/
theorem startLog_again (h : exec (startLog logVariable inv s) disk = (.ok log, disk₁))
    (hgrows : Grows paths disk₁ disk₂) :
    ∃ disk₃, exec (startLog logVariable inv s) disk₂ = (.ok log, disk₃) ∧
      Keeps log.file.toList disk₂ disk₃ := by
  obtain ⟨hfilter, hfile, ⟨hnone, -⟩ | ⟨dir, mid, hdir, hmake, hopen⟩⟩ := exec_startLog_eq_ok.1 h
  · exact ⟨disk₂, exec_startLog_eq_ok.2 ⟨hfilter, hfile, .inl ⟨hnone, rfl⟩⟩, .refl _ disk₂⟩
  · have hlogFile : log.file = some (Path.join dir logFileName) := by
      rw [hfile, logFile?, hdir]
      rfl
    have hmid : Grows (Path.join dir logFileName :: paths)
        (perform (Workspace.createDirs dir) disk).2 disk₂ := by
      rw [hmake]
      refine Grows.trans ?_ (hgrows.mono (List.subset_cons_self _ _))
      have hopened : Grows (Path.join dir logFileName :: paths) mid
          (perform (Workspace.append (Path.join dir logFileName) "") mid).2 :=
        .append .refl List.mem_cons_self ""
      rwa [hopen] at hopened
    obtain ⟨hmake₂, hkeeps₂⟩ :=
      SteadyFileSystem.createDirs_again (congrArg Prod.fst hmake) hmid
    have hlater : Grows paths (perform (Workspace.append (Path.join dir logFileName) "") mid).2
        (perform (Workspace.createDirs dir) disk₂).2 := by
      rw [hopen]
      exact hgrows.createDirs dir
    have hopen₃ := SteadyFileSystem.append_again (congrArg Prod.fst hopen) hlater
    refine ⟨_, exec_startLog_eq_ok.2 ⟨hfilter, hfile,
      .inr ⟨dir, _, hdir, Prod.ext hmake₂ rfl, Prod.ext hopen₃ rfl⟩⟩, ?_⟩
    rw [hlogFile]
    exact (hkeeps₂.mono (List.nil_subset _)).trans (FileSystem.keeps_append _ "" _)

/-- A unit that was read once reads the same where nothing was written to its file. -/
theorem readUnit_again {u : UnitSource} {unit : SourceFile × String}
    (h : exec (readUnit log u) disk = (.ok unit, disk₁)) (hgrows : Grows paths disk disk₂)
    (hapart : ∀ path ∈ paths, Apart disk₂ path u.path) :
    ∃ disk₃, exec (readUnit log u) disk₂ = (.ok unit, disk₃) ∧
      Keeps log.file.toList disk₂ disk₃ := by
  unfold readUnit at *
  obtain ⟨text, mid, hexec, hrest⟩ := exec_bind_eq_ok.1 h
  obtain ⟨disk₃, hexec₃, hkeeps₃⟩ := exec_read_again hexec hgrows hapart
  rw [exec_bind_of_ok hexec₃]
  cases hparse : SourceFile.parse text with
  | error e =>
    rw [hparse] at hrest
    cases hrest
  | ok file =>
    rw [hparse] at hrest
    obtain ⟨_, _, -, hpure⟩ := exec_bind_eq_ok.1 hrest
    cases hpure
    obtain ⟨disk₄, hwrite₄⟩ := log.exists_exec_write
      [⟨.debug, programOrigin, "parsed unit " ++ u.path⟩] disk₃
    refine ⟨disk₄, ?_, (hkeeps₃.mono (List.nil_subset _)).trans (log.keeps_of_exec_write hwrite₄)⟩
    dsimp only
    rw [exec_bind_of_ok hwrite₄]
    rfl

theorem readUnits_again {sources : List UnitSource} {units : List (SourceFile × String)}
    (h : exec (sources.mapM (readUnit log)) disk = (.ok units, disk₁))
    (hlog : log.file.toList ⊆ paths) (hgrows : Grows paths disk₁ disk₂)
    (hapart : ∀ u ∈ sources, ∀ path ∈ paths, Apart disk₂ path u.path) :
    ∃ disk₃, exec (sources.mapM (readUnit log)) disk₂ = (.ok units, disk₃) ∧
      Keeps log.file.toList disk₂ disk₃ := by
  induction sources generalizing disk disk₂ units with
  | nil =>
    cases h
    exact ⟨disk₂, rfl, .refl _ disk₂⟩
  | cons u sources ih =>
    have hfirst := ((Only.mapM (only_readUnit log) (u :: sources)).grows h).mono hlog
    rw [List.mapM_cons] at h ⊢
    obtain ⟨unit, mid, hunit, hmore⟩ := exec_bind_eq_ok.1 h
    obtain ⟨rest, last, hrest, hpure⟩ := exec_bind_eq_ok.1 hmore
    cases hpure
    obtain ⟨hhead, htail⟩ := List.forall_mem_cons.1 hapart
    -- What the log has got since the unit was read does not matter either.
    obtain ⟨disk₃, hunit₃, hkeeps₃⟩ := readUnit_again hunit (hfirst.trans hgrows) hhead
    have hgrows₃ := hgrows.trans (((only_readUnit log u).grows hunit₃).mono hlog)
    obtain ⟨disk₄, hrest₄, hkeeps₄⟩ := ih hrest hgrows₃
      fun v hv path hpath => hkeeps₃.apart (htail v hv path hpath)
    refine ⟨disk₄, ?_, hkeeps₃.trans hkeeps₄⟩
    rw [exec_bind_of_ok hunit₃, exec_bind_of_ok hrest₄]
    rfl

/-! ## Merging -/

section

omit [SteadyFileSystem σ π]

/-- The last part of a merge, which writes the report on it. -/
def writeReport (s : Settings) (merger : Merger) : ExceptT RunError (StateM σ) Merger :=
  match s.report with
  | none => pure merger
  | some path => do
    orFail (.reportNotWritten path) (Workspace.write path (Decision.report merger.decisions))
    pure merger

theorem only_writeReport (s : Settings) (merger : Merger) :
    Only s.report.toList (writeReport s merger : ExceptT RunError (StateM σ) Merger) := by
  unfold writeReport
  cases s.report with
  | none => exact .pure _ _
  | some path =>
    exact .bind (.orFail fun _ => .write .refl List.mem_cons_self _) fun _ => .pure _ _

theorem exec_writeReport_eq_ok {merged merger : Merger} :
    exec (writeReport s merged) disk = (.ok merger, disk') ↔
      merger = merged ∧ (s.report = none ∧ disk' = disk ∨
        ∃ path, s.report = some path ∧
          perform (Workspace.write path (Decision.report merged.decisions)) disk =
            (.ok (), disk')) := by
  unfold writeReport
  cases s.report with
  | none =>
    dsimp only
    rw [exec_pure]
    simp [eq_comm]
  | some path =>
    dsimp only
    rw [exec_bind_eq_ok]
    constructor
    · rintro ⟨_, mid, hwrite, hpure⟩
      cases hpure
      exact ⟨rfl, .inr ⟨path, rfl, exec_orFail_eq_ok.1 hwrite⟩⟩
    · rintro ⟨rfl, ⟨hnone, -⟩ | ⟨path', hsome, hwrite⟩⟩
      · cases hnone
      · cases hsome
        exact ⟨(), disk', exec_orFail_eq_ok.2 hwrite, rfl⟩

/-- The stages of a merge that succeeds. -/
theorem exec_runMerge_eq_ok {merger : Merger} :
    exec (runMerge log s args) disk = (.ok merger, disk') ↔
      ∃ sources units da db dc, s.resolveUnits args.files args.tags = .ok sources ∧
        exec (sources.mapM (readUnit log)) disk = (.ok units, da) ∧
        mergeAll s.package units = (merger, none) ∧
        exec (log.write (merger.decisions.flatMap decisionNotices)) da = (.ok (), db) ∧
        exec (log.write [⟨.info, engineOrigin, "merge finished"⟩,
          ⟨.info, programOrigin, s!"merged {units.length} units into package {s.package}"⟩]) db =
            (.ok (), dc) ∧
        exec (writeReport s merger) dc = (.ok merger, disk') := by
  unfold runMerge
  cases hsources : s.resolveUnits args.files args.tags with
  | error e => simp [exec_throw]
  | ok sources =>
    dsimp only
    constructor
    · intro h
      obtain ⟨units, da, hunits, hrest⟩ := exec_bind_eq_ok.1 h
      rcases hmerge : mergeAll s.package units with ⟨merged, failure⟩
      rw [hmerge] at hrest
      obtain ⟨_, db, hwrite, hrest⟩ := exec_bind_eq_ok.1 hrest
      cases failure with
      | some e => cases hrest
      | none =>
        obtain ⟨_, dc, hwrite', hrest⟩ := exec_bind_eq_ok.1 hrest
        have hreport : exec (writeReport s merged) dc = (.ok merger, disk') := hrest
        obtain ⟨rfl, -⟩ := exec_writeReport_eq_ok.1 hreport
        exact ⟨sources, units, da, db, dc, rfl, hunits, hmerge, hwrite, hwrite', hreport⟩
    · rintro ⟨sources', units, da, db, dc, heq, hunits, hmerge, hwrite, hwrite', hreport⟩
      cases heq
      rw [exec_bind_of_ok hunits, hmerge]
      dsimp only
      rw [exec_bind_of_ok hwrite, exec_bind_of_ok hwrite']
      exact hreport

end

/-- A report that was written, and is as it was written, stays so if it is written again. -/
theorem writeReport_again {merged merger : Merger}
    (h : exec (writeReport s merged) disk = (.ok merger, disk₁)) (hgrows : Grows paths disk₁ disk₂)
    (hapart : ∀ report ∈ s.report.toList, ∀ path ∈ paths, Apart disk₂ path report) :
    ∃ disk₃, exec (writeReport s merged) disk₂ = (.ok merger, disk₃) ∧ Keeps [] disk₂ disk₃ := by
  obtain ⟨rfl, ⟨hnone, rfl⟩ | ⟨path, hsome, hwrite⟩⟩ := exec_writeReport_eq_ok.1 h
  · exact ⟨disk₂, exec_writeReport_eq_ok.2 ⟨rfl, .inl ⟨hnone, rfl⟩⟩, .refl [] disk₂⟩
  · have hwritten := SteadyFileSystem.read_written (congrArg Prod.fst hwrite)
    rw [hwrite] at hwritten
    have hread := hgrows.read_eq hwritten (hapart path (by simp [hsome]))
    obtain ⟨disk₃, hwrite₃, hkeeps₃⟩ := hgrows.rewrite hwrite hread
    exact ⟨disk₃, exec_writeReport_eq_ok.2 ⟨rfl, .inr ⟨path, hsome, hwrite₃⟩⟩, hkeeps₃⟩

/-- A merge that succeeded once succeeds with the same result on a later disk, and changes nothing
there but the log, if what was written since is apart from the report, and both from the units. -/
theorem runMerge_again {sources : List UnitSource} {merger : Merger}
    (hsources : s.resolveUnits args.files args.tags = .ok sources)
    (h : exec (runMerge log s args) disk = (.ok merger, disk₁))
    (hlog : log.file.toList ⊆ paths) (hgrows : Grows paths disk₁ disk₂)
    (hunitsApart : ∀ u ∈ sources, ∀ path ∈ s.report.toList ++ paths, Apart disk₂ path u.path)
    (hreportApart : ∀ report ∈ s.report.toList, ∀ path ∈ paths, Apart disk₂ path report) :
    ∃ disk₃, exec (runMerge log s args) disk₂ = (.ok merger, disk₃) ∧
      Keeps log.file.toList disk₂ disk₃ := by
  obtain ⟨sources', units, da, db, dc, hsources', hunits, hmerge, hwrite, hwrite', hreport⟩ :=
    exec_runMerge_eq_ok.1 h
  cases hsources.symm.trans hsources'
  have hlog' : log.file.toList ⊆ s.report.toList ++ paths :=
    List.Subset.trans hlog (List.subset_append_right _ _)
  have hsince : Grows (s.report.toList ++ paths) da disk₁ := by
    have hlogged := ((log.only_write _).grows hwrite).trans ((log.only_write _).grows hwrite')
    have hreported := (only_writeReport s merger).grows hreport
    exact (hlogged.mono hlog').trans (hreported.mono (List.subset_append_left _ _))
  obtain ⟨disk₃, hunits₃, hkeeps₃⟩ := readUnits_again hunits hlog'
    (hsince.trans (hgrows.mono (List.subset_append_right _ _))) hunitsApart
  obtain ⟨disk₄, hwrite₄⟩ := log.exists_exec_write
    (merger.decisions.flatMap decisionNotices) disk₃
  obtain ⟨disk₅, hwrite₅⟩ := log.exists_exec_write
    [⟨.info, engineOrigin, "merge finished"⟩,
      ⟨.info, programOrigin, s!"merged {units.length} units into package {s.package}"⟩] disk₄
  have hkeeps₅ := (hkeeps₃.trans (log.keeps_of_exec_write hwrite₄)).trans
    (log.keeps_of_exec_write hwrite₅)
  have hgrows₅ := ((Only.mapM (only_readUnit log) sources).grows hunits₃).trans
    (((log.only_write _).grows hwrite₄).trans ((log.only_write _).grows hwrite₅))
  obtain ⟨disk₆, hreport₆, hkeeps₆⟩ := writeReport_again hreport (hgrows.trans (hgrows₅.mono hlog))
    fun report hr path hpath => hkeeps₅.apart (hreportApart report hr path hpath)
  refine ⟨disk₆, ?_, hkeeps₅.trans (hkeeps₆.mono (List.nil_subset _))⟩
  exact exec_runMerge_eq_ok.2
    ⟨sources, units, disk₃, disk₄, disk₅, hsources, hunits₃, hmerge, hwrite₄, hwrite₅, hreport₆⟩

/-! ## Checking after a merge -/

/-- The output, the report and the log of a run are at places of their own: the output is not where
the report is, neither is where a unit or the settings are, and the log is at none of these. -/
structure Separate {σ π : Type} [FileView σ π] (disk : σ) (log report : Option String)
    (output : String) (inputs : List String) : Prop where
  apart_report : ∀ p ∈ report.toList, Apart disk output p
  apart_input : ∀ p ∈ inputs, ∀ q ∈ output :: report.toList, Apart disk q p
  log_apart : ∀ file ∈ log.toList, ∀ p ∈ output :: report.toList ++ inputs, Apart disk file p

namespace Separate

variable {σ π : Type} [FileView σ π] {disk disk' : σ} {log report : Option String}
  {output : String} {inputs : List String}

instance [DecidableEq π] (disk : σ) (log report : Option String) (output : String)
    (inputs : List String) : Decidable (Separate disk log report output inputs) :=
  decidable_of_iff ((∀ p ∈ report.toList, Apart disk output p) ∧
      (∀ p ∈ inputs, ∀ q ∈ output :: report.toList, Apart disk q p) ∧
      ∀ file ∈ log.toList, ∀ p ∈ output :: report.toList ++ inputs, Apart disk file p)
    ⟨fun h => ⟨h.1, h.2.1, h.2.2⟩, fun h => ⟨h.1, h.2, h.3⟩⟩

theorem of_keeps {paths : List String} (h : Separate disk log report output inputs)
    (hkeeps : Keeps paths disk disk') : Separate disk' log report output inputs where
  apart_report p hp := hkeeps.apart (h.apart_report p hp)
  apart_input p hp q hq := hkeeps.apart (h.apart_input p hp q hq)
  log_apart file hfile p hp := hkeeps.apart (h.log_apart file hfile p hp)

/-- Nothing that a run writes is where something that it reads is. -/
theorem written_apart (h : Separate disk log report output inputs) :
    ∀ p ∈ inputs, ∀ q ∈ report.toList ++ output :: log.toList, Apart disk q p := by
  intro p hp q hq
  rcases List.mem_append.1 hq with hq | hq
  · exact h.apart_input p hp q (List.mem_cons_of_mem _ hq)
  · rcases List.mem_cons.1 hq with rfl | hq
    · exact h.apart_input p hp q List.mem_cons_self
    · exact h.log_apart q hq p (List.mem_append_right _ hp)

theorem report_apart (h : Separate disk log report output inputs) :
    ∀ p ∈ report.toList, ∀ q ∈ output :: log.toList, Apart disk q p := by
  intro p hp q hq
  rcases List.mem_cons.1 hq with rfl | hq
  · exact h.apart_report p hp
  · exact h.log_apart q hq p (by simp [hp])

theorem output_apart (h : Separate disk log report output inputs) :
    ∀ q ∈ log.toList ++ report.toList, Apart disk q output := by
  intro q hq
  rcases List.mem_append.1 hq with hq | hq
  · exact h.log_apart q hq output (by simp)
  · exact (h.apart_report q hq).symm

end Separate

/-- A merge command that writes its output: the settings are loaded, the log is started, the units
are merged, and after that only the output and the log are written. -/
theorem exists_of_exec_merge {reply : Reply} {output : String}
    (hsettings : loaded? args disk = some s) (houtput : s.output = some output)
    (h : exec (merge logVariable inv args) disk = (.ok reply, disk')) :
    ∃ log merger da db dc, exec (loadSettings args) disk = (.ok s, da) ∧
      exec (startLog logVariable inv s) da = (.ok log, db) ∧
      exec (runMerge log s args) db = (.ok merger, dc) ∧
      Grows (output :: log.file.toList) dc disk' ∧
      ((∀ file ∈ log.file.toList, Apart disk' file output) →
        (perform (Workspace.read output) disk').1 = .ok merger.finish.render) := by
  unfold merge at h
  obtain ⟨s', da, hload, hrest⟩ := exec_bind_eq_ok.1 h
  obtain rfl : s' = s := by
    rw [loaded?, hload] at hsettings
    exact Option.some.inj hsettings
  obtain ⟨log, db, hlog, hrest⟩ := exec_bind_eq_ok.1 hrest
  obtain ⟨merger, dc, hmerger, hrest⟩ := exec_bind_eq_ok.1 hrest
  simp only [houtput] at hrest
  obtain ⟨_, dd, hmake, hrest⟩ := exec_bind_eq_ok.1 hrest
  obtain ⟨_, de, hwrite, hrest⟩ := exec_bind_eq_ok.1 hrest
  obtain ⟨_, _, hlast, hpure⟩ := exec_bind_eq_ok.1 hrest
  cases hpure
  have hlogged := (log.only_write _).grows hlast
  refine ⟨log, merger, da, db, dc, hload, hlog, hmerger, ?_, fun hapart => ?_⟩
  · have hmade : Grows (output :: log.file.toList) dc dd :=
      Only.grows (.orFail fun _ => .createDirs .refl _) hmake
    have hwritten : Grows (output :: log.file.toList) dd de :=
      Only.grows (.orFail fun _ => .write .refl List.mem_cons_self _) hwrite
    exact (hmade.trans hwritten).trans (hlogged.mono (List.subset_cons_self _ _))
  · have hwrite := exec_orFail_eq_ok.1 hwrite
    have hread := SteadyFileSystem.read_written (congrArg Prod.fst hwrite)
    rw [hwrite] at hread
    exact hlogged.read_eq hread hapart

/-- Once the output has been written as well, all stages succeed again with the same results, and
nothing but the log changes. -/
theorem stages_again {output : String} {sources : List UnitSource} {merger : Merger} {da db dc : σ}
    (hsources : s.resolveUnits args.files args.tags = .ok sources)
    (hload : exec (loadSettings args) disk = (.ok s, da))
    (hlog : exec (startLog logVariable inv s) da = (.ok log, db))
    (hmerger : exec (runMerge log s args) db = (.ok merger, dc))
    (hlater : Grows (output :: log.file.toList) dc disk')
    (hseparate : Separate disk' log.file s.report output
      (args.config.toList ++ sources.map (·.path))) :
    ∃ d₁ d₂ d₃, exec (loadSettings args) disk' = (.ok s, d₁) ∧
      exec (startLog logVariable inv s) d₁ = (.ok log, d₂) ∧
      exec (runMerge log s args) d₂ = (.ok merger, d₃) ∧ Keeps log.file.toList disk' d₃ := by
  have hfile := (exec_startLog_eq_ok.1 hlog).2.1
  let written := s.report.toList ++ output :: log.file.toList
  have hlogged : Grows written da db :=
    ((only_startLog logVariable inv s).grows hlog).mono (by simp [written, hfile])
  have hmerged : Grows written db dc :=
    ((only_runMerge log s args).grows hmerger).mono (by simp [written])
  have hafter : Grows written db disk' :=
    hmerged.trans (hlater.mono (List.subset_append_right _ _))
  have hwhole : Grows written disk disk' :=
    (((only_loadSettings args).grows hload).mono (List.nil_subset _)).trans (hlogged.trans hafter)
  obtain ⟨d₁, hload₁, hkeeps₁⟩ := loadSettings_again hload hwhole
    fun config hconfig => hseparate.written_apart config (List.mem_append_left _ hconfig)
  have hload₁' := (only_loadSettings args).grows hload₁
  obtain ⟨d₂, hlog₂, hkeeps₂⟩ := startLog_again hlog
    (hafter.trans (hload₁'.mono (List.nil_subset _)))
  have hkept := (hkeeps₁.mono (List.nil_subset log.file.toList)).trans hkeeps₂
  have hseparate₂ := hseparate.of_keeps hkept
  have hlater₂ : Grows (output :: log.file.toList) dc d₂ := by
    apply (hlater.trans (hload₁'.mono (List.nil_subset _))).trans
    exact ((only_startLog logVariable inv s).grows hlog₂).mono (by simp [hfile])
  obtain ⟨d₃, hmerger₃, hkeeps₃⟩ := runMerge_again hsources hmerger (List.subset_cons_self _ _)
    hlater₂ (fun u hu => hseparate₂.written_apart u.path
      (List.mem_append_right _ (List.mem_map_of_mem hu))) hseparate₂.report_apart
  exact ⟨d₁, d₂, d₃, hload₁, hlog₂, hmerger₃, hkept.trans hkeeps₃⟩

omit [SteadyFileSystem σ π] in
/-- A check that finds what it has merged in the output. -/
theorem exec_check_of_read {path : String} {merger : Merger} {d₁ d₂ d₃ : σ}
    (hload : exec (loadSettings args) disk = (.ok s, d₁)) (houtput : s.output = some path)
    (hlog : exec (startLog logVariable inv s) d₁ = (.ok log, d₂))
    (hmerger : exec (runMerge log s args) d₂ = (.ok merger, d₃))
    (hread : (perform (Workspace.read path) d₃).1 = .ok merger.finish.render) :
    exec (check logVariable inv args) disk =
      (.ok ⟨0, path ++ " is up to date\n"⟩, (perform (Workspace.read path) d₃).2) := by
  unfold check
  rw [exec_bind_of_ok hload, exec_bind_of_ok hlog, houtput]
  dsimp only
  rw [exec_bind_of_ok hmerger, exec_bind_of_ok (exec_lift _ _), hread]
  simp only [if_true]
  rfl

omit [SteadyFileSystem σ π] in
theorem exists_reply {argv : List String} {outcome : Outcome}
    (h : Invocation.parse argv = .ok inv)
    (hrun : perform (runArguments logVariable argv) disk = (outcome, disk'))
    (hexit : outcome.exit = 0) :
    ∃ reply, exec (run logVariable inv) disk = (.ok reply, disk') := by
  rw [perform_runArguments h] at hrun
  rcases hexec : exec (run logVariable inv) disk with ⟨r, mid⟩
  rw [hexec] at hrun
  cases r with
  | ok reply =>
    cases hrun
    exact ⟨reply, rfl⟩
  | error e =>
    cases hrun
    cases e <;> cases hexit

/-- The command line of a merge that wrote its output, with a check in place of the merge, finds the
output up to date and changes nothing but the log. -/
theorem check_after_merge {argv argv' : List String} {sources : List UnitSource} {output : String}
    {outcome : Outcome}
    (hargv : Invocation.parse argv = .ok inv) (htask : inv.task = .merge args)
    (hargv' : Invocation.parse argv' = .ok { inv with task := .check args })
    (hmerge : perform (runArguments logVariable argv) disk = (outcome, disk'))
    (hexit : outcome.exit = 0) (hsettings : loaded? args disk = some s)
    (houtput : s.output = some output)
    (hsources : s.resolveUnits args.files args.tags = .ok sources)
    (hseparate : Separate disk' (logFile? inv s) s.report output
      (args.config.toList ++ sources.map (·.path))) :
    ∃ disk'', perform (runArguments logVariable argv') disk' =
        (.replied ⟨0, output ++ " is up to date\n"⟩, disk'') ∧
      Keeps (logFile? inv s).toList disk' disk'' := by
  obtain ⟨reply, hrun⟩ := exists_reply hargv hmerge hexit
  simp only [run, htask] at hrun
  obtain ⟨log, merger, da, db, dc, hload, hlog, hmerger, hlater, hread⟩ :=
    exists_of_exec_merge hsettings houtput hrun
  have hfile := (exec_startLog_eq_ok.1 hlog).2.1
  rw [← hfile] at hseparate ⊢
  obtain ⟨d₁, d₂, d₃, hload₁, hlog₂, hmerger₃, hkeeps₃⟩ :=
    stages_again hsources hload hlog hmerger hlater hseparate
  have hgrows₃ : Grows (log.file.toList ++ s.report.toList) disk' d₃ := by
    apply (((only_loadSettings args).grows hload₁).mono (List.nil_subset _)).trans
    apply Grows.trans _ ((only_runMerge log s args).grows hmerger₃)
    exact ((only_startLog logVariable inv s).grows hlog₂).mono (by simp [hfile])
  have hread₃ : (perform (Workspace.read output) d₃).1 = .ok merger.finish.render := by
    apply hgrows₃.read_eq (hread fun file hmem => ?_) (hseparate.of_keeps hkeeps₃).output_apart
    exact hseparate.output_apart file (List.mem_append_left _ hmem)
  -- The log that is started depends on what the command line says of it and not on the command.
  have hcheck : exec (run logVariable { inv with task := .check args }) disk' =
      (.ok ⟨0, output ++ " is up to date\n"⟩, (perform (Workspace.read output) d₃).2) :=
    exec_check_of_read hload₁ houtput hlog₂ hmerger₃ hread₃
  refine ⟨_, ?_, hkeeps₃.trans ((FileSystem.keeps_read output d₃).mono (List.nil_subset _))⟩
  rw [perform_runArguments hargv', hcheck]
  rfl

/-- Two units that both declare `F`, one of them behind a link, with settings that ask for a report
and a log. -/
theorem check_after_merge_of_conflict :
    let disk : GuardedTree := ⟨⟨[(["a.go"], .file "package a\n\nfunc F() \x7b\n\x7d\n"),
      (["lib"], .dir), (["lib", "b.go"], .file "package b\n\nfunc F() int \x7b\n\x7d\n"),
      (["c.json"], .file "\x7b\"report\": \"r.txt\", \"logging\": \x7b\"dir\": \"log\"\x7d\x7d")]⟩,
      [["c.json"]], [("b.go", "lib/b.go")]⟩
    let options := ["-f", "a.go", "-r", "A", "-f", "b.go", "-r", "B", "-p", "p", "-o", "out/m.go",
      "--config", "c.json"]
    let merged := perform (runArguments (some "debug") ("merge" :: options)) disk
    merged.1 = .replied ⟨0, ""⟩ ∧
      Separate merged.2 (some "log/srcmerge.log") (some "r.txt") "out/m.go"
        ["c.json", "a.go", "b.go"] ∧
      ∃ disk'', perform (runArguments (some "debug") ("check" :: options)) merged.2 =
          (.replied ⟨0, "out/m.go is up to date\n"⟩, disk'') ∧
        Keeps ["log/srcmerge.log"] merged.2 disk'' := by
  intro disk options merged
  obtain ⟨hreply, hseparate⟩ : merged.1 = .replied ⟨0, ""⟩ ∧
      Separate merged.2 (some "log/srcmerge.log") (some "r.txt") "out/m.go"
        ["c.json", "a.go", "b.go"] := by
    decide +kernel
  have hmerged : perform (runArguments (some "debug") ("merge" :: options)) disk = merged := rfl
  clear_value merged
  obtain ⟨outcome, disk'⟩ := merged
  obtain rfl : outcome = .replied ⟨0, ""⟩ := hreply
  let args : MergeArgs :=
    ⟨["a.go", "b.go"], ["A", "B"], some "p", some "out/m.go", some "c.json", none⟩
  let s : Settings := ⟨"p", some "out/m.go", some "r.txt", [], ⟨"info", some "log"⟩⟩
  have hargv : Invocation.parse ("merge" :: options) = .ok ⟨.merge args, none, none⟩ := by
    decide +kernel
  have hargv' : Invocation.parse ("check" :: options) = .ok ⟨.check args, none, none⟩ := by
    decide +kernel
  have hlog : logFile? ⟨.merge args, none, none⟩ s = some "log/srcmerge.log" := by decide +kernel
  have hsettings : loaded? args disk = some s := by decide +kernel
  have hsources : s.resolveUnits args.files args.tags = .ok [⟨"a.go", "A"⟩, ⟨"b.go", "B"⟩] := by
    decide +kernel
  have hcheck := check_after_merge hargv rfl hargv' hmerged rfl hsettings rfl hsources
    (by rw [hlog]; exact hseparate)
  rw [hlog] at hcheck
  exact ⟨rfl, hseparate, hcheck⟩

end GoWeave.Command
