import GoWeave.Command.Run
import Mathlib.Data.List.Basic

/-!
# What runs write

A run performs operations on a disk one after the other and stops at the first one that fails. Which
files it writes, and in which order, can be read off the operations alone: nothing but the log up to
the merge, then the report, and the output last. What an operation does to a disk is left open.
-/
namespace GoWeave.Command

variable {α β σ : Type} {disk disk' disk'' : σ} {paths paths' : List String}

/-! ## Runs -/

/-- An operation on a disk: its value, and the disk it leaves. -/
def perform (op : StateM σ α) (disk : σ) : α × σ :=
  op.run disk

/-- A run on a disk: how it ends, and the disk it leaves. -/
def exec (x : ExceptT RunError (StateM σ) α) (disk : σ) : Except RunError α × σ :=
  perform x.run disk

theorem exec_pure (a : α) (disk : σ) :
    exec (pure a : ExceptT RunError (StateM σ) α) disk = (.ok a, disk) := rfl

theorem exec_throw (e : RunError) (disk : σ) :
    exec (throw e : ExceptT RunError (StateM σ) α) disk = (.error e, disk) := rfl

theorem exec_lift (op : StateM σ α) (disk : σ) :
    exec (ExceptT.lift op) disk = (.ok (perform op disk).1, (perform op disk).2) := rfl

/-- A run of two parts fails in the first part, or goes on with the second. -/
theorem cases_of_exec_bind {x : ExceptT RunError (StateM σ) α}
    {f : α → ExceptT RunError (StateM σ) β} {r : Except RunError β}
    (h : exec (x >>= f) disk = (r, disk')) :
    (∃ a mid, exec x disk = (.ok a, mid) ∧ exec (f a) mid = (r, disk')) ∨
      ∃ e, exec x disk = (.error e, disk') ∧ r = .error e := by
  unfold exec perform at h ⊢
  rw [ExceptT.run_bind, StateT.run_bind] at h
  rcases hx : x.run.run disk with ⟨r', mid⟩
  rw [hx] at h
  cases r' with
  | ok a => exact .inl ⟨a, mid, rfl, h⟩
  | error e =>
    cases h
    exact .inr ⟨e, rfl, rfl⟩

theorem exec_bind_of_ok {x : ExceptT RunError (StateM σ) α}
    {f : α → ExceptT RunError (StateM σ) β} {a : α} (h : exec x disk = (.ok a, disk')) :
    exec (x >>= f) disk = exec (f a) disk' := by
  unfold exec perform at h ⊢
  rw [ExceptT.run_bind, StateT.run_bind, h]
  rfl

/-- A run of two parts that succeeds. -/
theorem exec_bind_eq_ok {x : ExceptT RunError (StateM σ) α}
    {f : α → ExceptT RunError (StateM σ) β} {b : β} :
    exec (x >>= f) disk = (.ok b, disk') ↔
      ∃ a mid, exec x disk = (.ok a, mid) ∧ exec (f a) mid = (.ok b, disk') := by
  constructor
  · intro h
    rcases cases_of_exec_bind h with hok | ⟨e, -, herror⟩
    · exact hok
    · cases herror
  · rintro ⟨a, mid, hx, hf⟩
    rw [exec_bind_of_ok hx, hf]

theorem exec_orFail {fail : SystemError → RunError} {op : StateM σ (Except SystemError α)}
    (disk : σ) :
    exec (orFail fail op) disk = ((perform op disk).1.mapError fail, (perform op disk).2) := by
  unfold orFail
  have hlift : exec (liftM op) disk = (.ok (perform op disk).1, (perform op disk).2) := rfl
  rw [exec_bind_of_ok hlift]
  cases (perform op disk).1 <;> rfl

theorem exec_orFail_eq_ok {fail : SystemError → RunError} {op : StateM σ (Except SystemError α)}
    {a : α} : exec (orFail fail op) disk = (.ok a, disk') ↔ perform op disk = (.ok a, disk') := by
  rw [exec_orFail]
  rcases perform op disk with ⟨r, mid⟩
  cases r <;> simp [Except.mapError]

theorem exists_of_orFail_error {fail : SystemError → RunError}
    {op : StateM σ (Except SystemError α)} {e : RunError}
    (h : exec (orFail fail op) disk = (.error e, disk')) :
    ∃ cause, e = fail cause ∧ perform op disk = (.error cause, disk') := by
  rw [exec_orFail, Prod.mk.injEq] at h
  obtain ⟨herror, hdisk⟩ := h
  cases hop : (perform op disk).1 with
  | ok a =>
    rw [hop] at herror
    cases herror
  | error cause =>
    rw [hop] at herror
    exact ⟨cause, (Except.error.inj herror).symm, Prod.ext hop hdisk⟩

variable [Workspace (StateM σ)]

/-- The outcome of a run. -/
def Outcome.ofResult : Except RunError Reply → Outcome
  | .ok reply => .replied reply
  | .error e => .failed e

/-- What a command line leads to, once it is understood. -/
theorem perform_runArguments {logVariable : Option String} {argv : List String} {inv : Invocation}
    (h : Invocation.parse argv = .ok inv) (disk : σ) :
    perform (runArguments logVariable argv) disk =
      (.ofResult (exec (run logVariable inv) disk).1, (exec (run logVariable inv) disk).2) := by
  unfold perform exec runArguments
  rw [h]
  dsimp only
  rw [StateT.run_bind]
  unfold perform
  rcases (run logVariable inv : ExceptT RunError (StateM σ) Reply).run.run disk with ⟨r, disk'⟩
  cases r <;> rfl

/-! ## Later disks -/

/-- A later disk: some operations lead to it, and those that write name only some paths. A write
that fails may name any. -/
inductive Grows (paths : List String) (disk : σ) : σ → Prop
  | refl : Grows paths disk disk
  | read {mid : σ} (h : Grows paths disk mid) (path : String) :
    Grows paths disk (perform (Workspace.read path) mid).2
  | write {mid : σ} (h : Grows paths disk mid) {path : String} (hpath : path ∈ paths)
      (text : String) :
    Grows paths disk (perform (Workspace.write path text) mid).2
  | writeFailed {mid : σ} (h : Grows paths disk mid) {path text : String} {e : SystemError}
      (hfail : (perform (Workspace.write path text) mid).1 = .error e) :
    Grows paths disk (perform (Workspace.write path text) mid).2
  | append {mid : σ} (h : Grows paths disk mid) {path : String} (hpath : path ∈ paths)
      (text : String) :
    Grows paths disk (perform (Workspace.append path text) mid).2
  | createDirs {mid : σ} (h : Grows paths disk mid) (path : String) :
    Grows paths disk (perform (Workspace.createDirs path) mid).2

namespace Grows

theorem mono (h : Grows paths disk disk') (hsub : paths ⊆ paths') : Grows paths' disk disk' := by
  induction h with
  | refl => exact .refl
  | read _ path ih => exact ih.read path
  | write _ hpath text ih => exact ih.write (hsub hpath) text
  | writeFailed _ hfail ih => exact ih.writeFailed hfail
  | append _ hpath text ih => exact ih.append (hsub hpath) text
  | createDirs _ path ih => exact ih.createDirs path

theorem trans (h : Grows paths disk disk') (h' : Grows paths disk' disk'') :
    Grows paths disk disk'' := by
  induction h' with
  | refl => exact h
  | read _ path ih => exact ih.read path
  | write _ hpath text ih => exact ih.write hpath text
  | writeFailed _ hfail ih => exact ih.writeFailed hfail
  | append _ hpath text ih => exact ih.append hpath text
  | createDirs _ path ih => exact ih.createDirs path

end Grows

/-- However the run ends, it has written only files that some paths name. -/
def Only (paths : List String) (x : ExceptT RunError (StateM σ) α) : Prop :=
  ∀ disk, Grows paths disk (exec x disk).2

namespace Only

variable {x : ExceptT RunError (StateM σ) α} {f : α → ExceptT RunError (StateM σ) β}

theorem pure (paths : List String) (a : α) :
    Only paths (Pure.pure a : ExceptT RunError (StateM σ) α) :=
  fun _ => .refl

theorem throw (paths : List String) (e : RunError) :
    Only paths (MonadExcept.throw e : ExceptT RunError (StateM σ) α) :=
  fun _ => .refl

theorem mono (h : Only paths x) (hsub : paths ⊆ paths') : Only paths' x :=
  fun disk => (h disk).mono hsub

theorem grows {r : Except RunError α} (h : Only paths x) (hrun : exec x disk = (r, disk')) :
    Grows paths disk disk' := by
  have hgrows := h disk
  rwa [hrun] at hgrows

/-- A run ends with its first part, or the rest goes on from what the first part leaves. -/
theorem cases_bind {r : Except RunError β} (hx : Only paths x)
    (h : exec (x >>= f) disk = (r, disk')) :
    Grows paths disk disk' ∨
      ∃ a mid, exec x disk = (.ok a, mid) ∧ Grows paths disk mid ∧
        exec (f a) mid = (r, disk') := by
  rcases cases_of_exec_bind h with ⟨a, mid, hfirst, hrest⟩ | ⟨e, hfirst, -⟩
  · exact .inr ⟨a, mid, hfirst, hx.grows hfirst, hrest⟩
  · exact .inl (hx.grows hfirst)

theorem bind (hx : Only paths x) (hf : ∀ a, Only paths (f a)) : Only paths (x >>= f) := by
  intro disk
  rcases hx.cases_bind (Eq.refl (exec (x >>= f) disk)) with hgrows | ⟨a, mid, -, hgrows, hrest⟩
  · exact hgrows
  · exact hgrows.trans ((hf a).grows hrest)

theorem lift {op : StateM σ α} (h : ∀ disk, Grows paths disk (perform op disk).2) :
    Only paths (ExceptT.lift op : ExceptT RunError (StateM σ) α) :=
  h

theorem orFail {fail : SystemError → RunError} {op : StateM σ (Except SystemError α)}
    (h : ∀ disk, Grows paths disk (perform op disk).2) : Only paths (Command.orFail fail op) := by
  intro disk
  rw [exec_orFail]
  exact h disk

theorem mapM {g : α → ExceptT RunError (StateM σ) β} (h : ∀ a, Only paths (g a)) (as : List α) :
    Only paths (as.mapM g) := by
  induction as with
  | nil =>
    rw [List.mapM_nil]
    exact pure paths []
  | cons a as ih =>
    rw [List.mapM_cons]
    exact bind (h a) fun b => bind ih fun bs => pure paths (b :: bs)

end Only

/-- A write that fails ends the run, and counts for nothing. -/
theorem grows_of_write_error {fail : SystemError → RunError} {path text : String} {e : RunError}
    (h : exec (orFail fail (Workspace.write path text)) disk = (.error e, disk')) :
    Grows paths disk disk' := by
  obtain ⟨cause, -, hop⟩ := exists_of_orFail_error h
  have hgrows : Grows paths disk (perform (Workspace.write path text) disk).2 :=
    .writeFailed .refl (congrArg Prod.fst hop)
  rwa [hop] at hgrows

/-! ## The stages -/

variable {logVariable : Option String} {inv : Invocation} {s : Settings} {args : MergeArgs}
  {log : Log}

theorem only_loadSettings (args : MergeArgs) :
    Only [] (loadSettings args : ExceptT RunError (StateM σ) Settings) := by
  unfold loadSettings
  cases args.config with
  | none => exact .pure [] _
  | some path =>
    apply Only.bind (.orFail fun _ => .read .refl path)
    intro text
    cases Settings.load? text with
    | none => exact .throw [] _
    | some s => exact .pure [] _

/-- The settings that a run loads, if it does. -/
def loaded? (args : MergeArgs) (disk : σ) : Option Settings :=
  (exec (loadSettings args) disk).1.toOption

theorem Log.only_write (log : Log) (notices : List Notice) :
    Only log.file.toList (log.write notices : ExceptT RunError (StateM σ) Unit) := by
  unfold Log.write
  cases log.file with
  | none => exact .pure _ _
  | some file =>
    dsimp only
    split
    · exact .pure _ _
    · exact .bind (.lift fun _ => .append .refl List.mem_cons_self _) fun _ => .pure _ _

/-- A log that cannot be written stops nothing. -/
theorem Log.exists_exec_write (log : Log) (notices : List Notice) (disk : σ) :
    ∃ disk', exec (log.write notices) disk = (.ok (), disk') := by
  unfold Log.write
  cases log.file with
  | none => exact ⟨_, rfl⟩
  | some file =>
    dsimp only
    split <;> exact ⟨_, rfl⟩

/-- The file that the log of a run goes to. -/
def logFile? (inv : Invocation) (s : Settings) : Option String :=
  (inv.logDir <|> s.logging.dir).map (Path.join · logFileName)

/-- The log of a run starts by its filter, its directory and its file. -/
theorem exec_startLog_eq_ok :
    exec (startLog logVariable inv s) disk = (.ok log, disk') ↔
      logFilter? logVariable (inv.logLevel.getD s.logging.level) = some log.filter ∧
        log.file = logFile? inv s ∧
        ((inv.logDir <|> s.logging.dir) = none ∧ disk' = disk ∨
          ∃ dir mid, (inv.logDir <|> s.logging.dir) = some dir ∧
            perform (Workspace.createDirs dir) disk = (.ok (), mid) ∧
            perform (Workspace.append (Path.join dir logFileName) "") mid = (.ok (), disk')) := by
  unfold startLog logFile?
  dsimp only
  cases logFilter? logVariable (inv.logLevel.getD s.logging.level) with
  | none => simp [exec_throw]
  | some filter =>
    cases inv.logDir <|> s.logging.dir with
    | none =>
      obtain ⟨filter', file⟩ := log
      simp [exec_pure, eq_comm, and_assoc]
    | some dir =>
      constructor
      · intro h
        obtain ⟨_, mid, hmake, h⟩ := exec_bind_eq_ok.1 h
        obtain ⟨_, last, hopen, h⟩ := exec_bind_eq_ok.1 h
        cases h
        exact ⟨rfl, rfl, .inr ⟨dir, mid, rfl, exec_orFail_eq_ok.1 hmake,
          exec_orFail_eq_ok.1 hopen⟩⟩
      · rintro ⟨hfilter, hfile, ⟨hnone, -⟩ | ⟨dir', mid, hdir, hmake, hopen⟩⟩
        · cases hnone
        · cases hdir
          obtain ⟨filter', file⟩ := log
          cases hfilter
          cases hfile
          rw [exec_bind_of_ok (exec_orFail_eq_ok.2 hmake),
            exec_bind_of_ok (exec_orFail_eq_ok.2 hopen)]
          rfl

theorem only_startLog (logVariable : Option String) (inv : Invocation) (s : Settings) :
    Only (logFile? inv s).toList
      (startLog logVariable inv s : ExceptT RunError (StateM σ) Log) := by
  unfold startLog logFile?
  dsimp only
  cases logFilter? logVariable (inv.logLevel.getD s.logging.level) with
  | none => exact .throw _ _
  | some filter =>
    cases inv.logDir <|> s.logging.dir with
    | none => exact .pure _ _
    | some dir =>
      refine .bind (.orFail fun _ => .createDirs .refl dir) fun _ => ?_
      exact .bind (.orFail fun _ => .append .refl List.mem_cons_self "") fun _ => .pure _ _

theorem only_readUnit (log : Log) (u : UnitSource) :
    Only log.file.toList (readUnit log u : ExceptT RunError (StateM σ) (SourceFile × String)) := by
  unfold readUnit
  apply Only.bind (.orFail fun _ => .read .refl u.path)
  intro text
  cases SourceFile.parse text with
  | error e => exact .throw _ _
  | ok file => exact .bind (log.only_write _) fun _ => .pure _ _

/-- Merging units writes to the log, and after that the report. If it fails, the report is not
written. -/
theorem grows_of_runMerge {r : Except RunError Merger}
    (h : exec (runMerge log s args) disk = (r, disk')) :
    Grows log.file.toList disk disk' ∨
      (∃ merger, r = .ok merger) ∧ Grows (log.file.toList ++ s.report.toList) disk disk' := by
  unfold runMerge at h
  cases hsources : s.resolveUnits args.files args.tags with
  | error cause =>
    rw [hsources] at h
    cases h
    exact .inl .refl
  | ok sources =>
    rw [hsources] at h
    dsimp only at h
    have hunits := Only.mapM (only_readUnit (σ := σ) log) sources
    rcases hunits.cases_bind h with hread | ⟨units, ta, -, hread, h⟩
    · exact .inl hread
    rcases hmerge : mergeAll s.package units with ⟨merger, failure⟩
    rw [hmerge] at h
    rcases (log.only_write _).cases_bind h with hlog | ⟨_, tb, -, hlog, h⟩
    · exact .inl (hread.trans hlog)
    cases failure with
    | some e =>
      cases h
      exact .inl (hread.trans hlog)
    | none =>
      rcases (log.only_write _).cases_bind h with hlog' | ⟨_, tc, -, hlog', h⟩
      · exact .inl ((hread.trans hlog).trans hlog')
      have hlogged := (hread.trans hlog).trans hlog'
      cases hreport : s.report with
      | none =>
        rw [hreport] at h
        cases h
        exact .inl hlogged
      | some path =>
        rw [hreport] at h
        rcases cases_of_exec_bind h with ⟨_, td, hwrite, h⟩ | ⟨e, hwrite, -⟩
        · cases h
          have hwritten : Grows [path] tc disk' :=
            Only.grows (.orFail fun _ => .write .refl List.mem_cons_self _) hwrite
          refine .inr ⟨⟨merger, rfl⟩, (hlogged.mono (List.subset_append_left _ _)).trans ?_⟩
          exact hwritten.mono (List.subset_append_right _ _)
        · exact .inl (hlogged.trans (grows_of_write_error hwrite))

theorem only_runMerge (log : Log) (s : Settings) (args : MergeArgs) :
    Only (log.file.toList ++ s.report.toList)
      (runMerge log s args : ExceptT RunError (StateM σ) Merger) := by
  intro disk
  rcases grows_of_runMerge (Eq.refl (exec (runMerge log s args) disk)) with hgrows | ⟨-, hgrows⟩
  · exact hgrows.mono (List.subset_append_left _ _)
  · exact hgrows

end GoWeave.Command
