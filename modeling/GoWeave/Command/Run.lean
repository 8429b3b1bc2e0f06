import GoWeave.Command.Arguments
import GoWeave.Command.Log
import GoWeave.Command.Workspace
import GoWeave.Diff.Unified
import GoWeave.Merge
import GoWeave.Merge.Report
import GoWeave.Settings
import GoWeave.Source.File

/-!
# Running commands

`merge` writes the merged file, `check` compares it with the one that is there, and `init` writes
settings to start from. A run loads the settings, starts the log, reads and merges the units and
writes the report, in this order, and stops at the first thing that fails. The merged file is
written last.
-/
namespace GoWeave.Command

/-- What made a run fail. -/
inductive RunError where
  | settingsUnreadable (path : String) (cause : SystemError)
  | settingsInvalid (path : String)
  | logFilter (text : String)
  | logDirNotMade (cause : SystemError)
  /-- The log could not be opened, which ends the program at once. -/
  | logNotOpened (path : String) (cause : SystemError)
  | noOutput
  | units (cause : UnitsError)
  | unitUnreadable (path : String) (cause : SystemError)
  | unitInvalid (path : String) (cause : SourceError)
  | merge (cause : MergeError)
  | reportNotWritten (path : String) (cause : SystemError)
  | outputNotWritten (path : String) (cause : SystemError)
  | outputUnreadable (path : String) (cause : SystemError)
  /-- The directory of the output or a settings file could not be made. -/
  | system (cause : SystemError)
  | nobodyToAsk
  deriving DecidableEq, Repr

namespace RunError

/-- What went wrong, from the outermost level to the cause. -/
def trace : RunError → List String
  | settingsUnreadable path cause => ["failed to load settings from " ++ path, cause.message]
  | settingsInvalid path => ["failed to load settings from " ++ path, "invalid settings"]
  | logFilter text => ["invalid log level " ++ text]
  | logDirNotMade cause => [cause.message]
  | logNotOpened path cause => ["failed to open " ++ path, cause.message]
  | noOutput => ["check needs an output file (-o or \"output\" in the settings file)"]
  | units cause => [cause.message]
  | unitUnreadable path cause =>
    ["failed to parse " ++ path, "cannot read " ++ path ++ ": " ++ cause.message, cause.message]
  | unitInvalid path cause => ["failed to parse " ++ path, cause.message]
  | merge cause => "merge failed" :: cause.trace
  | reportNotWritten path cause => ["failed to write report " ++ path, cause.message]
  | outputNotWritten path cause => ["failed to write " ++ path, cause.message]
  | outputUnreadable path cause => ["failed to read " ++ path, cause.message]
  | system cause => [cause.message]
  | nobodyToAsk => ["IO error: not a terminal", "not a terminal"]

/-- The exit code of a run that fails. -/
def exit : RunError → Nat
  | logNotOpened .. => 101
  | _ => 1

/-- A cause with its number, if it has one. Further lines of it are indented as far as the first. -/
def causeText (number : Option Nat) (cause : String) : String :=
  let (first, indent) :=
    match number with
    | some n =>
      let digits := toString n
      (String.ofList (List.replicate (5 - digits.length) ' ') ++ digits ++ ": ", "       ")
    | none => ("    ", "    ")
  first ++ String.intercalate ("\n" ++ indent) (Text.split '\n' cause)

/-- The report on an error. Causes are numbered if there is more than one. -/
def report (e : RunError) : String :=
  match e.trace with
  | [] => "Error: "
  | [outer] => "Error: " ++ outer
  | [outer, cause] => "Error: " ++ outer ++ "\n\nCaused by:\n" ++ causeText none cause
  | outer :: causes =>
    "Error: " ++ outer ++ "\n\nCaused by:\n"
      ++ String.intercalate "\n" (causes.zipIdx.map fun (cause, i) => causeText (some i) cause)

end RunError

/-- What a run that did not fail leaves behind besides files. -/
structure Reply where
  exit : Nat
  output : String
  deriving DecidableEq, Repr

/-- The log of a run: what it admits, and the file it goes to, if any. -/
structure Log where
  filter : LogFilter
  file : Option String
  deriving DecidableEq, Repr

/-- The settings with the options of the command line in their place. -/
def MergeArgs.override (args : MergeArgs) (s : Settings) : Settings :=
  { s with
    package := args.package.getD s.package
    output := args.output <|> s.output
    report := args.report <|> s.report }

/-- The name of the program in the log. -/
def programOrigin : String :=
  "srcmerge"

/-- The name of the merge itself in the log. -/
def engineOrigin : String :=
  "srcmerge_engine"

/-- What the log says about a decision. -/
def decisionNotices (d : Decision) : List Notice :=
  let said : Notice := ⟨.info, engineOrigin, d.action.describe⟩
  match d.action with
  | .methodRenamed .. =>
    [⟨.warn, engineOrigin, "conflicting method renamed; selector call sites keep the old name"⟩,
      said]
  | _ => [said]

section

variable {m : Type → Type} [Monad m] [Workspace m]

/-- The value of an operation, or the error that its failure means. -/
def orFail (fail : SystemError → RunError) (x : m (Except SystemError α)) : ExceptT RunError m α :=
  do
  match ← x with
  | .ok a => pure a
  | .error e => throw (fail e)

def loadSettings (args : MergeArgs) : ExceptT RunError m Settings := do
  match args.config with
  | none => pure (args.override .usual)
  | some path =>
    let text ← orFail (.settingsUnreadable path) (Workspace.read path)
    match Settings.load? text with
    | none => throw (.settingsInvalid path)
    | some s => pure (args.override s)

/-! ## The log -/

def logFileName : String :=
  "srcmerge.log"

/-- The filter of a log. A variable of the surroundings has precedence over the level, unless it
cannot be read as a filter. -/
def logFilter? (logVariable : Option String) (level : String) : Option LogFilter :=
  logVariable.bind LogFilter.parse? <|> LogFilter.parse? level

/-- Starts the log and opens its file, which is created if it is not there. -/
def startLog (logVariable : Option String) (inv : Invocation) (s : Settings) :
    ExceptT RunError m Log := do
  let level := inv.logLevel.getD s.logging.level
  match logFilter? logVariable level with
  | none => throw (.logFilter level)
  | some filter =>
    match inv.logDir <|> s.logging.dir with
    | none => pure ⟨filter, none⟩
    | some dir =>
      orFail .logDirNotMade (Workspace.createDirs dir)
      let file := Path.join dir logFileName
      orFail (.logNotOpened file) (Workspace.append file "")
      pure ⟨filter, some file⟩

/-- Writes the notices that the log admits to its file. A log that cannot be written stops
nothing. -/
def Log.write (log : Log) (notices : List Notice) : ExceptT RunError m Unit := do
  match log.file with
  | none => pure ()
  | some file =>
    let lines := (notices.filter log.filter.admits).map Notice.line
    if lines.isEmpty then pure ()
    else
      let _ ← ExceptT.lift (Workspace.append file (String.join lines) : m _)

/-! ## Merging -/

def readUnit (log : Log) (u : UnitSource) : ExceptT RunError m (SourceFile × String) := do
  let text ← orFail (.unitUnreadable u.path) (Workspace.read u.path)
  match SourceFile.parse text with
  | .error e => throw (.unitInvalid u.path e)
  | .ok file =>
    log.write [⟨.debug, programOrigin, "parsed unit " ++ u.path⟩]
    pure (file, u.tag)

/-- Reads and merges the units, and writes the report. -/
def runMerge (log : Log) (s : Settings) (args : MergeArgs) : ExceptT RunError m Merger := do
  match s.resolveUnits args.files args.tags with
  | .error e => throw (.units e)
  | .ok sources =>
    let units ← sources.mapM (readUnit log)
    let (merger, failure) := mergeAll s.package units
    log.write (merger.decisions.flatMap decisionNotices)
    match failure with
    | some e => throw (.merge e)
    | none =>
      log.write
        [⟨.info, engineOrigin, "merge finished"⟩,
          ⟨.info, programOrigin, s!"merged {units.length} units into package {s.package}"⟩]
      match s.report with
      | none => pure ()
      | some path =>
        orFail (.reportNotWritten path) (Workspace.write path (Decision.report merger.decisions))
      pure merger

/-! ## Commands -/

/-- Merges and writes the merged file, or shows it. -/
def merge (logVariable : Option String) (inv : Invocation) (args : MergeArgs) :
    ExceptT RunError m Reply := do
  let s ← loadSettings args
  let log ← startLog logVariable inv s
  let merger ← runMerge log s args
  let text := merger.finish.render
  match s.output with
  | none => pure ⟨0, text⟩
  | some path =>
    orFail .system (Workspace.createDirs (Path.parent path))
    orFail (.outputNotWritten path) (Workspace.write path text)
    log.write [⟨.info, programOrigin, "wrote merged file " ++ path⟩]
    pure ⟨0, ""⟩

/-- Merges and compares the result with the file that is there. -/
def check (logVariable : Option String) (inv : Invocation) (args : MergeArgs) :
    ExceptT RunError m Reply := do
  let s ← loadSettings args
  let log ← startLog logVariable inv s
  match s.output with
  | none => throw .noOutput
  | some path =>
    let merger ← runMerge log s args
    let text := merger.finish.render
    match ← ExceptT.lift (Workspace.read path) with
    | .error e =>
      if e = .notFound then pure ⟨1, path ++ " does not exist\n"⟩
      else throw (.outputUnreadable path e)
    | .ok existing =>
      if existing = text then pure ⟨0, path ++ " is up to date\n"⟩
      else pure ⟨1, Diff.unified path "merged" existing text⟩

/-- Writes settings to start from. A file that is there is replaced only with consent. -/
def init (path : String) (force : Bool) : ExceptT RunError m Reply := do
  let asks ←
    if force then pure false else ExceptT.lift (Workspace.pathExists path)
  let consent ←
    if asks then ExceptT.lift (Workspace.confirm (path ++ " exists. Overwrite?"))
    else pure (some true)
  match consent with
  | none => throw .nobodyToAsk
  | some false => pure ⟨0, "Left " ++ path ++ " unchanged.\n"⟩
  | some true =>
    orFail .system (Workspace.createDirs (Path.parent path))
    orFail .system (Workspace.write path Settings.template.save)
    pure ⟨0, "Wrote " ++ path ++ "\nEdit the unit list, then run: srcmerge merge --config "
      ++ path ++ "\n"⟩

def run (logVariable : Option String) (inv : Invocation) : ExceptT RunError m Reply :=
  match inv.task with
  | .merge args => merge logVariable inv args
  | .check args => check logVariable inv args
  | .init path force => init path force

end

/-- How a run ended. -/
inductive Outcome where
  | refused (why : Refusal)
  | failed (e : RunError)
  | replied (r : Reply)
  deriving DecidableEq, Repr

namespace Outcome

def exit : Outcome → Nat
  | refused .help => 0
  | refused .usage => 2
  | failed e => e.exit
  | replied r => r.exit

end Outcome

/-- Runs the command that the arguments name, with a variable that may say what goes to the log. -/
def runArguments {m : Type → Type} [Monad m] [Workspace m] (logVariable : Option String)
    (args : List String) : m Outcome :=
  match Invocation.parse args with
  | .error why => pure (.refused why)
  | .ok inv => do
    match ← (run logVariable inv).run with
    | .error e => pure (.failed e)
    | .ok r => pure (.replied r)

end GoWeave.Command
