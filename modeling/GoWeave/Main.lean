import GoWeave.Command.Run

/-!
# The program

Runs a command on the real file system. Everything that a command decides is decided elsewhere; here
its operations are carried out and its outcome is shown.
-/
namespace GoWeave.Command

/-- A failure of the system as the library knows it. -/
def SystemError.ofFailure : IO.Error → SystemError
  | .noFileOrDirectory .. => .notFound
  | .alreadyExists _ _ _ => .alreadyExists
  | .inappropriateType _ code details => ⟨code.toNat, details⟩
  | .permissionDenied _ code details => ⟨code.toNat, details⟩
  | .resourceExhausted _ code details => ⟨code.toNat, details⟩
  | e => ⟨5, toString e⟩

/-- Carries out an operation and keeps its failure as a value. -/
def caught (x : IO α) : IO (Except SystemError α) := do
  try
    pure (.ok (← x))
  catch e => pure (.error (.ofFailure e))

/-- Adds a text at the end of a file. -/
def appendFile (path text : String) : IO Unit := do
  let handle ← IO.FS.Handle.mk path .append
  handle.putStr text

/-- Whether a path leads to something that can be opened. -/
def canOpen (path : String) : IO Bool := do
  try
    let _ ← IO.FS.Handle.mk path .read
    pure true
  catch _ => pure false

/-- Asks at the terminal, if there is one. -/
def ask (question : String) : IO (Option Bool) := do
  let input ← IO.getStdin
  if ← input.isTty then
    IO.eprint (question ++ " [y/N] ")
    let answer ← input.getLine
    pure (some (answer.startsWith "y" || answer.startsWith "Y"))
  else pure none

instance : Workspace IO where
  read path := caught (IO.FS.readFile path)
  write path text := caught (IO.FS.writeFile path text)
  append path text := caught (appendFile path text)
  createDirs path := caught (if path.isEmpty then pure () else IO.FS.createDirAll path)
  pathExists path := canOpen path
  confirm question := ask question

def helpText : String :=
  "Merge Go source files into one, renaming conflicting declarations\n\n"
    ++ "Usage: srcmerge [--log-level <LEVEL>] [--log-dir <DIR>] <COMMAND>\n\n"
    ++ "Commands:\n"
    ++ "  merge  Merge the input files and write the result\n"
    ++ "  check  Merge in memory and diff against the existing output file\n"
    ++ "  init   Write a template settings file\n"

/-- Shows how a run ended. -/
def Outcome.display : Outcome → IO Unit
  | refused .help => IO.print helpText
  | refused .usage => IO.eprint helpText
  | failed e => IO.eprintln e.report
  | replied r => IO.print r.output

end GoWeave.Command

def main (args : List String) : IO UInt32 := do
  let logVariable ← IO.getEnv "RUST_LOG"
  let outcome : GoWeave.Command.Outcome ← GoWeave.Command.runArguments logVariable args
  outcome.display
  pure outcome.exit.toUInt32
