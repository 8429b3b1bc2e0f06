import GoWeave.Text.Split

/-!
# Workspaces

What a command needs of its surroundings: files, and someone to ask. Commands are written for any
monad that offers these operations, so that they run on the real file system as well as on a value
that stands for one.
-/
namespace GoWeave.Command

/-- An error of the file system, by its number and its usual text. -/
structure SystemError where
  code : Nat
  text : String
  deriving DecidableEq, Repr

namespace SystemError

def notFound : SystemError :=
  ⟨2, "No such file or directory"⟩

def alreadyExists : SystemError :=
  ⟨17, "File exists"⟩

def notDirectory : SystemError :=
  ⟨20, "Not a directory"⟩

def isDirectory : SystemError :=
  ⟨21, "Is a directory"⟩

def message (e : SystemError) : String :=
  s!"{e.text} (os error {e.code})"

end SystemError

class Workspace (m : Type → Type) where
  read (path : String) : m (Except SystemError String)
  /-- Creates a file or replaces its text. -/
  write (path text : String) : m (Except SystemError Unit)
  /-- Creates a file or adds to its text. -/
  append (path text : String) : m (Except SystemError Unit)
  /-- Creates a directory and those around it, as far as they are missing. An empty path stands for
  the directory in which the command runs. -/
  createDirs (path : String) : m (Except SystemError Unit)
  pathExists (path : String) : m Bool
  /-- Asks a question, if there is someone to answer. -/
  confirm (question : String) : m (Option Bool)

namespace Path

/-- The parts of a path between slashes. -/
def parts (path : String) : List String :=
  (Text.split '/' path).filter (· ≠ "")

/-- The parts of a path that count. A dot counts only at the front. -/
def components (path : String) : List String :=
  match parts path with
  | [] => []
  | first :: rest => first :: rest.filter (· ≠ ".")

/-- The directory around a path. It is empty for a path without slashes. -/
def parent (path : String) : String :=
  let inner := String.intercalate "/" (components path).dropLast
  if Text.startsWith '/' path && !(parts path).isEmpty then "/" ++ inner else inner

/-- A name inside a directory. -/
def join (dir name : String) : String :=
  if dir.isEmpty || Text.endsWith '/' dir then dir ++ name else dir ++ "/" ++ name

end Path

end GoWeave.Command
