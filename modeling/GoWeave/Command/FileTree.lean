import GoWeave.Command.Workspace

/-!
# File trees

A value that stands for a file system below one directory. Errors are those that the system reports:
a path leads through directories only, and what it leads to must be of the right kind.
-/
namespace GoWeave.Command

inductive FileEntry where
  | file (text : String)
  | dir
  deriving DecidableEq, Repr

/-- The files and directories, each at its location below the root. -/
structure FileTree where
  entries : List (List String × FileEntry)
  deriving DecidableEq, Repr

namespace FileTree

def empty : FileTree :=
  ⟨[]⟩

/-- What is at a location. The root is a directory. -/
def get? (t : FileTree) (location : List String) : Option FileEntry :=
  if location.isEmpty then some .dir else t.entries.lookup location

def put (t : FileTree) (location : List String) (e : FileEntry) : FileTree :=
  ⟨(location, e) :: t.entries.filter (·.1 ≠ location)⟩

/-! ## Paths -/

/-- The location that some parts of a path lead to, from a location on. -/
def walk (t : FileTree) (location : List String) : List String → Except SystemError (List String)
  | [] => .ok location
  | "." :: parts => walk t location parts
  | ".." :: parts => walk t location.dropLast parts
  | part :: parts =>
    match t.get? (location ++ [part]) with
    | none => .error .notFound
    | some (.file _) => .error .notDirectory
    | some .dir => walk t (location ++ [part]) parts

/-- Whether the last part of a path can only be a directory. -/
def namesDirectory (path : String) : Bool :=
  Text.endsWith '/' path || (Path.parts path).getLast? == some "."
    || (Path.parts path).getLast? == some ".."

/-- The location of a path, whose last part need not be there. -/
def locate (t : FileTree) (path : String) : Except SystemError (List String) :=
  let parts := Path.parts path
  match parts.getLast? with
  | none => if path.isEmpty then .error .notFound else .ok []
  | some last =>
    if last = "." ∨ last = ".." then t.walk [] parts
    else
      match t.walk [] parts.dropLast with
      | .error e => .error e
      | .ok location => .ok (location ++ [last])

/-! ## Operations -/

def read (t : FileTree) (path : String) : Except SystemError String :=
  match t.locate path with
  | .error e => .error e
  | .ok location =>
    match t.get? location with
    | none => .error .notFound
    | some .dir => .error .isDirectory
    | some (.file text) => if namesDirectory path then .error .notDirectory else .ok text

/-- The tree after a file has been given a text that may depend on the one it had. -/
def update (t : FileTree) (path : String) (f : String → String) : Except SystemError FileTree :=
  match t.locate path with
  | .error e => .error e
  | .ok location =>
    if namesDirectory path then .error .isDirectory
    else
      match t.get? location with
      | none => .ok (t.put location (.file (f "")))
      | some .dir => .error .isDirectory
      | some (.file text) => .ok (t.put location (.file (f text)))

/-- The tree with the directories that some parts of a path name, from a location on. -/
def makeDirs (t : FileTree) (location : List String) :
    List String → Except SystemError FileTree
  | [] => .ok t
  | "." :: parts => makeDirs t location parts
  | ".." :: parts => makeDirs t location.dropLast parts
  | part :: parts =>
    let next := location ++ [part]
    match t.get? next with
    | none => makeDirs (t.put next .dir) next parts
    | some .dir => makeDirs t next parts
    | some (.file _) => .error (if parts.isEmpty then .alreadyExists else .notDirectory)

def createDirs (t : FileTree) (path : String) : Except SystemError FileTree :=
  t.makeDirs [] (Path.parts path)

def pathExists (t : FileTree) (path : String) : Bool :=
  match t.locate path with
  | .error _ => false
  | .ok location =>
    match t.get? location with
    | none => false
    | some .dir => true
    | some (.file _) => !namesDirectory path

/-- The files of a tree that another does not have, or has with another text. -/
def changes (old new : FileTree) : List (String × String) :=
  new.entries.filterMap fun
    | (location, .file text) =>
      if old.get? location = some (.file text) then none
      else some (String.intercalate "/" location, text)
    | (_, .dir) => none

/-- The outcome of an operation that replaces the tree if it succeeds. -/
def apply (change : FileTree → Except SystemError FileTree) :
    StateM FileTree (Except SystemError Unit) := do
  match change (← get) with
  | .error e => pure (.error e)
  | .ok t =>
    set t
    pure (.ok ())

end FileTree

/-- A file tree as surroundings, with nobody to ask. -/
instance : Workspace (StateM FileTree) where
  read path := do pure ((← get).read path)
  write path text := FileTree.apply (·.update path fun _ => text)
  append path text := FileTree.apply (·.update path (· ++ text))
  createDirs path := FileTree.apply (·.createDirs path)
  pathExists path := do pure ((← get).pathExists path)
  confirm _ := pure none

end GoWeave.Command
