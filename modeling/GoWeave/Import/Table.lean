import GoWeave.Import.Path
import GoWeave.Tree

/-!
# Import tables

A table holds the imports accepted so far: which path each name stands for. A new import either
extends the table, is there already, or meets its name bound to another path. In the last case the
importing unit takes another name, its own with the unit's tag appended as often as needed.

Blank and dot imports bind no name, and the table only remembers that they are there.
-/
namespace GoWeave.Import

/-- One import of a unit: the name it is referred to by, the path, and the spec as written. -/
structure Binding where
  name : String
  path : String
  spec : ImportSpec
  deriving DecidableEq, Repr

namespace Binding

/-- Blank and dot imports. -/
def isSpecial (b : Binding) : Bool :=
  b.name == "_" || b.name == "."

/-- A spec that imports the path under a name, which is left out if the path implies it. -/
def specAs (b : Binding) (name : String) : ImportSpec :=
  ⟨if impliedName b.path = name then none else some name, b.spec.path⟩

def ofSpec (spec : ImportSpec) : Except Fault Binding :=
  match unquote spec.path.value with
  | .error fault => .error fault
  | .ok path => .ok ⟨spec.name.getD (impliedName path), path, spec⟩

/-- The imports of a file in source order. -/
def collect (file : SourceFile) : Except Fault (List Binding) :=
  file.imports.mapM ofSpec

end Binding

structure Table where
  /-- The path of each name, the latest entry first. -/
  names : List (String × String)
  /-- The blank and dot imports with their paths. -/
  special : List (String × String)
  deriving DecidableEq, Repr

/-- What becomes of an import. -/
inductive Reconciled where
  | added (spec : ImportSpec)
  | present
  /-- References to `old` become references to `new`. The spec is absent if `new` already stands for
  the path. -/
  | renamed (old new : String) (spec : Option ImportSpec)
  deriving DecidableEq, Repr

namespace Table

def empty : Table :=
  ⟨[], []⟩

def path? (t : Table) (name : String) : Option String :=
  t.names.lookup name

def insert (t : Table) (name path : String) : Table :=
  { t with names := (name, path) :: t.names }

/-- The first of `name`, `name ++ tag`, `name ++ tag ++ tag`, … that is free or already stands for
the path, looking at no more than `limit` of them. -/
def settle (t : Table) (path tag : String) : Nat → String → String
  | 0, name => name
  | limit + 1, name =>
    match t.path? name with
    | none => name
    | some p => if p = path then name else settle t path tag limit (name ++ tag)

/-- The name for a path whose own name is taken. With a tag that is not empty the tagged names are
pairwise different, so one of the first `t.names.length + 1` is free. -/
def taggedName (t : Table) (name path tag : String) : String :=
  t.settle path tag t.names.length (name ++ tag)

/-- The effect of an import on the table. -/
def reconcile (t : Table) (b : Binding) (tag : String) : Reconciled × Table :=
  if b.isSpecial then
    if t.special.contains (b.name, b.path) then (.present, t)
    else (.added b.spec, { t with special := (b.name, b.path) :: t.special })
  else
    match t.path? b.name with
    | none => (.added (b.specAs b.name), t.insert b.name b.path)
    | some path =>
      if path = b.path then (.present, t)
      else
        let new := t.taggedName b.name b.path tag
        match t.path? new with
        | some _ => (.renamed b.name new none, t)
        | none => (.renamed b.name new (some (b.specAs new)), t.insert new b.path)

end Table

end GoWeave.Import
