import GoWeave.Json.Reading
import GoWeave.Text.Blank

/-!
# Settings

What a run merges and where the results go. Settings are kept as JSON; every field but those of a
unit may be missing and then has its usual value.
-/
namespace GoWeave

/-- An input file and the tag of its unit. -/
structure UnitSource where
  path : String
  tag : String
  deriving DecidableEq, Repr

structure LogSettings where
  level : String
  dir : Option String
  deriving DecidableEq, Repr

structure Settings where
  /-- The package of the merged file. -/
  package : String
  /-- Where the merged file goes, if not to the standard output. -/
  output : Option String
  /-- Where the decisions are written, if anywhere. -/
  report : Option String
  units : List UnitSource
  logging : LogSettings
  deriving DecidableEq, Repr

/-- Why there is no list of units to merge. -/
inductive UnitsError where
  | noUnits
  | tagCountMismatch (files tags : Nat)
  | emptyTag (path : String)
  deriving DecidableEq, Repr

def UnitsError.message : UnitsError → String
  | noUnits => "no input files given"
  | tagCountMismatch files tags =>
    s!"{files} input files but {tags} tags; every file needs exactly one tag"
  | emptyTag path => "empty tag for " ++ path

namespace LogSettings

def usual : LogSettings :=
  ⟨"info", none⟩

end LogSettings

namespace Settings

def usual : Settings :=
  ⟨"merged", none, none, [], .usual⟩

/-- Settings to start from, with two units to be replaced. -/
def template : Settings :=
  { usual with
    output := some "merged.go"
    units := [⟨"a/a.go", "A"⟩, ⟨"b/b.go", "B"⟩] }

end Settings

/-! ## Writing -/

def UnitSource.toJson (u : UnitSource) : Json :=
  .record [("path", .text u.path), ("tag", .text u.tag)]

def LogSettings.toJson (l : LogSettings) : Json :=
  .record [("level", .text l.level), ("dir", .textOrNull l.dir)]

namespace Settings

def toJson (s : Settings) : Json :=
  .record
    [("package", .text s.package), ("output", .textOrNull s.output),
      ("report", .textOrNull s.report), ("units", .array (s.units.map UnitSource.toJson)),
      ("logging", s.logging.toJson)]

/-- The text of the settings. -/
def save (s : Settings) : String :=
  s.toJson.pretty

end Settings

/-! ## Reading -/

/-- A field that has a usual value. -/
def Json.fieldOr (usual : α) (read : Json → Option α) : Option Json → Option α
  | none => some usual
  | some j => read j

def UnitSource.ofJson? (j : Json) : Option UnitSource :=
  match j.fields? ["path", "tag"] with
  | some [some path, some tag] => do pure ⟨← path.text?, ← tag.text?⟩
  | _ => none

def LogSettings.ofJson? (j : Json) : Option LogSettings :=
  match j.fields? ["level", "dir"] with
  | some [level, dir] => do
    pure ⟨← Json.fieldOr usual.level Json.text? level,
      ← Json.fieldOr none (Json.nullable? Json.text?) dir⟩
  | _ => none

namespace Settings

def unitsOfJson? (j : Json) : Option (List UnitSource) := do
  (← j.elements?).mapM UnitSource.ofJson?

def ofJson? (j : Json) : Option Settings :=
  match j.fields? ["package", "output", "report", "units", "logging"] with
  | some [package, output, report, units, logging] => do
    pure ⟨← Json.fieldOr usual.package Json.text? package,
      ← Json.fieldOr none (Json.nullable? Json.text?) output,
      ← Json.fieldOr none (Json.nullable? Json.text?) report,
      ← Json.fieldOr [] unitsOfJson? units,
      ← Json.fieldOr .usual LogSettings.ofJson? logging⟩
  | _ => none

/-- The settings that a text spells. -/
def load? (text : String) : Option Settings :=
  (Json.parse? text).bind ofJson?

/-! ## Units -/

/-- Files and tags that were given in pairs. -/
def pairUnits (files tags : List String) : Except UnitsError (List UnitSource) :=
  if files.length = tags.length then .ok (files.zipWith UnitSource.mk tags)
  else .error (.tagCountMismatch files.length tags.length)

/-- The units to merge, in order. Files and tags that are given take the place of the units in the
settings. There must be a unit, and every tag must have a character that is not blank. -/
def resolveUnits (s : Settings) (files tags : List String) : Except UnitsError (List UnitSource) :=
  do
  let units ←
    if files.isEmpty && tags.isEmpty then pure s.units else pairUnits files tags
  if units.isEmpty then throw .noUnits
  match units.find? fun u => Text.isBlankText u.tag with
  | some u => throw (.emptyTag u.path)
  | none => pure units

end Settings

end GoWeave
