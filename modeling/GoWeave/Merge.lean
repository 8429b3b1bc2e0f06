import GoWeave.Declaration.Removal
import GoWeave.Import.Table
import GoWeave.Merge.Decision
import GoWeave.Scope.Rename

/-!
# Merging

Units are merged one after the other into an accumulated file. For each unit the imports come first:
they are reconciled with the import table, and a name that stands for another path is renamed
throughout the unit. Then every keyed declaration meets the declaration registered under its key:

* a new key is kept;
* a declaration equal to the registered one is dropped;
* a struct that only adds fields widens the registered struct and is dropped;
* anything else is renamed with the unit's tag.

Functions, types and values are resolved before methods, so that a method whose receiver type was
renamed is looked up under the new name. Widening comes last, when the added fields refer to the
unit's own types by their final names. What is left of the unit is appended and registered.

A unit that fails leaves the imports it reconciled and the decisions made so far.
-/
namespace GoWeave

/-- The accumulated file with all that later units depend on. -/
structure Merger where
  package : String
  decls : List Decl
  /-- The index of the shared import group, once there is one. -/
  importGroup : Option Nat
  imports : Import.Table
  /-- The slot of the first declaration of each key. -/
  registry : List (String × Slot)
  decisions : List Decision
  /-- How many units have been taken so far. -/
  units : Nat

/-- The index and the tag of the unit being merged. -/
structure UnitTag where
  index : Nat
  tag : String
  deriving DecidableEq, Repr

def UnitTag.decide (u : UnitTag) (action : Action) : Decision :=
  ⟨u.index, u.tag, action⟩

/-- A struct of the unit that adds fields to the registered struct at a slot. -/
structure Widening where
  key : String
  canonical : Slot
  fields : List String
  deriving DecidableEq, Repr

/-- The state of resolving a unit: its declarations so far, the widenings put off to the end, and
the decisions made. -/
structure Resolution where
  decls : List Decl
  widenings : List Widening
  decisions : List Decision

/-- The struct type with more fields at the end. -/
def TypeSpec.addFields (fields : List Field) (spec : TypeSpec) : TypeSpec :=
  match spec.ty with
  | .structType old incomplete => { spec with ty := .structType (old ++ fields) incomplete }
  | _ => spec

namespace Merger

def start (package : String) : Merger :=
  ⟨package, [], none, .empty, [], [], 0⟩

/-- The slot registered under a key. -/
def slot? (m : Merger) (key : String) : Option Slot :=
  m.registry.lookup key

/-! ## Imports -/

/-- The accumulated file with one more import in the shared group. -/
def addImport (m : Merger) (spec : ImportSpec) : Merger :=
  match m.importGroup with
  | some i =>
    { m with
      decls := m.decls.modify i fun
        | .group g => .group { g with specs := g.specs ++ [.imported spec] }
        | d => d }
  | none =>
    { m with
      decls := m.decls ++ [.group ⟨.import_, [.imported spec], false⟩]
      importGroup := some m.decls.length }

def record (m : Merger) (decisions : List Decision) : Merger :=
  { m with decisions := m.decisions ++ decisions }

/-- One import of a unit whose declarations are `decls`. -/
def takeImport (m : Merger) (u : UnitTag) (decls : List Decl) (b : Import.Binding) :
    Merger × List Decl :=
  let (outcome, imports) := m.imports.reconcile b u.tag
  let m := { m with imports }
  match outcome with
  | .added spec => ((m.addImport spec).record [u.decide (.importAdded b.name b.path)], decls)
  | .present => (m, decls)
  | .renamed old new spec =>
    let m :=
      match spec with
      | some spec => m.addImport spec
      | none => m
    (m.record [u.decide (.importRenamed old new b.path)], Decl.renameAll ⟨old, new⟩ decls)

def takeImports (m : Merger) (u : UnitTag) (decls : List Decl) :
    List Import.Binding → Merger × List Decl
  | [] => (m, decls)
  | b :: bs =>
    let (m, decls) := m.takeImport u decls b
    takeImports m u decls bs

/-! ## Declarations -/

/-- The position of `iota`, as far as there is one, in a description. -/
def iotaText : Option Nat → String
  | some i => s!"Some({i})"
  | none => "None"

/-- The registered declaration against the incoming one. Values of different keywords differ, and so
do constants that take `iota` at different positions. -/
def compare (canonical incoming : Declared) : Comparison :=
  match canonical, incoming with
  | .value tok spec iota, .value tok' spec' iota' =>
    if tok ≠ tok' then some (.mismatch (tok.text ++ " vs " ++ tok'.text))
    else if iota ≠ iota' then
      some (.mismatch ("iota position " ++ iotaText iota ++ " vs " ++ iotaText iota'))
    else spec.compare spec'
  | canonical, incoming => canonical.node.compare incoming.node

/-- What to do with a declaration whose key is registered. -/
inductive Verdict where
  | drop
  | widen (fields : List String)
  | rename (reason : String)

/-- The verdict on an incoming declaration. -/
def judge (canonical incoming : Declared) : Except Fault Verdict :=
  match compare canonical incoming with
  | none => .ok .drop
  | some (.fatal fault) => .error fault
  | some (.mismatch reason) => .ok (.rename reason)
  | some (.additional _ added) =>
    if !added.isEmpty && canonical.isStruct && incoming.isStruct then .ok (.widen added)
    else if canonical.isInterface then
      .ok (.rename ("interface adds methods: " ++ Layout.commaSep added))
    else .ok (.rename ("members only in incoming: " ++ Layout.commaSep added))

/-- A method under a new name. Calls keep the old name, since they select it from a value. -/
def renameMethod (u : UnitTag) (reason : String) (slot : Slot) (res : Resolution) : Resolution :=
  match slot with
  | .func i =>
    match res.decls[i]? with
    | some (.func f) =>
      let new := f.name ++ u.tag
      { res with
        decls := res.decls.set i (.func { f with name := new })
        decisions := res.decisions ++
          [u.decide (.methodRenamed (f.receiverName?.getD "") f.name new reason)] }
    | _ => res
  | _ => res

/-- One keyed declaration of the unit against the registry. -/
def resolve (m : Merger) (u : UnitTag) (key : String) (kind : DeclKind) (res : Resolution) :
    Except Fault Resolution :=
  match m.slot? key with
  | none => .ok res
  | some canonicalSlot =>
    match Decl.locate? res.decls key, Decl.snapshot? m.decls canonicalSlot with
    | some slot, some canonical =>
      match Decl.snapshot? res.decls slot with
      | none => .ok res
      | some incoming =>
        match judge canonical incoming with
        | .error fault => .error fault
        | .ok .drop =>
          .ok { res with
            decls := Decl.remove key res.decls
            decisions := res.decisions ++ [u.decide (.duplicateDropped key)] }
        | .ok (.widen fields) =>
          .ok { res with widenings := res.widenings ++ [⟨key, canonicalSlot, fields⟩] }
        | .ok (.rename reason) =>
          if kind = .method then .ok (renameMethod u reason slot res)
          else
            let new := key ++ u.tag
            .ok { res with
              decls := Decl.renameAll ⟨key, new⟩ res.decls
              decisions := res.decisions ++ [u.decide (.renamed key new reason)] }
    | _, _ => .ok res

/-- Every keyed declaration in turn. On failure the state reached is kept with the error. -/
def resolveAll (m : Merger) (u : UnitTag) :
    List (String × DeclKind) → Resolution → Except (MergeError × Resolution) Resolution
  | [], res => .ok res
  | (key, kind) :: entries, res =>
    match m.resolve u key kind res with
    | .error fault => .error (.inDeclaration key fault, res)
    | .ok res => resolveAll m u entries res

/-- The fields that a unit's struct adds, spelled as the unit now spells them. -/
def addedFields (source : FieldSet) (keys : List String) : List Field :=
  keys.filterMap fun key => (source.get? key).map FieldEntry.toField

/-- The fields of the unit's struct under a key. -/
def structFields? (decls : List Decl) (key : String) : Option (List Field) :=
  match (Decl.locate? decls key).bind (Decl.snapshot? decls) with
  | some (.type spec) =>
    match spec.ty with
    | .structType fields _ => some fields
    | _ => none
  | _ => none

/-- One widening: the fields go to the registered struct, and the unit's copy is dropped. -/
def widen (m : Merger) (u : UnitTag) (res : Resolution) (w : Widening) :
    Except Fault (Merger × Resolution) :=
  match structFields? res.decls w.key with
  | none => .ok (m, res)
  | some fields =>
    match FieldSet.ofFields .member fields with
    | .error fault => .error fault
    | .ok source =>
      match Decl.typeSpec? m.decls w.canonical with
      | some target =>
        if target.ty.isStructType then
          .ok ({ m with
              decls := Decl.modifyTypeSpec m.decls w.canonical
                (TypeSpec.addFields (addedFields source w.fields)) },
            { res with
              decls := Decl.remove w.key res.decls
              decisions := res.decisions ++ [u.decide (.fieldsMerged w.key w.fields)] })
        else .ok (m, res)
      | none => .ok (m, res)

def widenAll (u : UnitTag) :
    List Widening → Merger → Resolution →
      Except (MergeError × Merger × Resolution) (Merger × Resolution)
  | [], m, res => .ok (m, res)
  | w :: ws, m, res =>
    match m.widen u res w with
    | .error fault => .error (.inDeclaration w.key fault, m, res)
    | .ok (m, res) => widenAll u ws m res

/-- Registers the keys that are not there yet. -/
def register (registry : List (String × Slot)) : List (String × Slot) → List (String × Slot)
  | [] => registry
  | (key, slot) :: slots =>
    match registry.lookup key with
    | some _ => register registry slots
    | none => register (registry ++ [(key, slot)]) slots

/-- The accumulated file with the declarations of a resolved unit at its end. -/
def append (m : Merger) (decls : List Decl) : Merger :=
  let all := m.decls ++ decls
  { m with
    decls := all
    registry := register m.registry (Decl.slotsIn all m.decls.length all.length) }

/-! ## Units -/

/-- A unit whose tag is known. The merger is returned also when the unit fails. -/
def mergeTagged (m : Merger) (u : UnitTag) (file : SourceFile) : Merger × Option MergeError :=
  match Import.Binding.collect file with
  | .error fault => (m, some (.ofFault fault))
  | .ok bindings =>
    let (m, decls) := m.takeImports u file.decls bindings
    let decls := Decl.withoutImports decls
    let plain := (Decl.collect decls).filter (·.2 ≠ .method)
    match m.resolveAll u plain ⟨decls, [], []⟩ with
    | .error (e, res) => (m.record res.decisions, some e)
    | .ok res =>
      let methods := (Decl.collect res.decls).filter (·.2 = .method)
      match m.resolveAll u methods res with
      | .error (e, res) => (m.record res.decisions, some e)
      | .ok res =>
        match widenAll u res.widenings m res with
        | .error (e, m, res) => (m.record res.decisions, some e)
        | .ok (m, res) => ((m.record res.decisions).append res.decls, none)

/-- The next unit. The tag is appended to the names that the unit gives up, and may not be empty. -/
def merge (m : Merger) (file : SourceFile) (tag : String) : Merger × Option MergeError :=
  let index := m.units
  let m := { m with units := index + 1 }
  if tag.isEmpty then (m, some (.ofFault (.missingTag index)))
  else
    let (m, error) := m.mergeTagged ⟨index, tag⟩ file
    (m, error.map (·.inUnit index tag))

/-- The accumulated file, with the imports in front of everything else. -/
def finish (m : Merger) : SourceFile :=
  match m.importGroup with
  | none => ⟨m.package, m.decls⟩
  | some i =>
    match m.decls[i]? with
    | some group => ⟨m.package, group :: m.decls.eraseIdx i⟩
    | none => ⟨m.package, m.decls⟩

/-- Units in turn, up to the first that fails. -/
def mergeEach (m : Merger) : List (SourceFile × String) → Merger × Option MergeError
  | [] => (m, none)
  | (file, tag) :: units =>
    match m.merge file tag with
    | (m, some e) => (m, some e)
    | (m, none) => mergeEach m units

end Merger

/-- Why nothing at all is merged: there is no unit, or a unit has no tag. -/
def unitsFault? (units : List (SourceFile × String)) : Option Fault :=
  if units.isEmpty then some .noUnits else (units.findIdx? (·.2.isEmpty)).map .missingTag

/-- The units merged into one file of a package. -/
def mergeAll (package : String) (units : List (SourceFile × String)) :
    Merger × Option MergeError :=
  match unitsFault? units with
  | some fault => (.start package, some (.ofFault fault))
  | none => (Merger.start package).mergeEach units

end GoWeave
