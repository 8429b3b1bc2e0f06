import GoWeave.Declaration
import GoWeave.Scope

/-!
# Removal of declarations

Removing a key takes exactly one name out of the declarations that bear it and leaves every other
name with its meaning.

In a variable spec the name goes with the initializer at its position. If the initializers cannot be
told apart, as in `var a, b = f()`, the name becomes blank instead, and the spec goes once all its
names are blank. In a group of constants every spec but the last fixes the `iota` of those after it,
and a spec without initializers repeats an earlier one; such a spec is pinned: it stays and the name
becomes blank. A group that has lost all its specs goes, as does a group of constants with only
blank names left.
-/
namespace GoWeave

namespace ValueSpec

/-- Whether each name has an initializer of its own. -/
def isPaired (v : ValueSpec) : Bool :=
  v.values.length == v.names.length

def allBlank (v : ValueSpec) : Bool :=
  v.names.all isBlank

/-- The spec without the name at a position. -/
def dropName (v : ValueSpec) (i : Nat) (pinned : Bool) : ValueSpec :=
  if !pinned && (v.isPaired || v.values.isEmpty) then
    ⟨v.names.eraseIdx i, v.ty, if v.isPaired then v.values.eraseIdx i else v.values⟩
  else { v with names := v.names.set i "_" }

end ValueSpec

namespace Spec

/-- Whether a spec declares a key. -/
def declares (key : String) (s : Spec) : Bool :=
  s.declared.contains key

/-- Whether the place of a spec in its group must be kept. -/
def isPinned (constants last : Bool) : Spec → Bool
  | .value v => constants && (!last || v.values.isEmpty)
  | _ => false

/-- What is left of a spec without a key. -/
def without (key : String) (pinned : Bool) : Spec → Option Spec
  | .imported spec => some (.imported spec)
  | .type t => if t.name = key then none else some (.type t)
  | .value v =>
    match v.names.idxOf? key with
    | none => some (.value v)
    | some i =>
      let v := v.dropName i pinned
      if pinned || !v.allBlank then some (.value v) else none

/-- What is left of the specs of a group. -/
def withoutAll (key : String) (constants : Bool) : List Spec → List Spec
  | [] => []
  | s :: ss =>
    (s.without key (s.isPinned constants ss.isEmpty)).toList ++ withoutAll key constants ss

def isValue : Spec → Bool
  | .value _ => true
  | _ => false

/-- Whether a spec declares blank names only. -/
def isBlankValue : Spec → Bool
  | .value v => v.allBlank
  | _ => false

end Spec

namespace DeclGroup

/-- What is left of a group without a key. -/
def without (key : String) (g : DeclGroup) : Option DeclGroup :=
  let constants := g.tok == .const
  let specs := Spec.withoutAll key constants g.specs
  let touched := g.specs.any fun s => s.isValue && s.declares key
  let blank := constants && touched && specs.all Spec.isBlankValue
  if !g.specs.isEmpty && (specs.isEmpty || blank) then none else some { g with specs }

end DeclGroup

namespace Decl

/-- What is left of a declaration without a key. -/
def without (key : String) : Decl → Option Decl
  | .bad node => some (.bad node)
  | .func f => if f.key? = some key then none else some (.func f)
  | .group g => if g.tok = .import_ then some (.group g) else (g.without key).map .group

/-- How many specs or functions of a declaration bear a key. -/
def bearers (key : String) : Decl → Nat
  | .bad _ => 0
  | .func f => if f.key? = some key then 1 else 0
  | .group g => if g.tok = .import_ then 0 else g.specs.countP (Spec.declares key)

/-- The declarations without a key. -/
def remove (key : String) (decls : List Decl) : List Decl :=
  decls.filterMap (without key)

/-- How many names a removal takes out. -/
def removeCount (key : String) (decls : List Decl) : Nat :=
  decls.foldr (fun d count => d.bearers key + count) 0

def isImport : Decl → Bool
  | .group g => g.tok == .import_
  | _ => false

/-- The declarations without the import groups. -/
def withoutImports (decls : List Decl) : List Decl :=
  decls.filter (!·.isImport)

end Decl

end GoWeave
