import GoWeave.Equivalence
import GoWeave.Tree.Mention

/-!
# Keyed declarations

Every top-level type, value, function and method has a key, by which declarations of different
units meet: its name, or `Type.Method` for a method, with pointers and type arguments of the
receiver stripped. A value spec has one key per name. Functions named `init` and blank names may
repeat and have no key.

A `Slot` says where a keyed declaration stands in a list of declarations, and `Declared` is the
declaration found there, reduced to the one name of its key.
-/
namespace GoWeave

inductive DeclKind where
  | type | const | var | func | method
  deriving DecidableEq, Repr

/-- The position of a keyed declaration in a list of declarations. -/
inductive Slot where
  | func (decl : Nat)
  | type (decl spec : Nat)
  | value (decl spec name : Nat)
  deriving DecidableEq, Repr

/-- One keyed declaration. -/
inductive Declared where
  | func (f : FuncDecl)
  | type (spec : TypeSpec)
  /-- One name of a value spec. It comes with its own initializer, or with all of them if they
  cannot be told apart; a constant without initializer has the type and initializers that it
  repeats. `iota` is the position in a group of constants if the initializers depend on it. -/
  | value (tok : Token) (spec : ValueSpec) (iota : Option Nat)

namespace Declared

def node : Declared → Node
  | func f => .func f
  | type spec => .typeSpec spec
  | value _ spec _ => .valueSpec spec

def isStruct : Declared → Bool
  | type spec => spec.ty.isStructType
  | _ => false

def isInterface : Declared → Bool
  | type spec => spec.ty.isInterfaceType
  | _ => false

end Declared

/-- The key of a function or method. -/
def FuncDecl.key? (f : FuncDecl) : Option String :=
  if isBlank f.name then none
  else
    match f.recv with
    | none => if f.name = "init" then none else some f.name
    | some _ => f.receiverName?.map fun recv => recv ++ "." ++ f.name

/-! ## Listing -/

/-- The keys of a spec with their slots. -/
def Spec.slots (decl spec : Nat) : Spec → List (String × Slot)
  | .imported _ => []
  | .type t => if isBlank t.name then [] else [(t.name, .type decl spec)]
  | .value v =>
    v.names.zipIdx.filterMap fun (name, i) =>
      if isBlank name then none else some (name, .value decl spec i)

namespace Decl

/-- The keys of a declaration at an index, with their slots. -/
def slots (decl : Nat) : Decl → List (String × Slot)
  | .bad _ => []
  | .func f => f.key?.toList.map fun key => (key, .func decl)
  | .group g =>
    if g.tok = .import_ then []
    else g.specs.zipIdx.flatMap fun (spec, i) => spec.slots decl i

/-- The keys of a list of declarations whose first has the given index. -/
def slotsFrom (decl : Nat) : List Decl → List (String × Slot)
  | [] => []
  | d :: ds => d.slots decl ++ slotsFrom (decl + 1) ds

/-- The keys of the declarations from index `start` up to, but not including, index `stop`. -/
def slotsIn (decls : List Decl) (start stop : Nat) : List (String × Slot) :=
  slotsFrom start ((decls.take stop).drop start)

end Decl

/-- What the values and types of a group are. -/
def DeclKind.ofToken? : Token → Option DeclKind
  | .type => some .type
  | .const => some .const
  | .var => some .var
  | _ => none

/-- The names of a spec that are keys. -/
def Spec.keyNames : Spec → List String
  | .imported _ => []
  | .type t => if isBlank t.name then [] else [t.name]
  | .value v => v.names.filter (!isBlank ·)

namespace Decl

/-- The keys of a declaration with their kinds. -/
def entries : Decl → List (String × DeclKind)
  | .bad _ => []
  | .func f => f.key?.toList.map fun key => (key, if f.recv.isSome then .method else .func)
  | .group g =>
    match DeclKind.ofToken? g.tok with
    | none => []
    | some kind => g.specs.flatMap fun spec => spec.keyNames.map fun key => (key, kind)

/-- The entries whose key has not been seen before. -/
def firstOfKey (seen : List String) : List (String × DeclKind) → List (String × DeclKind)
  | [] => []
  | e :: es =>
    if seen.contains e.1 then firstOfKey seen es else e :: firstOfKey (e.1 :: seen) es

/-- The keyed declarations in source order, each key once. -/
def collect (decls : List Decl) : List (String × DeclKind) :=
  firstOfKey [] (decls.flatMap entries)

end Decl

/-! ## Look-up -/

/-- The slot of a name in a spec, blank names included. -/
def Spec.locate? (key : String) (decl spec : Nat) : Spec → Option Slot
  | .imported _ => none
  | .type t => if t.name = key then some (.type decl spec) else none
  | .value v => (v.names.idxOf? key).map fun i => .value decl spec i

namespace Decl

def locateIn? (key : String) (decl : Nat) : Decl → Option Slot
  | .bad _ => none
  | .func f => if f.key? = some key then some (.func decl) else none
  | .group g =>
    if g.tok = .import_ then none
    else g.specs.zipIdx.findSome? fun (spec, i) => spec.locate? key decl i

/-- The first declaration with a key. -/
def locate? (decls : List Decl) (key : String) : Option Slot :=
  decls.zipIdx.findSome? fun (d, i) => d.locateIn? key i

end Decl

namespace DeclGroup

/-- The type and initializers of the last spec before an index that has initializers. -/
def repeated (g : DeclGroup) (spec : Nat) : Option Expr × List Expr :=
  let found := (g.specs.take spec).reverse.findSome? fun
    | .value v => if v.values.isEmpty then none else some (v.ty, v.values)
    | _ => none
  found.getD (none, [])

/-- The declaration of one name of a value spec. -/
def declaredValue (g : DeclGroup) (spec : Nat) (v : ValueSpec) (i : Nat) (name : String) :
    Declared :=
  let constant := g.tok = .const
  let (ty, source) := if constant ∧ v.values.isEmpty then g.repeated spec else (v.ty, v.values)
  let values :=
    if source.length = v.names.length then
      match source[i]? with
      | some value => [value]
      | none => source
    else source
  .value g.tok ⟨[name], ty, values⟩
    (if constant ∧ Expr.anyMentions "iota" values then some spec else none)

end DeclGroup

namespace Decl

/-- The spec of a group at an index, if it is a type spec. -/
def typeSpecAt? (decls : List Decl) (decl spec : Nat) : Option TypeSpec :=
  match decls[decl]? with
  | some (.group g) =>
    match g.specs[spec]? with
    | some (.type t) => some t
    | _ => none
  | _ => none

/-- The declaration at a slot. -/
def snapshot? (decls : List Decl) : Slot → Option Declared
  | .func decl =>
    match decls[decl]? with
    | some (.func f) => some (.func f)
    | _ => none
  | .type decl spec => (typeSpecAt? decls decl spec).map .type
  | .value decl spec name =>
    match decls[decl]? with
    | some (.group g) =>
      match g.specs[spec]? with
      | some (.value v) => v.names[name]?.map (g.declaredValue spec v name)
      | _ => none
    | _ => none

/-- The type spec at a slot of a type. -/
def typeSpec? (decls : List Decl) : Slot → Option TypeSpec
  | .type decl spec => typeSpecAt? decls decl spec
  | _ => none

/-- The declarations with the type spec at a slot changed. -/
def modifyTypeSpec (decls : List Decl) (slot : Slot) (f : TypeSpec → TypeSpec) : List Decl :=
  match slot with
  | .type decl spec =>
    decls.modify decl fun
      | .group g =>
        .group { g with
          specs := g.specs.modify spec fun
            | .type t => .type (f t)
            | s => s }
      | d => d
  | _ => decls

end Decl

end GoWeave
