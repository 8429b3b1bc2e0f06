import GoWeave.Tree

/-!
# Scopes

Which names are bound locally at a place in a function or type declaration, after the block
structure of Go. A type parameter is bound in the whole signature, a parameter or result in the
body, a `:=` target or a local variable after its own statement or spec, and a local type from its
name on. Conditionals, loops, switches and clauses open a block of their own.

A statement that stands in no block binds nothing, since no later statement could see the binding.
-/
namespace GoWeave

/-- The names bound at a place, innermost first, and whether the place is inside a block. -/
structure Scope where
  nested : Bool
  locals : List String
  deriving Repr

namespace Scope

/-- The scope of a whole file, where nothing is local. -/
def root : Scope :=
  ⟨false, []⟩

/-- The scope just inside a new block. -/
def enter (sc : Scope) : Scope :=
  ⟨true, sc.locals⟩

def bind (sc : Scope) (names : List String) : Scope :=
  if sc.nested then ⟨true, names ++ sc.locals⟩ else sc

/-- Whether a name refers beyond the local bindings. -/
def isFree (sc : Scope) (name : String) : Bool :=
  !sc.locals.contains name

@[simp] theorem enter_locals (sc : Scope) : sc.enter.locals = sc.locals := rfl

@[simp] theorem bind_nil (sc : Scope) : sc.bind [] = sc := by
  cases sc with
  | mk nested locals => cases nested <;> rfl

@[simp] theorem isFree_root (name : String) : root.isFree name = true := rfl

end Scope

/-- The names that a list of fields declares. -/
def Field.declared (fields : List Field) : List String :=
  fields.flatMap (·.names)

def Expr.ident? : Expr → Option String
  | .ident name => some name
  | _ => none

/-- The names of a list of targets, leaving out targets that are not plain names. -/
def Expr.targets (xs : List Expr) : List String :=
  xs.filterMap Expr.ident?

/-- The type parameters that a receiver type introduces: `T` in `*List[T]`. Only one pointer is
looked through. -/
def Expr.receiverParams : Expr → List String
  | .star (.index _ arg) => arg.ident?.toList
  | .star (.indexList _ args) => targets args
  | .index _ arg => arg.ident?.toList
  | .indexList _ args => targets args
  | _ => []

namespace Signature

def typeParamNames (sig : Signature) : List String :=
  Field.declared (sig.typeParams.getD [])

/-- The parameters and results, which are bound in the body. -/
def bodyNames (sig : Signature) : List String :=
  Field.declared sig.params ++ Field.declared (sig.results.getD [])

end Signature

/-- The names that a spec declares. -/
def Spec.declared : Spec → List String
  | .imported _ => []
  | .value spec => spec.names
  | .type spec => [spec.name]

/-- The names that a statement binds for the statements after it. -/
def Stmt.binds : Stmt → List String
  | .decl g => g.specs.flatMap Spec.declared
  | .labeled _ s => s.binds
  | .assign lhs tok _ => if tok = .define then Expr.targets lhs else []
  | _ => []

def Stmt.bindsOpt : Option Stmt → List String
  | none => []
  | some s => s.binds

/-- The names that the guard of a type switch binds in front of the clauses. The guard
`x := v.(type)` binds nothing there, since `x` belongs to each clause. -/
def Stmt.guardBinds : Stmt → List String
  | .assign .. => []
  | s => s.binds

/-- The name that the guard of a type switch binds in the body of each clause. -/
def Stmt.guardName : Stmt → List String
  | .assign (.ident name :: _) _ _ => [name]
  | _ => []

/-- The name that a range variable binds. -/
def Expr.rangeBinds (tok : Option Token) : Option Expr → List String
  | some (.ident name) => if tok = some .define then [name] else []
  | _ => []

/-- Whether the keys of a composite literal of this type are values. In all other literals a plain
name in front of a colon may be a field. -/
def Expr.hasValueKeys : Option Expr → Bool
  | some (.mapType ..) => true
  | some (.arrayType ..) => true
  | _ => false

end GoWeave
