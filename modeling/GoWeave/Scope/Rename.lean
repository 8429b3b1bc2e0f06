import GoWeave.Scope

/-!
# Renaming

A renaming changes every reference to one top-level name. A reference is an identifier that is not
bound locally at its place, or the name of a top-level type, value or plain function. The names of
fields, methods and selected members, labels, import specs and plain keys of struct literals are no
references, and neither are the targets of `:=`, which bind.

The scope is passed down to each place, so what is renamed at a place depends only on the bindings
in force there.
-/
namespace GoWeave

/-- The name to replace and its replacement. -/
structure Renaming where
  old : String
  new : String
  deriving DecidableEq, Repr

/-- The spelling of a reference after the renaming. -/
def Renaming.apply (r : Renaming) (sc : Scope) (name : String) : String :=
  if name = r.old ∧ sc.isFree name then r.new else name

mutual

def Expr.rename (r : Renaming) (sc : Scope) : Expr → Expr
  | .bad node => .bad node
  | .ident name => .ident (r.apply sc name)
  | .ellipsis elt => .ellipsis (Expr.renameOpt r sc elt)
  | .literal value => .literal value
  | .funcLit sig body =>
    let inner := sc.enter.bind sig.typeParamNames
    .funcLit (sig.rename r inner) (Stmt.renameAll r (inner.bind sig.bodyNames) body)
  | .composite ty elts incomplete =>
    .composite (Expr.renameOpt r sc ty) (Expr.renameElements r sc (Expr.hasValueKeys ty) elts)
      incomplete
  | .paren x => .paren (x.rename r sc)
  | .selector x sel => .selector (x.rename r sc) sel
  | .index x arg => .index (x.rename r sc) (arg.rename r sc)
  | .indexList x args => .indexList (x.rename r sc) (Expr.renameAll r sc args)
  | .slice x low high max three =>
    .slice (x.rename r sc) (Expr.renameOpt r sc low) (Expr.renameOpt r sc high)
      (Expr.renameOpt r sc max) three
  | .typeAssert x ty => .typeAssert (x.rename r sc) (Expr.renameOpt r sc ty)
  | .call fn args spread => .call (fn.rename r sc) (Expr.renameAll r sc args) spread
  | .star x => .star (x.rename r sc)
  | .unary op x => .unary op (x.rename r sc)
  | .binary op x y => .binary op (x.rename r sc) (y.rename r sc)
  | .keyValue key value => .keyValue (key.rename r sc) (value.rename r sc)
  | .arrayType len elt => .arrayType (Expr.renameOpt r sc len) (elt.rename r sc)
  | .structType fields incomplete => .structType (Field.renameAll r sc fields) incomplete
  | .funcType sig => .funcType (sig.rename r sc)
  | .interfaceType methods incomplete => .interfaceType (Field.renameAll r sc methods) incomplete
  | .mapType key value => .mapType (key.rename r sc) (value.rename r sc)
  | .chanType dir value => .chanType dir (value.rename r sc)

def Expr.renameOpt (r : Renaming) (sc : Scope) : Option Expr → Option Expr
  | none => none
  | some x => some (x.rename r sc)

def Expr.renameAll (r : Renaming) (sc : Scope) : List Expr → List Expr
  | [] => []
  | x :: xs => x.rename r sc :: Expr.renameAll r sc xs

/-- The elements of a composite literal. -/
def Expr.renameElements (r : Renaming) (sc : Scope) (valueKeys : Bool) : List Expr → List Expr
  | [] => []
  | .keyValue (.ident key) value :: xs =>
    .keyValue (.ident (if valueKeys then r.apply sc key else key)) (value.rename r sc) ::
      Expr.renameElements r sc valueKeys xs
  | x :: xs => x.rename r sc :: Expr.renameElements r sc valueKeys xs

/-- A range variable: with `:=` a plain name binds and stays. -/
def Expr.renameRangeVar (r : Renaming) (sc : Scope) (tok : Option Token) :
    Option Expr → Option Expr
  | none => none
  | some (.ident name) => some (.ident (if tok = some .define then name else r.apply sc name))
  | some x => some (x.rename r sc)

def Field.rename (r : Renaming) (sc : Scope) : Field → Field
  | ⟨names, ty, tag⟩ => ⟨names, ty.rename r sc, tag⟩

def Field.renameAll (r : Renaming) (sc : Scope) : List Field → List Field
  | [] => []
  | f :: fs => f.rename r sc :: Field.renameAll r sc fs

def Field.renameOpt (r : Renaming) (sc : Scope) : Option (List Field) → Option (List Field)
  | none => none
  | some fields => some (Field.renameAll r sc fields)

def Signature.rename (r : Renaming) (sc : Scope) : Signature → Signature
  | ⟨typeParams, params, results⟩ =>
    ⟨Field.renameOpt r sc typeParams, Field.renameAll r sc params, Field.renameOpt r sc results⟩

def Stmt.rename (r : Renaming) (sc : Scope) : Stmt → Stmt
  | .bad node => .bad node
  | .decl ⟨tok, specs, grouped⟩ => .decl ⟨tok, Spec.renameLocal r sc specs, grouped⟩
  | .empty => .empty
  | .labeled label s => .labeled label (s.rename r sc)
  | .expr x => .expr (x.rename r sc)
  | .send chan value => .send (chan.rename r sc) (value.rename r sc)
  | .incDec x tok => .incDec (x.rename r sc) tok
  | .assign lhs tok rhs =>
    .assign (if tok = .define then lhs else Expr.renameAll r sc lhs) tok (Expr.renameAll r sc rhs)
  | .goCall x => .goCall (x.rename r sc)
  | .deferCall x => .deferCall (x.rename r sc)
  | .ret results => .ret (Expr.renameAll r sc results)
  | .branch tok label => .branch tok label
  | .block list => .block (Stmt.renameAll r sc.enter list)
  | .ifElse init cond body orElse =>
    let inner := sc.enter.bind (Stmt.bindsOpt init)
    .ifElse (Stmt.renameOpt r sc.enter init) (cond.rename r inner)
      (Stmt.renameAll r inner.enter body) (Stmt.renameOpt r inner orElse)
  | .switch init tag body =>
    let inner := sc.enter.bind (Stmt.bindsOpt init)
    .switch (Stmt.renameOpt r sc.enter init) (Expr.renameOpt r inner tag)
      (Clause.renameAll r inner [] body)
  | .typeSwitch init guard body =>
    let inner := sc.enter.bind (Stmt.bindsOpt init)
    .typeSwitch (Stmt.renameOpt r sc.enter init)
      (match guard with
        | .assign lhs tok rhs => .assign lhs tok (Expr.renameAll r inner rhs)
        | guard => guard.rename r inner)
      (Clause.renameAll r (inner.bind guard.guardBinds) guard.guardName body)
  | .loop init cond post body =>
    let inner := sc.enter.bind (Stmt.bindsOpt init)
    .loop (Stmt.renameOpt r sc.enter init) (Expr.renameOpt r inner cond)
      (Stmt.renameOpt r inner post)
      (Stmt.renameAll r (inner.bind (Stmt.bindsOpt post)).enter body)
  | .range key value tok x body =>
    let keyed := sc.enter.bind (Expr.rangeBinds tok key)
    .range (Expr.renameRangeVar r sc.enter tok key) (Expr.renameRangeVar r keyed tok value) tok
      (x.rename r sc)
      (Stmt.renameAll r (keyed.bind (Expr.rangeBinds tok value)).enter body)

def Stmt.renameOpt (r : Renaming) (sc : Scope) : Option Stmt → Option Stmt
  | none => none
  | some s => some (s.rename r sc)

/-- A statement list; what a statement binds is in force in the statements after it. -/
def Stmt.renameAll (r : Renaming) (sc : Scope) : List Stmt → List Stmt
  | [] => []
  | s :: ss => s.rename r sc :: Stmt.renameAll r (sc.bind s.binds) ss

/-- A clause whose body sees the names `bound` besides the enclosing ones. -/
def Clause.rename (r : Renaming) (sc : Scope) (bound : List String) : Clause → Clause
  | .matching list body =>
    .matching (Expr.renameAll r sc.enter list) (Stmt.renameAll r (sc.enter.bind bound) body)
  | .otherwise body => .otherwise (Stmt.renameAll r (sc.enter.bind bound) body)

def Clause.renameAll (r : Renaming) (sc : Scope) (bound : List String) : List Clause → List Clause
  | [] => []
  | c :: cs => c.rename r sc bound :: Clause.renameAll r sc bound cs

/-- The specs of a local declaration. A value is bound after its spec, a type from its name on. -/
def Spec.renameLocal (r : Renaming) (sc : Scope) : List Spec → List Spec
  | [] => []
  | .imported spec :: ss => .imported spec :: Spec.renameLocal r sc ss
  | .value ⟨names, ty, values⟩ :: ss =>
    .value ⟨names, Expr.renameOpt r sc ty, Expr.renameAll r sc values⟩ ::
      Spec.renameLocal r (sc.bind names) ss
  | .type ⟨name, typeParams, isAlias, ty⟩ :: ss =>
    let inner := sc.bind [name]
    .type ⟨name, Field.renameOpt r inner typeParams, isAlias, ty.rename r inner⟩ ::
      Spec.renameLocal r inner ss

end

/-- A top-level value spec, whose names are references of their own. -/
def ValueSpec.rename (r : Renaming) (sc : Scope) (spec : ValueSpec) : ValueSpec :=
  ⟨spec.names.map (r.apply sc), Expr.renameOpt r sc spec.ty, Expr.renameAll r sc spec.values⟩

/-- A top-level type spec, in which the type parameters are local. -/
def TypeSpec.rename (r : Renaming) (sc : Scope) (spec : TypeSpec) : TypeSpec :=
  let inner := sc.enter.bind (Field.declared (spec.typeParams.getD []))
  ⟨r.apply sc spec.name, Field.renameOpt r inner spec.typeParams, spec.isAlias,
    spec.ty.rename r inner⟩

def Spec.rename (r : Renaming) (sc : Scope) : Spec → Spec
  | .imported spec => .imported spec
  | .value spec => .value (spec.rename r sc)
  | .type spec => .type (spec.rename r sc)

def DeclGroup.rename (r : Renaming) (sc : Scope) (g : DeclGroup) : DeclGroup :=
  { g with specs := g.specs.map (Spec.rename r sc) }

namespace FuncDecl

/-- The scope of a function's type parameters. -/
def paramScope (sc : Scope) (f : FuncDecl) : Scope :=
  sc.enter.bind f.sig.typeParamNames

/-- The scope of a receiver, of parameters and of results, in which the type parameters that the
receiver introduces are bound as well. -/
def signatureScope (sc : Scope) (f : FuncDecl) : Scope :=
  (f.paramScope sc).bind ((f.recv.getD []).flatMap (·.ty.receiverParams))

def bodyScope (sc : Scope) (f : FuncDecl) : Scope :=
  (f.signatureScope sc).bind (Field.declared (f.recv.getD []) ++ f.sig.bodyNames)

/-- A function keeps its name if it is a method. -/
def rename (r : Renaming) (sc : Scope) (f : FuncDecl) : FuncDecl where
  recv := Field.renameOpt r (f.signatureScope sc) f.recv
  name := if f.recv.isSome then f.name else r.apply sc f.name
  sig :=
    ⟨Field.renameOpt r (f.paramScope sc) f.sig.typeParams,
      Field.renameAll r (f.signatureScope sc) f.sig.params,
      Field.renameOpt r (f.signatureScope sc) f.sig.results⟩
  body := f.body.map (Stmt.renameAll r (f.bodyScope sc))

end FuncDecl

/-- A subtree taken by itself, outside any block. -/
def Node.rename (r : Renaming) : Node → Node
  | expr x => expr (x.rename r .root)
  | stmt s => stmt (s.rename r .root)
  | block list => block (Stmt.renameAll r Scope.root.enter list)
  | func f => func (f.rename r .root)
  | group g => group (g.rename r .root)
  | typeSpec spec => typeSpec (spec.rename r .root)
  | valueSpec spec => valueSpec (spec.rename r .root)
  | fields list => fields (Field.renameAll r .root list)

namespace Decl

def rename (r : Renaming) : Decl → Decl
  | .bad node => .bad node
  | .group g => .group (g.rename r .root)
  | .func f => .func (f.rename r .root)

/-- The renaming of a name throughout a list of top-level declarations. -/
def renameAll (r : Renaming) (decls : List Decl) : List Decl :=
  decls.map (Decl.rename r)

end Decl

end GoWeave
