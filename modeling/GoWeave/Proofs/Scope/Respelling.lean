import GoWeave.Proofs.Scope.Outline

/-!
# Respelling

A respelling gives each referring identifier of a tree a new spelling, which may depend on its place
and its name. All else in the tree stays, the binding identifiers included.
-/
namespace GoWeave

mutual

/-- The tree with its places counted from `start`. -/
def Expr.respell (f : Nat → String → String) (start : Nat) : Expr → Expr
  | .bad node => .bad node
  | .ident name => .ident (f start name)
  | .ellipsis elt => .ellipsis (Expr.respellOpt f start elt)
  | .literal value => .literal value
  | .funcLit sig body =>
    .funcLit (sig.respell f start) (Stmt.respellAll f (start + sig.outline.places) body)
  | .composite ty elts incomplete =>
    .composite (Expr.respellOpt f start ty)
      (Expr.respellElements f (start + (Expr.outlineOpt ty).places) (Expr.hasValueKeys ty) elts)
      incomplete
  | .paren x => .paren (x.respell f start)
  | .selector x sel => .selector (x.respell f start) sel
  | .index x arg => .index (x.respell f start) (arg.respell f (start + x.outline.places))
  | .indexList x args =>
    .indexList (x.respell f start) (Expr.respellAll f (start + x.outline.places) args)
  | .slice x low high max three =>
    let low' := start + x.outline.places
    let high' := low' + (Expr.outlineOpt low).places
    .slice (x.respell f start) (Expr.respellOpt f low' low) (Expr.respellOpt f high' high)
      (Expr.respellOpt f (high' + (Expr.outlineOpt high).places) max) three
  | .typeAssert x ty =>
    .typeAssert (x.respell f start) (Expr.respellOpt f (start + x.outline.places) ty)
  | .call fn args spread =>
    .call (fn.respell f start) (Expr.respellAll f (start + fn.outline.places) args) spread
  | .star x => .star (x.respell f start)
  | .unary op x => .unary op (x.respell f start)
  | .binary op x y => .binary op (x.respell f start) (y.respell f (start + x.outline.places))
  | .keyValue key value =>
    .keyValue (key.respell f start) (value.respell f (start + key.outline.places))
  | .arrayType len elt =>
    .arrayType (Expr.respellOpt f start len) (elt.respell f (start + (Expr.outlineOpt len).places))
  | .structType fields incomplete => .structType (Field.respellAll f start fields) incomplete
  | .funcType sig => .funcType (sig.respell f start)
  | .interfaceType methods incomplete =>
    .interfaceType (Field.respellAll f start methods) incomplete
  | .mapType key value =>
    .mapType (key.respell f start) (value.respell f (start + key.outline.places))
  | .chanType dir value => .chanType dir (value.respell f start)

def Expr.respellOpt (f : Nat → String → String) (start : Nat) : Option Expr → Option Expr
  | none => none
  | some x => some (x.respell f start)

def Expr.respellAll (f : Nat → String → String) (start : Nat) : List Expr → List Expr
  | [] => []
  | x :: xs => x.respell f start :: Expr.respellAll f (start + x.outline.places) xs

/-- The elements of a composite literal. -/
def Expr.respellElements (f : Nat → String → String) (start : Nat) (valueKeys : Bool) :
    List Expr → List Expr
  | [] => []
  | .keyValue (.ident key) value :: xs =>
    let value' := start + (if valueKeys then 1 else 0)
    .keyValue (.ident (if valueKeys then f start key else key)) (value.respell f value') ::
      Expr.respellElements f (value' + value.outline.places) valueKeys xs
  | x :: xs =>
    x.respell f start :: Expr.respellElements f (start + x.outline.places) valueKeys xs

/-- A range variable: with `:=` a plain name binds and stays. -/
def Expr.respellRangeVar (f : Nat → String → String) (start : Nat) (tok : Option Token) :
    Option Expr → Option Expr
  | none => none
  | some (.ident name) => some (.ident (if tok = some .define then name else f start name))
  | some x => some (x.respell f start)

def Field.respell (f : Nat → String → String) (start : Nat) : Field → Field
  | ⟨names, ty, tag⟩ => ⟨names, ty.respell f start, tag⟩

def Field.respellAll (f : Nat → String → String) (start : Nat) : List Field → List Field
  | [] => []
  | x :: xs => x.respell f start :: Field.respellAll f (start + x.outline.places) xs

def Field.respellOpt (f : Nat → String → String) (start : Nat) :
    Option (List Field) → Option (List Field)
  | none => none
  | some fields => some (Field.respellAll f start fields)

def Signature.respell (f : Nat → String → String) (start : Nat) : Signature → Signature
  | ⟨typeParams, params, results⟩ =>
    let params' := start + (Field.outlineOpt typeParams).places
    ⟨Field.respellOpt f start typeParams, Field.respellAll f params' params,
      Field.respellOpt f (params' + (Field.outlineAll params).places) results⟩

def Stmt.respell (f : Nat → String → String) (start : Nat) : Stmt → Stmt
  | .bad node => .bad node
  | .decl ⟨tok, specs, grouped⟩ => .decl ⟨tok, Spec.respellLocal f start specs, grouped⟩
  | .empty => .empty
  | .labeled label s => .labeled label (s.respell f start)
  | .expr x => .expr (x.respell f start)
  | .send chan value =>
    .send (chan.respell f start) (value.respell f (start + chan.outline.places))
  | .incDec x tok => .incDec (x.respell f start) tok
  | .assign lhs tok rhs =>
    if tok = .define then .assign lhs tok (Expr.respellAll f start rhs)
    else
      .assign (Expr.respellAll f start lhs) tok
        (Expr.respellAll f (start + (Expr.outlineAll lhs).places) rhs)
  | .goCall x => .goCall (x.respell f start)
  | .deferCall x => .deferCall (x.respell f start)
  | .ret results => .ret (Expr.respellAll f start results)
  | .branch tok label => .branch tok label
  | .block list => .block (Stmt.respellAll f start list)
  | .ifElse init cond body orElse =>
    let cond' := start + (Stmt.outlineOpt init).places
    let body' := cond' + cond.outline.places
    .ifElse (Stmt.respellOpt f start init) (cond.respell f cond') (Stmt.respellAll f body' body)
      (Stmt.respellOpt f (body' + (Stmt.outlineAll body).places) orElse)
  | .switch init tag body =>
    let tag' := start + (Stmt.outlineOpt init).places
    .switch (Stmt.respellOpt f start init) (Expr.respellOpt f tag' tag)
      (Clause.respellAll f (tag' + (Expr.outlineOpt tag).places) body)
  | .typeSwitch init guard body =>
    let guard' := start + (Stmt.outlineOpt init).places
    .typeSwitch (Stmt.respellOpt f start init)
      (match guard with
        | .assign lhs tok rhs => .assign lhs tok (Expr.respellAll f guard' rhs)
        | guard => guard.respell f guard')
      (Clause.respellAll f (guard' + guard.outlineGuard.places) body)
  | .loop init cond post body =>
    let cond' := start + (Stmt.outlineOpt init).places
    let post' := cond' + (Expr.outlineOpt cond).places
    .loop (Stmt.respellOpt f start init) (Expr.respellOpt f cond' cond)
      (Stmt.respellOpt f post' post)
      (Stmt.respellAll f (post' + (Stmt.outlineOpt post).places) body)
  | .range key value tok x body =>
    let key' := start + x.outline.places
    let value' := key' + (Expr.outlineRangeVar tok key).places
    .range (Expr.respellRangeVar f key' tok key) (Expr.respellRangeVar f value' tok value) tok
      (x.respell f start)
      (Stmt.respellAll f (value' + (Expr.outlineRangeVar tok value).places) body)

def Stmt.respellOpt (f : Nat → String → String) (start : Nat) : Option Stmt → Option Stmt
  | none => none
  | some s => some (s.respell f start)

def Stmt.respellAll (f : Nat → String → String) (start : Nat) : List Stmt → List Stmt
  | [] => []
  | s :: ss => s.respell f start :: Stmt.respellAll f (start + s.outline.places) ss

def Clause.respell (f : Nat → String → String) (start : Nat) : Clause → Clause
  | .matching list body =>
    .matching (Expr.respellAll f start list)
      (Stmt.respellAll f (start + (Expr.outlineAll list).places) body)
  | .otherwise body => .otherwise (Stmt.respellAll f start body)

def Clause.respellAll (f : Nat → String → String) (start : Nat) : List Clause → List Clause
  | [] => []
  | c :: cs => c.respell f start :: Clause.respellAll f (start + (c.outline []).places) cs

def Spec.respellLocal (f : Nat → String → String) (start : Nat) : List Spec → List Spec
  | [] => []
  | .imported spec :: ss => .imported spec :: Spec.respellLocal f start ss
  | .value ⟨names, ty, values⟩ :: ss =>
    let values' := start + (Expr.outlineOpt ty).places
    .value ⟨names, Expr.respellOpt f start ty, Expr.respellAll f values' values⟩ ::
      Spec.respellLocal f (values' + (Expr.outlineAll values).places) ss
  | .type ⟨name, typeParams, isAlias, ty⟩ :: ss =>
    let ty' := start + (Field.outlineOpt typeParams).places
    .type ⟨name, Field.respellOpt f start typeParams, isAlias, ty.respell f ty'⟩ ::
      Spec.respellLocal f (ty' + ty.outline.places) ss

end

/-- The guard of a type switch. -/
def Stmt.respellGuard (f : Nat → String → String) (start : Nat) : Stmt → Stmt
  | .assign lhs tok rhs => .assign lhs tok (Expr.respellAll f start rhs)
  | guard => guard.respell f start

theorem Stmt.respell_typeSwitch (f : Nat → String → String) (start : Nat) (init : Option Stmt)
    (guard : Stmt) (body : List Clause) :
    (Stmt.typeSwitch init guard body).respell f start =
      .typeSwitch (Stmt.respellOpt f start init)
        (guard.respellGuard f (start + (Stmt.outlineOpt init).places))
        (Clause.respellAll f
          (start + (Stmt.outlineOpt init).places + guard.outlineGuard.places) body) := by
  unfold Stmt.respell
  rfl

/-! ## Declarations -/

/-- A type argument of a receiver. A plain name there stays. -/
def Expr.respellArg (f : Nat → String → String) (start : Nat) : Expr → Expr
  | .ident name => .ident name
  | x => x.respell f start

def Expr.respellArgs (f : Nat → String → String) (start : Nat) : List Expr → List Expr
  | [] => []
  | x :: xs => x.respellArg f start :: Expr.respellArgs f (start + x.outlineArg.places) xs

/-- The type of a receiver. -/
def Expr.respellReceiver (f : Nat → String → String) (start : Nat) : Expr → Expr
  | .star (.index x arg) =>
    .star (.index (x.respell f start) (arg.respellArg f (start + x.outline.places)))
  | .star (.indexList x args) =>
    .star (.indexList (x.respell f start) (Expr.respellArgs f (start + x.outline.places) args))
  | .index x arg => .index (x.respell f start) (arg.respellArg f (start + x.outline.places))
  | .indexList x args =>
    .indexList (x.respell f start) (Expr.respellArgs f (start + x.outline.places) args)
  | x => x.respell f start

def Field.respellReceivers (f : Nat → String → String) (start : Nat) : List Field → List Field
  | [] => []
  | x :: xs =>
    ⟨x.names, x.ty.respellReceiver f start, x.tag⟩ ::
      Field.respellReceivers f (start + x.ty.outlineReceiver.places) xs

def ValueSpec.respell (f : Nat → String → String) (start : Nat) (spec : ValueSpec) : ValueSpec :=
  let ty' := start + spec.names.length
  ⟨(spec.names.zipIdx start).map fun p => f p.2 p.1, Expr.respellOpt f ty' spec.ty,
    Expr.respellAll f (ty' + (Expr.outlineOpt spec.ty).places) spec.values⟩

def TypeSpec.respell (f : Nat → String → String) (start : Nat) (spec : TypeSpec) : TypeSpec :=
  ⟨f start spec.name, Field.respellOpt f (start + 1) spec.typeParams, spec.isAlias,
    spec.ty.respell f (start + 1 + (Field.outlineOpt spec.typeParams).places)⟩

def Spec.respell (f : Nat → String → String) (start : Nat) : Spec → Spec
  | .imported spec => .imported spec
  | .value spec => .value (spec.respell f start)
  | .type spec => .type (spec.respell f start)

def Spec.respellAll (f : Nat → String → String) (start : Nat) : List Spec → List Spec
  | [] => []
  | s :: ss => s.respell f start :: Spec.respellAll f (start + s.outline.places) ss

/-- The signature and the body of a function. -/
def FuncDecl.respellRest (f : Nat → String → String) (start : Nat) (fn : FuncDecl) :
    Signature × Option (List Stmt) :=
  let params' := start + (Field.outlineOpt fn.sig.typeParams).places
  let results' := params' + (Field.outlineAll fn.sig.params).places
  (⟨Field.respellOpt f start fn.sig.typeParams, Field.respellAll f params' fn.sig.params,
      Field.respellOpt f results' fn.sig.results⟩,
    fn.body.map (Stmt.respellAll f (results' + (Field.outlineOpt fn.sig.results).places)))

def FuncDecl.respell (f : Nat → String → String) (start : Nat) (fn : FuncDecl) : FuncDecl :=
  let name' := start + fn.outlineReceiver.places
  let rest := fn.respellRest f (name' + fn.outlineName.places)
  { recv := fn.recv.map (Field.respellReceivers f start)
    name := if fn.recv.isSome then fn.name else f name' fn.name
    sig := rest.1
    body := rest.2 }

namespace Decl

def respell (f : Nat → String → String) (start : Nat) : Decl → Decl
  | .bad node => .bad node
  | .group g => .group { g with specs := Spec.respellAll f start g.specs }
  | .func fn => .func (fn.respell f start)

def respellFrom (f : Nat → String → String) (start : Nat) : List Decl → List Decl
  | [] => []
  | d :: ds => d.respell f start :: respellFrom f (start + d.outline.places) ds

/-- A list of top-level declarations with each referring identifier spelled anew, after its place
and its name. -/
def respellAll (f : Nat → String → String) (decls : List Decl) : List Decl :=
  respellFrom f 0 decls

end Decl

end GoWeave
