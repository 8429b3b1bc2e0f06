import GoWeave.Scope.Rename

/-!
# Free references

The references of a tree that no local binding captures, in source order and with repetitions.
These are the places that a renaming can change, so the number of times a name is listed is the
number of places a renaming of that name changes.
-/
namespace GoWeave

/-- A name as a reference at a place. -/
def Scope.reference (sc : Scope) (name : String) : List String :=
  if sc.isFree name then [name] else []

mutual

def Expr.free (sc : Scope) : Expr → List String
  | .bad _ => []
  | .ident name => sc.reference name
  | .ellipsis elt => Expr.freeOpt sc elt
  | .literal _ => []
  | .funcLit sig body =>
    let inner := sc.enter.bind sig.typeParamNames
    sig.free inner ++ Stmt.freeAll (inner.bind sig.bodyNames) body
  | .composite ty elts _ =>
    Expr.freeOpt sc ty ++ Expr.freeElements sc (Expr.hasValueKeys ty) elts
  | .paren x => x.free sc
  | .selector x _ => x.free sc
  | .index x arg => x.free sc ++ arg.free sc
  | .indexList x args => x.free sc ++ Expr.freeAll sc args
  | .slice x low high max _ =>
    x.free sc ++ Expr.freeOpt sc low ++ Expr.freeOpt sc high ++ Expr.freeOpt sc max
  | .typeAssert x ty => x.free sc ++ Expr.freeOpt sc ty
  | .call fn args _ => fn.free sc ++ Expr.freeAll sc args
  | .star x => x.free sc
  | .unary _ x => x.free sc
  | .binary _ x y => x.free sc ++ y.free sc
  | .keyValue key value => key.free sc ++ value.free sc
  | .arrayType len elt => Expr.freeOpt sc len ++ elt.free sc
  | .structType fields _ => Field.freeAll sc fields
  | .funcType sig => sig.free sc
  | .interfaceType methods _ => Field.freeAll sc methods
  | .mapType key value => key.free sc ++ value.free sc
  | .chanType _ value => value.free sc

def Expr.freeOpt (sc : Scope) : Option Expr → List String
  | none => []
  | some x => x.free sc

def Expr.freeAll (sc : Scope) : List Expr → List String
  | [] => []
  | x :: xs => x.free sc ++ Expr.freeAll sc xs

/-- The elements of a composite literal. -/
def Expr.freeElements (sc : Scope) (valueKeys : Bool) : List Expr → List String
  | [] => []
  | .keyValue (.ident key) value :: xs =>
    (if valueKeys then sc.reference key else []) ++ value.free sc ++
      Expr.freeElements sc valueKeys xs
  | x :: xs => x.free sc ++ Expr.freeElements sc valueKeys xs

/-- A range variable: with `:=` a plain name binds and is no reference. -/
def Expr.freeRangeVar (sc : Scope) (tok : Option Token) : Option Expr → List String
  | none => []
  | some (.ident name) => if tok = some .define then [] else sc.reference name
  | some x => x.free sc

def Field.free (sc : Scope) : Field → List String
  | ⟨_, ty, _⟩ => ty.free sc

def Field.freeAll (sc : Scope) : List Field → List String
  | [] => []
  | f :: fs => f.free sc ++ Field.freeAll sc fs

def Field.freeOpt (sc : Scope) : Option (List Field) → List String
  | none => []
  | some fields => Field.freeAll sc fields

def Signature.free (sc : Scope) : Signature → List String
  | ⟨typeParams, params, results⟩ =>
    Field.freeOpt sc typeParams ++ Field.freeAll sc params ++ Field.freeOpt sc results

def Stmt.free (sc : Scope) : Stmt → List String
  | .bad _ => []
  | .decl ⟨_, specs, _⟩ => Spec.freeLocal sc specs
  | .empty => []
  | .labeled _ s => s.free sc
  | .expr x => x.free sc
  | .send chan value => chan.free sc ++ value.free sc
  | .incDec x _ => x.free sc
  | .assign lhs tok rhs =>
    (if tok = .define then [] else Expr.freeAll sc lhs) ++ Expr.freeAll sc rhs
  | .goCall x => x.free sc
  | .deferCall x => x.free sc
  | .ret results => Expr.freeAll sc results
  | .branch .. => []
  | .block list => Stmt.freeAll sc.enter list
  | .ifElse init cond body orElse =>
    let inner := sc.enter.bind (Stmt.bindsOpt init)
    Stmt.freeOpt sc.enter init ++ cond.free inner ++ Stmt.freeAll inner.enter body ++
      Stmt.freeOpt inner orElse
  | .switch init tag body =>
    let inner := sc.enter.bind (Stmt.bindsOpt init)
    Stmt.freeOpt sc.enter init ++ Expr.freeOpt inner tag ++ Clause.freeAll inner [] body
  | .typeSwitch init guard body =>
    let inner := sc.enter.bind (Stmt.bindsOpt init)
    Stmt.freeOpt sc.enter init ++
      (match guard with
        | .assign _ _ rhs => Expr.freeAll inner rhs
        | guard => guard.free inner) ++
      Clause.freeAll (inner.bind guard.guardBinds) guard.guardName body
  | .loop init cond post body =>
    let inner := sc.enter.bind (Stmt.bindsOpt init)
    Stmt.freeOpt sc.enter init ++ Expr.freeOpt inner cond ++ Stmt.freeOpt inner post ++
      Stmt.freeAll (inner.bind (Stmt.bindsOpt post)).enter body
  | .range key value tok x body =>
    let keyed := sc.enter.bind (Expr.rangeBinds tok key)
    x.free sc ++ Expr.freeRangeVar sc.enter tok key ++ Expr.freeRangeVar keyed tok value ++
      Stmt.freeAll (keyed.bind (Expr.rangeBinds tok value)).enter body

def Stmt.freeOpt (sc : Scope) : Option Stmt → List String
  | none => []
  | some s => s.free sc

def Stmt.freeAll (sc : Scope) : List Stmt → List String
  | [] => []
  | s :: ss => s.free sc ++ Stmt.freeAll (sc.bind s.binds) ss

/-- A clause whose body sees the names `bound` besides the enclosing ones. -/
def Clause.free (sc : Scope) (bound : List String) : Clause → List String
  | .matching list body => Expr.freeAll sc.enter list ++ Stmt.freeAll (sc.enter.bind bound) body
  | .otherwise body => Stmt.freeAll (sc.enter.bind bound) body

def Clause.freeAll (sc : Scope) (bound : List String) : List Clause → List String
  | [] => []
  | c :: cs => c.free sc bound ++ Clause.freeAll sc bound cs

def Spec.freeLocal (sc : Scope) : List Spec → List String
  | [] => []
  | .imported _ :: ss => Spec.freeLocal sc ss
  | .value ⟨names, ty, values⟩ :: ss =>
    Expr.freeOpt sc ty ++ Expr.freeAll sc values ++ Spec.freeLocal (sc.bind names) ss
  | .type ⟨name, typeParams, _, ty⟩ :: ss =>
    let inner := sc.bind [name]
    Field.freeOpt inner typeParams ++ ty.free inner ++ Spec.freeLocal inner ss

end

def ValueSpec.free (sc : Scope) (spec : ValueSpec) : List String :=
  spec.names.flatMap sc.reference ++ Expr.freeOpt sc spec.ty ++ Expr.freeAll sc spec.values

def TypeSpec.free (sc : Scope) (spec : TypeSpec) : List String :=
  let inner := sc.enter.bind (Field.declared (spec.typeParams.getD []))
  sc.reference spec.name ++ Field.freeOpt inner spec.typeParams ++ spec.ty.free inner

def Spec.free (sc : Scope) : Spec → List String
  | .imported _ => []
  | .value spec => spec.free sc
  | .type spec => spec.free sc

def DeclGroup.free (sc : Scope) (g : DeclGroup) : List String :=
  g.specs.flatMap (Spec.free sc)

def FuncDecl.free (sc : Scope) (f : FuncDecl) : List String :=
  (if f.recv.isSome then [] else sc.reference f.name) ++
    Field.freeOpt (f.paramScope sc) f.sig.typeParams ++
    Field.freeOpt (f.signatureScope sc) f.recv ++
    Field.freeAll (f.signatureScope sc) f.sig.params ++
    Field.freeOpt (f.signatureScope sc) f.sig.results ++
    match f.body with
    | some body => Stmt.freeAll (f.bodyScope sc) body
    | none => []

/-- The free references of a subtree taken by itself. -/
def Node.free : Node → List String
  | expr x => x.free .root
  | stmt s => s.free .root
  | block list => Stmt.freeAll Scope.root.enter list
  | func f => f.free .root
  | group g => g.free .root
  | typeSpec spec => spec.free .root
  | valueSpec spec => spec.free .root
  | fields list => Field.freeAll .root list

namespace Decl

def free : Decl → List String
  | .bad _ => []
  | .group g => g.free .root
  | .func f => f.free .root

/-- The free references of a list of top-level declarations. -/
def freeAll (decls : List Decl) : List String :=
  decls.flatMap Decl.free

/-- How many references a renaming changes. -/
def renameCount (r : Renaming) (decls : List Decl) : Nat :=
  (freeAll decls).count r.old

end Decl

end GoWeave
