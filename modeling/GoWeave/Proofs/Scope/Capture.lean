import GoWeave.Proofs.Scope.Declarations

/-!
# Renaming without capture

A renaming does not look at what its new name is bound to. Where some parameter or local bears the
new name, a renamed reference may come to stand for it. Where none does, no reference is gained or
lost: the references of the renamed tree are those of the tree, place by place, each spelled under
the renaming.
-/
namespace GoWeave

/-! ## Bound names -/

mutual

/-- The names that are bound somewhere in a tree: parameters and results of function literals,
local declarations, range variables and the guards of type switches. -/
def Expr.bound : Expr → List String
  | .bad _ => []
  | .ident _ => []
  | .ellipsis elt => Expr.boundOpt elt
  | .literal _ => []
  | .funcLit sig body =>
    sig.typeParamNames ++ (sig.bodyNames ++ (sig.bound ++ Stmt.boundAll body))
  | .composite ty elts _ => Expr.boundOpt ty ++ Expr.boundAll elts
  | .paren x => x.bound
  | .selector x _ => x.bound
  | .index x arg => x.bound ++ arg.bound
  | .indexList x args => x.bound ++ Expr.boundAll args
  | .slice x low high max _ =>
    x.bound ++ (Expr.boundOpt low ++ (Expr.boundOpt high ++ Expr.boundOpt max))
  | .typeAssert x ty => x.bound ++ Expr.boundOpt ty
  | .call fn args _ => fn.bound ++ Expr.boundAll args
  | .star x => x.bound
  | .unary _ x => x.bound
  | .binary _ x y => x.bound ++ y.bound
  | .keyValue key value => key.bound ++ value.bound
  | .arrayType len elt => Expr.boundOpt len ++ elt.bound
  | .structType fields _ => Field.boundAll fields
  | .funcType sig => sig.bound
  | .interfaceType methods _ => Field.boundAll methods
  | .mapType key value => key.bound ++ value.bound
  | .chanType _ value => value.bound

def Expr.boundOpt : Option Expr → List String
  | none => []
  | some x => x.bound

def Expr.boundAll : List Expr → List String
  | [] => []
  | x :: xs => x.bound ++ Expr.boundAll xs

/-- The names that are bound in the types of some fields. -/
def Field.boundAll : List Field → List String
  | [] => []
  | ⟨_, ty, _⟩ :: fs => ty.bound ++ Field.boundAll fs

def Field.boundOpt : Option (List Field) → List String
  | none => []
  | some fields => Field.boundAll fields

/-- The parameters of a signature are bound only where it has a body. -/
def Signature.bound : Signature → List String
  | ⟨typeParams, params, results⟩ =>
    Field.boundOpt typeParams ++ (Field.boundAll params ++ Field.boundOpt results)

def Stmt.bound : Stmt → List String
  | .bad _ => []
  | .decl ⟨_, specs, _⟩ => Spec.boundLocal specs
  | .empty => []
  | .labeled _ s => s.bound
  | .expr x => x.bound
  | .send chan value => chan.bound ++ value.bound
  | .incDec x _ => x.bound
  | .assign lhs _ rhs => Expr.boundAll lhs ++ Expr.boundAll rhs
  | .goCall x => x.bound
  | .deferCall x => x.bound
  | .ret results => Expr.boundAll results
  | .branch .. => []
  | .block list => Stmt.boundAll list
  | .ifElse init cond body orElse =>
    Stmt.bindsOpt init ++
      (Stmt.boundOpt init ++ (cond.bound ++ (Stmt.boundAll body ++ Stmt.boundOpt orElse)))
  | .switch init tag body =>
    Stmt.bindsOpt init ++ (Stmt.boundOpt init ++ (Expr.boundOpt tag ++ Clause.boundAll body))
  | .typeSwitch init guard body =>
    Stmt.bindsOpt init ++ (guard.guardBinds ++ (guard.guardName ++
      (Stmt.boundOpt init ++ (guard.bound ++ Clause.boundAll body))))
  | .loop init cond post body =>
    Stmt.bindsOpt init ++ (Stmt.bindsOpt post ++
      (Stmt.boundOpt init ++ (Expr.boundOpt cond ++ (Stmt.boundOpt post ++ Stmt.boundAll body))))
  | .range key value tok x body =>
    Expr.rangeBinds tok key ++ (Expr.rangeBinds tok value ++
      (x.bound ++ (Expr.boundOpt key ++ (Expr.boundOpt value ++ Stmt.boundAll body))))

def Stmt.boundOpt : Option Stmt → List String
  | none => []
  | some s => s.bound

def Stmt.boundAll : List Stmt → List String
  | [] => []
  | s :: ss => s.binds ++ (s.bound ++ Stmt.boundAll ss)

def Clause.bound : Clause → List String
  | .matching list body => Expr.boundAll list ++ Stmt.boundAll body
  | .otherwise body => Stmt.boundAll body

def Clause.boundAll : List Clause → List String
  | [] => []
  | c :: cs => c.bound ++ Clause.boundAll cs

def Spec.boundLocal : List Spec → List String
  | [] => []
  | .imported _ :: ss => Spec.boundLocal ss
  | .value ⟨names, ty, values⟩ :: ss =>
    names ++ (Expr.boundOpt ty ++ (Expr.boundAll values ++ Spec.boundLocal ss))
  | .type ⟨name, typeParams, _, ty⟩ :: ss =>
    name :: (Field.boundOpt typeParams ++ (ty.bound ++ Spec.boundLocal ss))

end

/-- The names that are bound inside a top-level spec, its own names left out. -/
def Spec.bound : Spec → List String
  | .imported _ => []
  | .value spec => Expr.boundOpt spec.ty ++ Expr.boundAll spec.values
  | .type spec =>
    Field.declared (spec.typeParams.getD []) ++ (Field.boundOpt spec.typeParams ++ spec.ty.bound)

/-- The names that are bound inside a function, its own name left out. -/
def FuncDecl.bound (f : FuncDecl) : List String :=
  f.signatureNames ++ (Field.declared (f.recv.getD []) ++ (f.sig.bodyNames ++
    (Field.boundOpt f.recv ++ (f.sig.bound ++ Stmt.boundAll (f.body.getD [])))))

namespace Decl

def bound : Decl → List String
  | .bad _ => []
  | .group g => g.specs.flatMap Spec.bound
  | .func f => f.bound

/-- The parameters and locals of a list of top-level declarations. -/
def boundAll (decls : List Decl) : List String :=
  decls.flatMap Decl.bound

end Decl

/-! ## Bindings stay -/

mutual

theorem Expr.bound_rename (r : Renaming) (sc : Scope) (x : Expr) :
    (x.rename r sc).bound = x.bound := by
  match x with
  | .bad node => simp only [Expr.rename]
  | .ident name => simp only [Expr.rename, Expr.bound]
  | .ellipsis elt => simp only [Expr.rename, Expr.bound, Expr.boundOpt_renameOpt r _ elt]
  | .literal value => simp only [Expr.rename]
  | .funcLit sig body =>
    simp only [Expr.rename, Expr.bound, Signature.typeParamNames_rename,
      Signature.bodyNames_rename, Signature.bound_rename r _ sig, Stmt.boundAll_renameAll r _ body]
  | .composite ty elts incomplete =>
    simp only [Expr.rename, Expr.bound, Expr.boundOpt_renameOpt r _ ty,
      Expr.boundAll_renameElements r _ _ elts]
  | .paren y => simp only [Expr.rename, Expr.bound, Expr.bound_rename r _ y]
  | .selector y sel => simp only [Expr.rename, Expr.bound, Expr.bound_rename r _ y]
  | .index y arg =>
    simp only [Expr.rename, Expr.bound, Expr.bound_rename r _ y, Expr.bound_rename r _ arg]
  | .indexList y args =>
    simp only [Expr.rename, Expr.bound, Expr.bound_rename r _ y, Expr.boundAll_renameAll r _ args]
  | .slice y low high max three =>
    simp only [Expr.rename, Expr.bound, Expr.bound_rename r _ y, Expr.boundOpt_renameOpt r _ low,
      Expr.boundOpt_renameOpt r _ high, Expr.boundOpt_renameOpt r _ max]
  | .typeAssert y ty =>
    simp only [Expr.rename, Expr.bound, Expr.bound_rename r _ y, Expr.boundOpt_renameOpt r _ ty]
  | .call fn args spread =>
    simp only [Expr.rename, Expr.bound, Expr.bound_rename r _ fn, Expr.boundAll_renameAll r _ args]
  | .star y => simp only [Expr.rename, Expr.bound, Expr.bound_rename r _ y]
  | .unary op y => simp only [Expr.rename, Expr.bound, Expr.bound_rename r _ y]
  | .binary op y z =>
    simp only [Expr.rename, Expr.bound, Expr.bound_rename r _ y, Expr.bound_rename r _ z]
  | .keyValue key value =>
    simp only [Expr.rename, Expr.bound, Expr.bound_rename r _ key, Expr.bound_rename r _ value]
  | .arrayType len elt =>
    simp only [Expr.rename, Expr.bound, Expr.boundOpt_renameOpt r _ len, Expr.bound_rename r _ elt]
  | .structType fields incomplete =>
    simp only [Expr.rename, Expr.bound, Field.boundAll_renameAll r _ fields]
  | .funcType sig => simp only [Expr.rename, Expr.bound, Signature.bound_rename r _ sig]
  | .interfaceType methods incomplete =>
    simp only [Expr.rename, Expr.bound, Field.boundAll_renameAll r _ methods]
  | .mapType key value =>
    simp only [Expr.rename, Expr.bound, Expr.bound_rename r _ key, Expr.bound_rename r _ value]
  | .chanType dir value => simp only [Expr.rename, Expr.bound, Expr.bound_rename r _ value]

theorem Expr.boundOpt_renameOpt (r : Renaming) (sc : Scope) (x : Option Expr) :
    Expr.boundOpt (Expr.renameOpt r sc x) = Expr.boundOpt x := by
  match x with
  | none => simp only [Expr.renameOpt]
  | some x => simp only [Expr.renameOpt, Expr.boundOpt, Expr.bound_rename r _ x]

theorem Expr.boundAll_renameAll (r : Renaming) (sc : Scope) (xs : List Expr) :
    Expr.boundAll (Expr.renameAll r sc xs) = Expr.boundAll xs := by
  match xs with
  | [] => simp only [Expr.renameAll]
  | x :: xs =>
    simp only [Expr.renameAll, Expr.boundAll, Expr.bound_rename r _ x,
      Expr.boundAll_renameAll r _ xs]

theorem Expr.boundAll_renameElements (r : Renaming) (sc : Scope) (valueKeys : Bool)
    (xs : List Expr) :
    Expr.boundAll (Expr.renameElements r sc valueKeys xs) = Expr.boundAll xs := by
  match xs with
  | [] => simp only [Expr.renameElements]
  | x :: xs =>
    have hrest := Expr.boundAll_renameElements r sc valueKeys xs
    have hx := Expr.bound_rename r sc x
    cases x with
    | keyValue key value =>
      have hvalue := Expr.bound_rename r sc value
      cases key with
      | ident name => simp only [Expr.renameElements, Expr.boundAll, Expr.bound, hvalue, hrest]
      | _ => simp only [Expr.renameElements, Expr.boundAll, hx, hrest]
    | _ => simp only [Expr.renameElements, Expr.boundAll, hx, hrest]

theorem Expr.boundOpt_renameRangeVar (r : Renaming) (sc : Scope) (tok : Option Token)
    (x : Option Expr) : Expr.boundOpt (Expr.renameRangeVar r sc tok x) = Expr.boundOpt x := by
  match x with
  | none => simp only [Expr.renameRangeVar]
  | some x =>
    have hx := Expr.bound_rename r sc x
    cases x with
    | ident name => simp only [Expr.renameRangeVar, Expr.boundOpt, Expr.bound]
    | _ => simp only [Expr.renameRangeVar, Expr.boundOpt, hx]

theorem Field.boundAll_renameAll (r : Renaming) (sc : Scope) (fields : List Field) :
    Field.boundAll (Field.renameAll r sc fields) = Field.boundAll fields := by
  match fields with
  | [] => simp only [Field.renameAll]
  | ⟨names, ty, tag⟩ :: fs =>
    simp only [Field.renameAll, Field.rename, Field.boundAll, Expr.bound_rename r _ ty,
      Field.boundAll_renameAll r _ fs]

theorem Field.boundOpt_renameOpt (r : Renaming) (sc : Scope) (fields : Option (List Field)) :
    Field.boundOpt (Field.renameOpt r sc fields) = Field.boundOpt fields := by
  match fields with
  | none => simp only [Field.renameOpt]
  | some fields => simp only [Field.renameOpt, Field.boundOpt, Field.boundAll_renameAll r _ fields]

theorem Signature.bound_rename (r : Renaming) (sc : Scope) (sig : Signature) :
    (sig.rename r sc).bound = sig.bound := by
  match sig with
  | ⟨typeParams, params, results⟩ =>
    simp only [Signature.rename, Signature.bound, Field.boundOpt_renameOpt r _ typeParams,
      Field.boundAll_renameAll r _ params, Field.boundOpt_renameOpt r _ results]

theorem Stmt.bound_rename (r : Renaming) (sc : Scope) (s : Stmt) :
    (s.rename r sc).bound = s.bound := by
  match s with
  | .bad node => simp only [Stmt.rename]
  | .decl ⟨tok, specs, grouped⟩ =>
    simp only [Stmt.rename, Stmt.bound, Spec.boundLocal_renameLocal r _ specs]
  | .empty => simp only [Stmt.rename]
  | .labeled label t => simp only [Stmt.rename, Stmt.bound, Stmt.bound_rename r _ t]
  | .expr x => simp only [Stmt.rename, Stmt.bound, Expr.bound_rename r _ x]
  | .send chan value =>
    simp only [Stmt.rename, Stmt.bound, Expr.bound_rename r _ chan, Expr.bound_rename r _ value]
  | .incDec x tok => simp only [Stmt.rename, Stmt.bound, Expr.bound_rename r _ x]
  | .assign lhs tok rhs =>
    have hlhs : Expr.boundAll (if tok = .define then lhs else Expr.renameAll r sc lhs) =
        Expr.boundAll lhs := by
      split
      · rfl
      · exact Expr.boundAll_renameAll r sc lhs
    simp only [Stmt.rename, Stmt.bound, hlhs, Expr.boundAll_renameAll r _ rhs]
  | .goCall x => simp only [Stmt.rename, Stmt.bound, Expr.bound_rename r _ x]
  | .deferCall x => simp only [Stmt.rename, Stmt.bound, Expr.bound_rename r _ x]
  | .ret results => simp only [Stmt.rename, Stmt.bound, Expr.boundAll_renameAll r _ results]
  | .branch tok label => simp only [Stmt.rename]
  | .block list => simp only [Stmt.rename, Stmt.bound, Stmt.boundAll_renameAll r _ list]
  | .ifElse init cond body orElse =>
    simp only [Stmt.rename, Stmt.bound, Stmt.bindsOpt_renameOpt, Stmt.boundOpt_renameOpt r _ init,
      Expr.bound_rename r _ cond, Stmt.boundAll_renameAll r _ body,
      Stmt.boundOpt_renameOpt r _ orElse]
  | .switch init tag body =>
    simp only [Stmt.rename, Stmt.bound, Stmt.bindsOpt_renameOpt, Stmt.boundOpt_renameOpt r _ init,
      Expr.boundOpt_renameOpt r _ tag, Clause.boundAll_renameAll r _ _ body]
  | .typeSwitch init guard body =>
    have hguard : ∀ sc, (guard.renameGuard r sc).bound = guard.bound := by
      intro sc
      have h := Stmt.bound_rename r sc guard
      cases guard with
      | assign lhs tok rhs =>
        simp only [Stmt.renameGuard, Stmt.bound, Expr.boundAll_renameAll r _ rhs]
      | _ => exact h
    simp only [Stmt.rename_typeSwitch, Stmt.bound, Stmt.bindsOpt_renameOpt,
      Stmt.guardBinds_renameGuard, Stmt.guardName_renameGuard, Stmt.boundOpt_renameOpt r _ init,
      hguard, Clause.boundAll_renameAll r _ _ body]
  | .loop init cond post body =>
    simp only [Stmt.rename, Stmt.bound, Stmt.bindsOpt_renameOpt, Stmt.boundOpt_renameOpt r _ init,
      Expr.boundOpt_renameOpt r _ cond, Stmt.boundOpt_renameOpt r _ post,
      Stmt.boundAll_renameAll r _ body]
  | .range key value tok x body =>
    simp only [Stmt.rename, Stmt.bound, Expr.rangeBinds_renameRangeVar, Expr.bound_rename r _ x,
      Expr.boundOpt_renameRangeVar r _ tok key, Expr.boundOpt_renameRangeVar r _ tok value,
      Stmt.boundAll_renameAll r _ body]

theorem Stmt.boundOpt_renameOpt (r : Renaming) (sc : Scope) (s : Option Stmt) :
    Stmt.boundOpt (Stmt.renameOpt r sc s) = Stmt.boundOpt s := by
  match s with
  | none => simp only [Stmt.renameOpt]
  | some s => simp only [Stmt.renameOpt, Stmt.boundOpt, Stmt.bound_rename r _ s]

theorem Stmt.boundAll_renameAll (r : Renaming) (sc : Scope) (list : List Stmt) :
    Stmt.boundAll (Stmt.renameAll r sc list) = Stmt.boundAll list := by
  match list with
  | [] => simp only [Stmt.renameAll]
  | s :: ss =>
    simp only [Stmt.renameAll, Stmt.boundAll, Stmt.binds_rename, Stmt.bound_rename r _ s,
      Stmt.boundAll_renameAll r _ ss]

theorem Clause.bound_rename (r : Renaming) (sc : Scope) (names : List String) (c : Clause) :
    (c.rename r sc names).bound = c.bound := by
  match c with
  | .matching list body =>
    simp only [Clause.rename, Clause.bound, Expr.boundAll_renameAll r _ list,
      Stmt.boundAll_renameAll r _ body]
  | .otherwise body => simp only [Clause.rename, Clause.bound, Stmt.boundAll_renameAll r _ body]

theorem Clause.boundAll_renameAll (r : Renaming) (sc : Scope) (names : List String)
    (list : List Clause) : Clause.boundAll (Clause.renameAll r sc names list) =
      Clause.boundAll list := by
  match list with
  | [] => simp only [Clause.renameAll]
  | c :: cs =>
    simp only [Clause.renameAll, Clause.boundAll, Clause.bound_rename r _ _ c,
      Clause.boundAll_renameAll r _ _ cs]

theorem Spec.boundLocal_renameLocal (r : Renaming) (sc : Scope) (specs : List Spec) :
    Spec.boundLocal (Spec.renameLocal r sc specs) = Spec.boundLocal specs := by
  match specs with
  | [] => simp only [Spec.renameLocal]
  | .imported spec :: ss =>
    simp only [Spec.renameLocal, Spec.boundLocal, Spec.boundLocal_renameLocal r _ ss]
  | .value ⟨names, ty, values⟩ :: ss =>
    simp only [Spec.renameLocal, Spec.boundLocal, Expr.boundOpt_renameOpt r _ ty,
      Expr.boundAll_renameAll r _ values, Spec.boundLocal_renameLocal r _ ss]
  | .type ⟨name, typeParams, isAlias, ty⟩ :: ss =>
    simp only [Spec.renameLocal, Spec.boundLocal, Field.boundOpt_renameOpt r _ typeParams,
      Expr.bound_rename r _ ty, Spec.boundLocal_renameLocal r _ ss]

end

theorem Spec.bound_rename (r : Renaming) (s : Spec) : (s.rename r .root).bound = s.bound := by
  cases s with
  | imported spec => rfl
  | value spec =>
    simp only [Spec.rename, ValueSpec.rename, Spec.bound, Expr.boundOpt_renameOpt,
      Expr.boundAll_renameAll]
  | type spec =>
    simp only [Spec.rename, TypeSpec.rename, Spec.bound, Field.declared_renameOpt,
      Field.boundOpt_renameOpt, Expr.bound_rename]

theorem FuncDecl.bound_rename (r : Renaming) (f : FuncDecl) :
    (f.rename r .root).bound = f.bound := by
  have hbody : Stmt.boundAll ((f.rename r .root).body.getD []) =
      Stmt.boundAll (f.body.getD []) := by
    cases hf : f.body with
    | none => simp [FuncDecl.rename, hf]
    | some body => simp [FuncDecl.rename, hf, Stmt.boundAll_renameAll]
  have hsig : (f.rename r .root).sig.bound = f.sig.bound := by
    cases hf : f.sig
    simp only [FuncDecl.rename, hf, Signature.bound, Field.boundOpt_renameOpt,
      Field.boundAll_renameAll]
  unfold FuncDecl.bound
  rw [signatureNames_rename, hsig, hbody]
  simp only [FuncDecl.rename, Signature.bodyNames, Field.declared_renameOpt,
    Field.declared_renameAll, Field.boundOpt_renameOpt]

theorem Decl.boundAll_renameAll (r : Renaming) (decls : List Decl) :
    boundAll (renameAll r decls) = boundAll decls := by
  rw [boundAll, boundAll, renameAll, List.flatMap_map]
  congr 1
  funext d
  cases d with
  | bad node => rfl
  | group g =>
    simp only [Decl.rename, DeclGroup.rename, bound, List.flatMap_map]
    congr 1
    funext s
    exact s.bound_rename r
  | func f => exact f.bound_rename r

/-! ## References place by place -/

theorem Scope.isFree_bind {sc : Scope} {name : String} {names : List String}
    (hsc : sc.isFree name = true) (h : name ∉ names) : (sc.bind names).isFree name = true := by
  unfold Scope.bind
  split
  · simp only [Scope.isFree, Bool.not_eq_true', List.contains_eq_mem,
      decide_eq_false_iff_not] at hsc ⊢
    rw [List.mem_append, not_or]
    exact ⟨h, hsc⟩
  · exact hsc

theorem Scope.isFree_enter {sc : Scope} {name : String} (hsc : sc.isFree name = true) :
    sc.enter.isFree name = true :=
  hsc

/-- A reference under a renaming whose new name is free at its place. -/
theorem Scope.reference_apply {r : Renaming} {sc : Scope} (hsc : sc.isFree r.new = true)
    (name : String) :
    sc.reference (r.apply sc name) = (sc.reference name).map (r.apply .root) := by
  unfold Scope.reference Renaming.apply
  by_cases hfree : sc.isFree name = true
  · by_cases hold : name = r.old
    · subst hold
      simp [hfree, hsc]
    · simp [hfree, hold]
  · simp [hfree]

mutual

theorem Expr.free_rename {r : Renaming} {sc : Scope} (hsc : sc.isFree r.new = true) (x : Expr)
    (h : r.new ∉ x.bound) : (x.rename r sc).free sc = (x.free sc).map (r.apply .root) := by
  match x with
  | .bad node => simp only [Expr.rename, Expr.free, List.map_nil]
  | .ident name => simp only [Expr.rename, Expr.free, Scope.reference_apply hsc]
  | .ellipsis elt =>
    rw [Expr.bound] at h
    simp only [Expr.rename, Expr.free, Expr.freeOpt_rename hsc elt h]
  | .literal value => simp only [Expr.rename, Expr.free, List.map_nil]
  | .funcLit sig body =>
    simp only [Expr.bound, List.mem_append, not_or] at h
    obtain ⟨htypes, hnames, hsig, hbody⟩ := h
    have hinner := Scope.isFree_bind (Scope.isFree_enter hsc) htypes
    simp only [Expr.rename, Expr.free, Signature.typeParamNames_rename,
      Signature.bodyNames_rename, List.map_append, Signature.free_rename hinner sig hsig,
      Stmt.freeAll_rename (Scope.isFree_bind hinner hnames) body hbody]
  | .composite ty elts incomplete =>
    simp only [Expr.bound, List.mem_append, not_or] at h
    simp only [Expr.rename, Expr.free, Expr.hasValueKeys_renameOpt, List.map_append,
      Expr.freeOpt_rename hsc ty h.1, Expr.freeElements_rename hsc _ elts h.2]
  | .paren y =>
    rw [Expr.bound] at h
    simp only [Expr.rename, Expr.free, Expr.free_rename hsc y h]
  | .selector y sel =>
    rw [Expr.bound] at h
    simp only [Expr.rename, Expr.free, Expr.free_rename hsc y h]
  | .index y arg =>
    simp only [Expr.bound, List.mem_append, not_or] at h
    simp only [Expr.rename, Expr.free, List.map_append, Expr.free_rename hsc y h.1,
      Expr.free_rename hsc arg h.2]
  | .indexList y args =>
    simp only [Expr.bound, List.mem_append, not_or] at h
    simp only [Expr.rename, Expr.free, List.map_append, Expr.free_rename hsc y h.1,
      Expr.freeAll_rename hsc args h.2]
  | .slice y low high max three =>
    simp only [Expr.bound, List.mem_append, not_or] at h
    obtain ⟨hy, hlow, hhigh, hmax⟩ := h
    simp only [Expr.rename, Expr.free, List.map_append, Expr.free_rename hsc y hy,
      Expr.freeOpt_rename hsc low hlow, Expr.freeOpt_rename hsc high hhigh,
      Expr.freeOpt_rename hsc max hmax]
  | .typeAssert y ty =>
    simp only [Expr.bound, List.mem_append, not_or] at h
    simp only [Expr.rename, Expr.free, List.map_append, Expr.free_rename hsc y h.1,
      Expr.freeOpt_rename hsc ty h.2]
  | .call fn args spread =>
    simp only [Expr.bound, List.mem_append, not_or] at h
    simp only [Expr.rename, Expr.free, List.map_append, Expr.free_rename hsc fn h.1,
      Expr.freeAll_rename hsc args h.2]
  | .star y =>
    rw [Expr.bound] at h
    simp only [Expr.rename, Expr.free, Expr.free_rename hsc y h]
  | .unary op y =>
    rw [Expr.bound] at h
    simp only [Expr.rename, Expr.free, Expr.free_rename hsc y h]
  | .binary op y z =>
    simp only [Expr.bound, List.mem_append, not_or] at h
    simp only [Expr.rename, Expr.free, List.map_append, Expr.free_rename hsc y h.1,
      Expr.free_rename hsc z h.2]
  | .keyValue key value =>
    simp only [Expr.bound, List.mem_append, not_or] at h
    simp only [Expr.rename, Expr.free, List.map_append, Expr.free_rename hsc key h.1,
      Expr.free_rename hsc value h.2]
  | .arrayType len elt =>
    simp only [Expr.bound, List.mem_append, not_or] at h
    simp only [Expr.rename, Expr.free, List.map_append, Expr.freeOpt_rename hsc len h.1,
      Expr.free_rename hsc elt h.2]
  | .structType fields incomplete =>
    rw [Expr.bound] at h
    simp only [Expr.rename, Expr.free, Field.freeAll_rename hsc fields h]
  | .funcType sig =>
    rw [Expr.bound] at h
    simp only [Expr.rename, Expr.free, Signature.free_rename hsc sig h]
  | .interfaceType methods incomplete =>
    rw [Expr.bound] at h
    simp only [Expr.rename, Expr.free, Field.freeAll_rename hsc methods h]
  | .mapType key value =>
    simp only [Expr.bound, List.mem_append, not_or] at h
    simp only [Expr.rename, Expr.free, List.map_append, Expr.free_rename hsc key h.1,
      Expr.free_rename hsc value h.2]
  | .chanType dir value =>
    rw [Expr.bound] at h
    simp only [Expr.rename, Expr.free, Expr.free_rename hsc value h]

theorem Expr.freeOpt_rename {r : Renaming} {sc : Scope} (hsc : sc.isFree r.new = true)
    (x : Option Expr) (h : r.new ∉ Expr.boundOpt x) :
    Expr.freeOpt sc (Expr.renameOpt r sc x) = (Expr.freeOpt sc x).map (r.apply .root) := by
  match x with
  | none => simp only [Expr.renameOpt, Expr.freeOpt, List.map_nil]
  | some x =>
    rw [Expr.boundOpt] at h
    simp only [Expr.renameOpt, Expr.freeOpt, Expr.free_rename hsc x h]

theorem Expr.freeAll_rename {r : Renaming} {sc : Scope} (hsc : sc.isFree r.new = true)
    (xs : List Expr) (h : r.new ∉ Expr.boundAll xs) :
    Expr.freeAll sc (Expr.renameAll r sc xs) = (Expr.freeAll sc xs).map (r.apply .root) := by
  match xs with
  | [] => simp only [Expr.renameAll, Expr.freeAll, List.map_nil]
  | x :: xs =>
    simp only [Expr.boundAll, List.mem_append, not_or] at h
    simp only [Expr.renameAll, Expr.freeAll, List.map_append, Expr.free_rename hsc x h.1,
      Expr.freeAll_rename hsc xs h.2]

theorem Expr.freeElements_rename {r : Renaming} {sc : Scope} (hsc : sc.isFree r.new = true)
    (valueKeys : Bool) (xs : List Expr) (h : r.new ∉ Expr.boundAll xs) :
    Expr.freeElements sc valueKeys (Expr.renameElements r sc valueKeys xs) =
      (Expr.freeElements sc valueKeys xs).map (r.apply .root) := by
  match xs with
  | [] => simp only [Expr.renameElements, Expr.freeElements, List.map_nil]
  | x :: xs =>
    simp only [Expr.boundAll, List.mem_append, not_or] at h
    have hrest := Expr.freeElements_rename hsc valueKeys xs h.2
    have hx := Expr.free_rename hsc x h.1
    cases x with
    | keyValue key value =>
      simp only [Expr.bound, List.mem_append, not_or] at h
      have hvalue := Expr.free_rename hsc value h.1.2
      cases key with
      | ident name =>
        simp only [Expr.renameElements, Expr.freeElements, List.map_append, hvalue, hrest]
        congr 2
        cases valueKeys with
        | true => exact Scope.reference_apply hsc name
        | false => rfl
      | _ =>
        simp only [Expr.rename] at hx
        simp only [Expr.renameElements, Expr.rename, Expr.freeElements, List.map_append, hrest]
        exact congrArg (· ++ _) hx
    | _ =>
      simp only [Expr.rename] at hx
      simp only [Expr.renameElements, Expr.rename, Expr.freeElements, List.map_append, hrest]
      exact congrArg (· ++ _) hx

theorem Expr.freeRangeVar_rename {r : Renaming} {sc : Scope} (hsc : sc.isFree r.new = true)
    (tok : Option Token) (x : Option Expr) (h : r.new ∉ Expr.boundOpt x) :
    Expr.freeRangeVar sc tok (Expr.renameRangeVar r sc tok x) =
      (Expr.freeRangeVar sc tok x).map (r.apply .root) := by
  match x with
  | none => simp only [Expr.renameRangeVar, Expr.freeRangeVar, List.map_nil]
  | some x =>
    rw [Expr.boundOpt] at h
    have hx := Expr.free_rename hsc x h
    cases x with
    | ident name =>
      simp only [Expr.renameRangeVar, Expr.freeRangeVar]
      split
      · rfl
      · exact Scope.reference_apply hsc name
    | _ =>
      simp only [Expr.rename] at hx
      simp only [Expr.renameRangeVar, Expr.rename, Expr.freeRangeVar]
      exact hx

theorem Field.freeAll_rename {r : Renaming} {sc : Scope} (hsc : sc.isFree r.new = true)
    (fields : List Field) (h : r.new ∉ Field.boundAll fields) :
    Field.freeAll sc (Field.renameAll r sc fields) =
      (Field.freeAll sc fields).map (r.apply .root) := by
  match fields with
  | [] => simp only [Field.renameAll, Field.freeAll, List.map_nil]
  | ⟨names, ty, tag⟩ :: fs =>
    simp only [Field.boundAll, List.mem_append, not_or] at h
    simp only [Field.renameAll, Field.rename, Field.freeAll, Field.free, List.map_append,
      Expr.free_rename hsc ty h.1, Field.freeAll_rename hsc fs h.2]

theorem Field.freeOpt_rename {r : Renaming} {sc : Scope} (hsc : sc.isFree r.new = true)
    (fields : Option (List Field)) (h : r.new ∉ Field.boundOpt fields) :
    Field.freeOpt sc (Field.renameOpt r sc fields) =
      (Field.freeOpt sc fields).map (r.apply .root) := by
  match fields with
  | none => simp only [Field.renameOpt, Field.freeOpt, List.map_nil]
  | some fields =>
    rw [Field.boundOpt] at h
    simp only [Field.renameOpt, Field.freeOpt, Field.freeAll_rename hsc fields h]

theorem Signature.free_rename {r : Renaming} {sc : Scope} (hsc : sc.isFree r.new = true)
    (sig : Signature) (h : r.new ∉ sig.bound) :
    (sig.rename r sc).free sc = (sig.free sc).map (r.apply .root) := by
  match sig with
  | ⟨typeParams, params, results⟩ =>
    simp only [Signature.bound, List.mem_append, not_or] at h
    obtain ⟨htypes, hparams, hresults⟩ := h
    simp only [Signature.rename, Signature.free, List.map_append,
      Field.freeOpt_rename hsc typeParams htypes, Field.freeAll_rename hsc params hparams,
      Field.freeOpt_rename hsc results hresults]

theorem Stmt.free_rename {r : Renaming} {sc : Scope} (hsc : sc.isFree r.new = true) (s : Stmt)
    (h : r.new ∉ s.bound) : (s.rename r sc).free sc = (s.free sc).map (r.apply .root) := by
  match s with
  | .bad node => simp only [Stmt.rename, Stmt.free, List.map_nil]
  | .decl ⟨tok, specs, grouped⟩ =>
    rw [Stmt.bound] at h
    simp only [Stmt.rename, Stmt.free, Spec.freeLocal_rename hsc specs h]
  | .empty => simp only [Stmt.rename, Stmt.free, List.map_nil]
  | .labeled label t =>
    rw [Stmt.bound] at h
    simp only [Stmt.rename, Stmt.free, Stmt.free_rename hsc t h]
  | .expr x =>
    rw [Stmt.bound] at h
    simp only [Stmt.rename, Stmt.free, Expr.free_rename hsc x h]
  | .send chan value =>
    simp only [Stmt.bound, List.mem_append, not_or] at h
    simp only [Stmt.rename, Stmt.free, List.map_append, Expr.free_rename hsc chan h.1,
      Expr.free_rename hsc value h.2]
  | .incDec x tok =>
    rw [Stmt.bound] at h
    simp only [Stmt.rename, Stmt.free, Expr.free_rename hsc x h]
  | .assign lhs tok rhs =>
    simp only [Stmt.bound, List.mem_append, not_or] at h
    simp only [Stmt.rename, Stmt.free, List.map_append, Expr.freeAll_rename hsc rhs h.2]
    congr 1
    split
    · rfl
    · exact Expr.freeAll_rename hsc lhs h.1
  | .goCall x =>
    rw [Stmt.bound] at h
    simp only [Stmt.rename, Stmt.free, Expr.free_rename hsc x h]
  | .deferCall x =>
    rw [Stmt.bound] at h
    simp only [Stmt.rename, Stmt.free, Expr.free_rename hsc x h]
  | .ret results =>
    rw [Stmt.bound] at h
    simp only [Stmt.rename, Stmt.free, Expr.freeAll_rename hsc results h]
  | .branch tok label => simp only [Stmt.rename, Stmt.free, List.map_nil]
  | .block list =>
    rw [Stmt.bound] at h
    simp only [Stmt.rename, Stmt.free, Stmt.freeAll_rename (Scope.isFree_enter hsc) list h]
  | .ifElse init cond body orElse =>
    simp only [Stmt.bound, List.mem_append, not_or] at h
    obtain ⟨hbinds, hinit, hcond, hbody, helse⟩ := h
    have hinner := Scope.isFree_bind (Scope.isFree_enter hsc) hbinds
    simp only [Stmt.rename, Stmt.free, Stmt.bindsOpt_renameOpt, List.map_append,
      Stmt.freeOpt_rename (Scope.isFree_enter hsc) init hinit, Expr.free_rename hinner cond hcond,
      Stmt.freeAll_rename (Scope.isFree_enter hinner) body hbody,
      Stmt.freeOpt_rename hinner orElse helse]
  | .switch init tag body =>
    simp only [Stmt.bound, List.mem_append, not_or] at h
    obtain ⟨hbinds, hinit, htag, hbody⟩ := h
    have hinner := Scope.isFree_bind (Scope.isFree_enter hsc) hbinds
    simp only [Stmt.rename, Stmt.free, Stmt.bindsOpt_renameOpt, List.map_append,
      Stmt.freeOpt_rename (Scope.isFree_enter hsc) init hinit, Expr.freeOpt_rename hinner tag htag,
      Clause.freeAll_rename hinner List.not_mem_nil body hbody]
  | .typeSwitch init guard body =>
    simp only [Stmt.bound, List.mem_append, not_or] at h
    obtain ⟨hbinds, hguardBinds, hguardName, hinit, hguard, hbody⟩ := h
    have hinner := Scope.isFree_bind (Scope.isFree_enter hsc) hbinds
    have hfree := Stmt.free_rename hinner guard hguard
    have hguardFree : (guard.renameGuard r (sc.enter.bind (Stmt.bindsOpt init))).freeGuard
        (sc.enter.bind (Stmt.bindsOpt init)) =
        (guard.freeGuard (sc.enter.bind (Stmt.bindsOpt init))).map (r.apply .root) := by
      cases guard with
      | assign lhs tok rhs =>
        simp only [Stmt.bound, List.mem_append, not_or] at hguard
        exact Expr.freeAll_rename hinner rhs hguard.2
      | decl g =>
        cases g
        simpa only [Stmt.renameGuard, Stmt.freeGuard, Stmt.rename] using hfree
      | _ =>
        simpa only [Stmt.renameGuard, Stmt.freeGuard, Stmt.rename, Stmt.rename_typeSwitch]
          using hfree
    rw [Stmt.rename_typeSwitch, Stmt.free_typeSwitch, Stmt.free_typeSwitch,
      Stmt.bindsOpt_renameOpt, Stmt.guardBinds_renameGuard, Stmt.guardName_renameGuard,
      hguardFree, Stmt.freeOpt_rename (Scope.isFree_enter hsc) init hinit,
      Clause.freeAll_rename (Scope.isFree_bind hinner hguardBinds) hguardName body hbody,
      List.map_append, List.map_append]
  | .loop init cond post body =>
    simp only [Stmt.bound, List.mem_append, not_or] at h
    obtain ⟨hbinds, hpostBinds, hinit, hcond, hpost, hbody⟩ := h
    have hinner := Scope.isFree_bind (Scope.isFree_enter hsc) hbinds
    have hlooped := Scope.isFree_enter (Scope.isFree_bind hinner hpostBinds)
    simp only [Stmt.rename, Stmt.free, Stmt.bindsOpt_renameOpt, List.map_append,
      Stmt.freeOpt_rename (Scope.isFree_enter hsc) init hinit,
      Expr.freeOpt_rename hinner cond hcond, Stmt.freeOpt_rename hinner post hpost,
      Stmt.freeAll_rename hlooped body hbody]
  | .range key value tok x body =>
    simp only [Stmt.bound, List.mem_append, not_or] at h
    obtain ⟨hkeyBinds, hvalueBinds, hx, hkey, hvalue, hbody⟩ := h
    have hkeyed := Scope.isFree_bind (Scope.isFree_enter hsc) hkeyBinds
    have hlooped := Scope.isFree_enter (Scope.isFree_bind hkeyed hvalueBinds)
    simp only [Stmt.rename, Stmt.free, Expr.rangeBinds_renameRangeVar, List.map_append,
      Expr.free_rename hsc x hx, Expr.freeRangeVar_rename (Scope.isFree_enter hsc) tok key hkey,
      Expr.freeRangeVar_rename hkeyed tok value hvalue, Stmt.freeAll_rename hlooped body hbody]

theorem Stmt.freeOpt_rename {r : Renaming} {sc : Scope} (hsc : sc.isFree r.new = true)
    (s : Option Stmt) (h : r.new ∉ Stmt.boundOpt s) :
    Stmt.freeOpt sc (Stmt.renameOpt r sc s) = (Stmt.freeOpt sc s).map (r.apply .root) := by
  match s with
  | none => simp only [Stmt.renameOpt, Stmt.freeOpt, List.map_nil]
  | some s =>
    rw [Stmt.boundOpt] at h
    simp only [Stmt.renameOpt, Stmt.freeOpt, Stmt.free_rename hsc s h]

theorem Stmt.freeAll_rename {r : Renaming} {sc : Scope} (hsc : sc.isFree r.new = true)
    (list : List Stmt) (h : r.new ∉ Stmt.boundAll list) :
    Stmt.freeAll sc (Stmt.renameAll r sc list) = (Stmt.freeAll sc list).map (r.apply .root) := by
  match list with
  | [] => simp only [Stmt.renameAll, Stmt.freeAll, List.map_nil]
  | s :: ss =>
    simp only [Stmt.boundAll, List.mem_append, not_or] at h
    obtain ⟨hbinds, hs, hss⟩ := h
    simp only [Stmt.renameAll, Stmt.freeAll, Stmt.binds_rename, List.map_append,
      Stmt.free_rename hsc s hs, Stmt.freeAll_rename (Scope.isFree_bind hsc hbinds) ss hss]

theorem Clause.free_rename {r : Renaming} {sc : Scope} {names : List String}
    (hsc : sc.isFree r.new = true) (hnames : r.new ∉ names) (c : Clause) (h : r.new ∉ c.bound) :
    (c.rename r sc names).free sc names = (c.free sc names).map (r.apply .root) := by
  have hinner := Scope.isFree_bind (Scope.isFree_enter hsc) hnames
  match c with
  | .matching list body =>
    simp only [Clause.bound, List.mem_append, not_or] at h
    simp only [Clause.rename, Clause.free, List.map_append,
      Expr.freeAll_rename (Scope.isFree_enter hsc) list h.1, Stmt.freeAll_rename hinner body h.2]
  | .otherwise body =>
    rw [Clause.bound] at h
    simp only [Clause.rename, Clause.free, Stmt.freeAll_rename hinner body h]

theorem Clause.freeAll_rename {r : Renaming} {sc : Scope} {names : List String}
    (hsc : sc.isFree r.new = true) (hnames : r.new ∉ names) (list : List Clause)
    (h : r.new ∉ Clause.boundAll list) :
    Clause.freeAll sc names (Clause.renameAll r sc names list) =
      (Clause.freeAll sc names list).map (r.apply .root) := by
  match list with
  | [] => simp only [Clause.renameAll, Clause.freeAll, List.map_nil]
  | c :: cs =>
    simp only [Clause.boundAll, List.mem_append, not_or] at h
    simp only [Clause.renameAll, Clause.freeAll, List.map_append,
      Clause.free_rename hsc hnames c h.1, Clause.freeAll_rename hsc hnames cs h.2]

theorem Spec.freeLocal_rename {r : Renaming} {sc : Scope} (hsc : sc.isFree r.new = true)
    (specs : List Spec) (h : r.new ∉ Spec.boundLocal specs) :
    Spec.freeLocal sc (Spec.renameLocal r sc specs) =
      (Spec.freeLocal sc specs).map (r.apply .root) := by
  match specs with
  | [] => simp only [Spec.renameLocal, Spec.freeLocal, List.map_nil]
  | .imported spec :: ss =>
    rw [Spec.boundLocal] at h
    simp only [Spec.renameLocal, Spec.freeLocal, Spec.freeLocal_rename hsc ss h]
  | .value ⟨names, ty, values⟩ :: ss =>
    simp only [Spec.boundLocal, List.mem_append, not_or] at h
    obtain ⟨hnames, hty, hvalues, hss⟩ := h
    simp only [Spec.renameLocal, Spec.freeLocal, List.map_append, Expr.freeOpt_rename hsc ty hty,
      Expr.freeAll_rename hsc values hvalues,
      Spec.freeLocal_rename (Scope.isFree_bind hsc hnames) ss hss]
  | .type ⟨name, typeParams, isAlias, ty⟩ :: ss =>
    simp only [Spec.boundLocal, List.mem_cons, List.mem_append, not_or] at h
    obtain ⟨hname, htypes, hty, hss⟩ := h
    have hinner : (sc.bind [name]).isFree r.new = true :=
      Scope.isFree_bind hsc (by simpa using hname)
    simp only [Spec.renameLocal, Spec.freeLocal, List.map_append,
      Field.freeOpt_rename hinner typeParams htypes, Expr.free_rename hinner ty hty,
      Spec.freeLocal_rename hinner ss hss]

end

theorem Spec.free_rename {r : Renaming} (s : Spec) (h : r.new ∉ s.bound) :
    (s.rename r .root).free .root = (s.free .root).map (r.apply .root) := by
  have hroot := Scope.isFree_root r.new
  cases s with
  | imported spec => rfl
  | value spec =>
    simp only [Spec.bound, List.mem_append, not_or] at h
    have hnames : (spec.names.map (r.apply .root)).flatMap Scope.root.reference =
        (spec.names.flatMap Scope.root.reference).map (r.apply .root) := by
      rw [List.flatMap_map, List.map_flatMap]
      exact congrArg (spec.names.flatMap ·) (funext (Scope.reference_apply hroot))
    simp only [Spec.rename, ValueSpec.rename, Spec.free, ValueSpec.free, List.map_append, hnames,
      Expr.freeOpt_rename hroot spec.ty h.1, Expr.freeAll_rename hroot spec.values h.2]
  | type spec =>
    simp only [Spec.bound, List.mem_append, not_or] at h
    obtain ⟨hdeclared, htypes, hty⟩ := h
    have hinner := Scope.isFree_bind (Scope.isFree_enter hroot) hdeclared
    simp only [Spec.rename, TypeSpec.rename, Spec.free, TypeSpec.free, Field.declared_renameOpt,
      List.map_append, Scope.reference_apply hroot,
      Field.freeOpt_rename hinner spec.typeParams htypes, Expr.free_rename hinner spec.ty hty]

theorem FuncDecl.free_rename {r : Renaming} (f : FuncDecl) (h : r.new ∉ f.bound) :
    (f.rename r .root).free .root = (f.free .root).map (r.apply .root) := by
  have hsigBound : f.sig.bound = Field.boundOpt f.sig.typeParams ++
      (Field.boundAll f.sig.params ++ Field.boundOpt f.sig.results) := by
    cases f.sig
    rw [Signature.bound]
  simp only [FuncDecl.bound, hsigBound, signatureNames, List.mem_append, not_or] at h
  obtain ⟨⟨hrecvTypes, htypeNames⟩, hrecvNames, hbodyNames, hrecv, ⟨htypes, hparams, hresults⟩,
    hbody⟩ := h
  have hroot := Scope.isFree_root r.new
  have hparam : (f.paramScope .root).isFree r.new = true :=
    Scope.isFree_bind (Scope.isFree_enter hroot) htypeNames
  have hsig : (f.signatureScope .root).isFree r.new = true := Scope.isFree_bind hparam hrecvTypes
  have hinner : (f.bodyScope .root).isFree r.new = true := by
    apply Scope.isFree_bind hsig
    rw [List.mem_append, not_or]
    exact ⟨hrecvNames, hbodyNames⟩
  have hname : (if (f.rename r .root).recv.isSome then []
        else Scope.root.reference (f.rename r .root).name) =
      (if f.recv.isSome then [] else Scope.root.reference f.name).map (r.apply .root) := by
    cases hf : f.recv with
    | none => simpa [FuncDecl.rename, hf, Field.renameOpt] using Scope.reference_apply hroot f.name
    | some fields => simp [FuncDecl.rename, hf, Field.renameOpt]
  unfold FuncDecl.free
  rw [paramScope_rename, signatureScope_rename, bodyScope_rename, hname]
  simp only [FuncDecl.rename, List.map_append, Field.freeOpt_rename hparam _ htypes,
    Field.freeOpt_rename hsig _ hrecv, Field.freeAll_rename hsig _ hparams,
    Field.freeOpt_rename hsig _ hresults]
  congr 1
  cases hf : f.body with
  | none => rfl
  | some body =>
    rw [hf] at hbody
    exact Stmt.freeAll_rename hinner body hbody

namespace Decl

theorem free_rename {r : Renaming} (d : Decl) (h : r.new ∉ d.bound) :
    (d.rename r).free = d.free.map (r.apply .root) := by
  cases d with
  | bad node => rfl
  | func f => exact f.free_rename h
  | group g =>
    simp only [bound, List.mem_flatMap, not_exists, not_and] at h
    simp only [rename, free, DeclGroup.rename, DeclGroup.free, List.flatMap_map, List.map_flatMap]
    exact List.flatMap_congr fun s hs => s.free_rename (h s hs)

/-- A renaming to a name that is not bound anywhere respells the references place by place. -/
theorem freeAll_renameAll {r : Renaming} {decls : List Decl} (h : r.new ∉ boundAll decls) :
    freeAll (renameAll r decls) = (freeAll decls).map (r.apply .root) := by
  simp only [boundAll, List.mem_flatMap, not_exists, not_and] at h
  rw [freeAll, freeAll, renameAll, List.flatMap_map, List.map_flatMap]
  exact List.flatMap_congr fun d hd => d.free_rename (h d hd)

end Decl

end GoWeave
