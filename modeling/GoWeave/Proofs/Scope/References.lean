import GoWeave.Scope.Free
import Mathlib.Data.List.Basic

/-!
# References under a renaming

A renaming changes no binding, so a tree and its renamed copy have the same scopes at the same
places. At each place the references pass over from the tree to the copy: the old name is gone, the
new name may have come in its stead, and all others are as before.
-/
namespace GoWeave

/-! ## The guard of a type switch -/

/-- A guard under a renaming. The name in `x := v.(type)` binds and stays. -/
def Stmt.renameGuard (r : Renaming) (sc : Scope) : Stmt → Stmt
  | .assign lhs tok rhs => .assign lhs tok (Expr.renameAll r sc rhs)
  | guard => guard.rename r sc

def Stmt.freeGuard (sc : Scope) : Stmt → List String
  | .assign _ _ rhs => Expr.freeAll sc rhs
  | guard => guard.free sc

theorem Stmt.rename_typeSwitch (r : Renaming) (sc : Scope) (init : Option Stmt) (guard : Stmt)
    (body : List Clause) :
    (Stmt.typeSwitch init guard body).rename r sc =
      .typeSwitch (Stmt.renameOpt r sc.enter init)
        (guard.renameGuard r (sc.enter.bind (Stmt.bindsOpt init)))
        (Clause.renameAll r ((sc.enter.bind (Stmt.bindsOpt init)).bind guard.guardBinds)
          guard.guardName body) := by
  unfold Stmt.rename
  rfl

theorem Stmt.free_typeSwitch (sc : Scope) (init : Option Stmt) (guard : Stmt)
    (body : List Clause) :
    (Stmt.typeSwitch init guard body).free sc =
      Stmt.freeOpt sc.enter init ++ guard.freeGuard (sc.enter.bind (Stmt.bindsOpt init)) ++
        Clause.freeAll ((sc.enter.bind (Stmt.bindsOpt init)).bind guard.guardBinds)
          guard.guardName body := by
  unfold Stmt.free
  rfl

/-! ## Bindings -/

@[simp] theorem Field.names_rename (r : Renaming) (sc : Scope) (f : Field) :
    (f.rename r sc).names = f.names := by
  cases f
  simp [Field.rename]

@[simp] theorem Field.declared_renameAll (r : Renaming) (sc : Scope) (fields : List Field) :
    Field.declared (Field.renameAll r sc fields) = Field.declared fields := by
  induction fields with
  | nil => simp [Field.renameAll]
  | cons f fs ih =>
    simp only [Field.declared] at ih
    simp [Field.renameAll, Field.declared, ih]

@[simp] theorem Field.declared_renameOpt (r : Renaming) (sc : Scope)
    (fields : Option (List Field)) :
    Field.declared ((Field.renameOpt r sc fields).getD []) = Field.declared (fields.getD []) := by
  cases fields with
  | none => simp [Field.renameOpt]
  | some fields => simp [Field.renameOpt]

@[simp] theorem Signature.typeParamNames_rename (r : Renaming) (sc : Scope) (sig : Signature) :
    (sig.rename r sc).typeParamNames = sig.typeParamNames := by
  cases sig
  simp [Signature.rename, Signature.typeParamNames]

@[simp] theorem Signature.bodyNames_rename (r : Renaming) (sc : Scope) (sig : Signature) :
    (sig.rename r sc).bodyNames = sig.bodyNames := by
  cases sig
  simp [Signature.rename, Signature.bodyNames]

@[simp] theorem Spec.declared_renameLocal (r : Renaming) (sc : Scope) (specs : List Spec) :
    (Spec.renameLocal r sc specs).flatMap Spec.declared = specs.flatMap Spec.declared := by
  induction specs generalizing sc with
  | nil => simp [Spec.renameLocal]
  | cons s ss ih =>
    cases s with
    | imported spec => simp [Spec.renameLocal, Spec.declared, ih]
    | value v =>
      cases v
      simp [Spec.renameLocal, Spec.declared, ih]
    | type t =>
      cases t
      simp [Spec.renameLocal, Spec.declared, ih]

@[simp] theorem Stmt.binds_rename (r : Renaming) (sc : Scope) (s : Stmt) :
    (s.rename r sc).binds = s.binds := by
  fun_induction Stmt.binds s with
  | case1 g =>
    cases g
    simp [Stmt.rename, Stmt.binds]
  | case2 label s ih => simpa [Stmt.rename, Stmt.binds] using ih
  | case3 lhs rhs => simp [Stmt.rename, Stmt.binds]
  | case4 lhs tok rhs h => simp [Stmt.rename, Stmt.binds, h]
  | case5 s h1 h2 h3 => cases s <;> simp_all [Stmt.rename, Stmt.rename_typeSwitch, Stmt.binds]

@[simp] theorem Stmt.guardBinds_renameGuard (r : Renaming) (sc : Scope) (guard : Stmt) :
    (guard.renameGuard r sc).guardBinds = guard.guardBinds := by
  have hbinds := guard.binds_rename r sc
  cases guard with
  | assign lhs tok rhs => rfl
  | decl g =>
    cases g
    simpa [Stmt.renameGuard, Stmt.guardBinds, Stmt.rename] using hbinds
  | _ => simp_all [Stmt.renameGuard, Stmt.guardBinds, Stmt.rename, Stmt.rename_typeSwitch]

@[simp] theorem Stmt.guardName_renameGuard (r : Renaming) (sc : Scope) (guard : Stmt) :
    (guard.renameGuard r sc).guardName = guard.guardName := by
  cases guard with
  | assign lhs tok rhs =>
    cases lhs with
    | nil => rfl
    | cons x xs => cases x <;> rfl
  | decl g =>
    cases g
    simp [Stmt.renameGuard, Stmt.guardName, Stmt.rename]
  | _ => simp [Stmt.renameGuard, Stmt.guardName, Stmt.rename, Stmt.rename_typeSwitch]

@[simp] theorem Stmt.bindsOpt_renameOpt (r : Renaming) (sc : Scope) (s : Option Stmt) :
    Stmt.bindsOpt (Stmt.renameOpt r sc s) = Stmt.bindsOpt s := by
  cases s with
  | none => simp [Stmt.renameOpt]
  | some s => simp [Stmt.renameOpt, Stmt.bindsOpt]

@[simp] theorem Expr.rangeBinds_renameRangeVar (r : Renaming) (sc : Scope) (tok : Option Token)
    (x : Option Expr) :
    Expr.rangeBinds tok (Expr.renameRangeVar r sc tok x) = Expr.rangeBinds tok x := by
  cases x with
  | none => simp [Expr.renameRangeVar]
  | some x =>
    cases x with
    | ident name =>
      by_cases h : tok = some .define <;> simp [Expr.renameRangeVar, Expr.rangeBinds, h]
    | _ => simp [Expr.renameRangeVar, Expr.rangeBinds, Expr.rename]

@[simp] theorem Expr.hasValueKeys_renameOpt (r : Renaming) (sc : Scope) (ty : Option Expr) :
    Expr.hasValueKeys (Expr.renameOpt r sc ty) = Expr.hasValueKeys ty := by
  cases ty with
  | none => simp [Expr.renameOpt]
  | some x => cases x <;> simp [Expr.renameOpt, Expr.rename, Expr.hasValueKeys]

/-! ## Passing over -/

/-- The references `before` become the references `after` under a renaming: the old name is gone,
and the new name is there if it was before or if the old name was. -/
def Renaming.Passes (r : Renaming) (before after : List String) : Prop :=
  ∀ name ∈ after, (name ∈ before ∧ name ≠ r.old) ∨ (name = r.new ∧ r.old ∈ before)

namespace Renaming.Passes

variable {r : Renaming} {before after before' after' : List String}

theorem nil (r : Renaming) : r.Passes [] [] := by
  intro name h
  simp at h

theorem append (h : r.Passes before after) (h' : r.Passes before' after') :
    r.Passes (before ++ before') (after ++ after') := by
  intro name hname
  simp only [List.mem_append] at hname ⊢
  rcases hname with hname | hname
  · rcases h name hname with ⟨hbefore, hne⟩ | ⟨hnew, hold⟩
    · exact .inl ⟨.inl hbefore, hne⟩
    · exact .inr ⟨hnew, .inl hold⟩
  · rcases h' name hname with ⟨hbefore, hne⟩ | ⟨hnew, hold⟩
    · exact .inl ⟨.inr hbefore, hne⟩
    · exact .inr ⟨hnew, .inr hold⟩

theorem reference (r : Renaming) (sc : Scope) (name : String) :
    r.Passes (sc.reference name) (sc.reference (r.apply sc name)) := by
  intro n hn
  unfold Scope.reference Renaming.apply at *
  by_cases hfree : sc.isFree name = true
  · by_cases hold : name = r.old
    · simp_all
    · simp_all
  · simp_all

end Renaming.Passes

mutual

theorem Expr.passes (r : Renaming) (sc : Scope) (x : Expr) :
    r.Passes (x.free sc) ((x.rename r sc).free sc) := by
  match x with
  | .bad node => simpa only [Expr.rename, Expr.free] using .nil r
  | .ident name => simpa only [Expr.rename, Expr.free] using .reference r sc name
  | .ellipsis elt => simpa only [Expr.rename, Expr.free] using Expr.passesOpt r sc elt
  | .literal value => simpa only [Expr.rename, Expr.free] using .nil r
  | .funcLit sig body =>
    simp only [Expr.rename, Expr.free, Signature.typeParamNames_rename, Signature.bodyNames_rename]
    exact (Signature.passes r _ sig).append (Stmt.passesAll r _ body)
  | .composite ty elts incomplete =>
    simp only [Expr.rename, Expr.free, Expr.hasValueKeys_renameOpt]
    exact (Expr.passesOpt r sc ty).append (Expr.passesElements r sc _ elts)
  | .paren y => simpa only [Expr.rename, Expr.free] using Expr.passes r sc y
  | .selector y sel => simpa only [Expr.rename, Expr.free] using Expr.passes r sc y
  | .index y arg =>
    simp only [Expr.rename, Expr.free]
    exact (Expr.passes r sc y).append (Expr.passes r sc arg)
  | .indexList y args =>
    simp only [Expr.rename, Expr.free]
    exact (Expr.passes r sc y).append (Expr.passesAll r sc args)
  | .slice y low high max three =>
    simp only [Expr.rename, Expr.free]
    exact (((Expr.passes r sc y).append (Expr.passesOpt r sc low)).append
      (Expr.passesOpt r sc high)).append (Expr.passesOpt r sc max)
  | .typeAssert y ty =>
    simp only [Expr.rename, Expr.free]
    exact (Expr.passes r sc y).append (Expr.passesOpt r sc ty)
  | .call fn args spread =>
    simp only [Expr.rename, Expr.free]
    exact (Expr.passes r sc fn).append (Expr.passesAll r sc args)
  | .star y => simpa only [Expr.rename, Expr.free] using Expr.passes r sc y
  | .unary op y => simpa only [Expr.rename, Expr.free] using Expr.passes r sc y
  | .binary op y z =>
    simp only [Expr.rename, Expr.free]
    exact (Expr.passes r sc y).append (Expr.passes r sc z)
  | .keyValue key value =>
    simp only [Expr.rename, Expr.free]
    exact (Expr.passes r sc key).append (Expr.passes r sc value)
  | .arrayType len elt =>
    simp only [Expr.rename, Expr.free]
    exact (Expr.passesOpt r sc len).append (Expr.passes r sc elt)
  | .structType fields incomplete =>
    simpa only [Expr.rename, Expr.free] using Field.passesAll r sc fields
  | .funcType sig => simpa only [Expr.rename, Expr.free] using Signature.passes r sc sig
  | .interfaceType methods incomplete =>
    simpa only [Expr.rename, Expr.free] using Field.passesAll r sc methods
  | .mapType key value =>
    simp only [Expr.rename, Expr.free]
    exact (Expr.passes r sc key).append (Expr.passes r sc value)
  | .chanType dir value => simpa only [Expr.rename, Expr.free] using Expr.passes r sc value

theorem Expr.passesOpt (r : Renaming) (sc : Scope) (x : Option Expr) :
    r.Passes (Expr.freeOpt sc x) (Expr.freeOpt sc (Expr.renameOpt r sc x)) := by
  match x with
  | none => simpa only [Expr.renameOpt, Expr.freeOpt] using .nil r
  | some x => simpa only [Expr.renameOpt, Expr.freeOpt] using Expr.passes r sc x

theorem Expr.passesAll (r : Renaming) (sc : Scope) (xs : List Expr) :
    r.Passes (Expr.freeAll sc xs) (Expr.freeAll sc (Expr.renameAll r sc xs)) := by
  match xs with
  | [] => simpa only [Expr.renameAll, Expr.freeAll] using .nil r
  | x :: xs =>
    simp only [Expr.renameAll, Expr.freeAll]
    exact (Expr.passes r sc x).append (Expr.passesAll r sc xs)

theorem Expr.passesElements (r : Renaming) (sc : Scope) (valueKeys : Bool) (xs : List Expr) :
    r.Passes (Expr.freeElements sc valueKeys xs)
      (Expr.freeElements sc valueKeys (Expr.renameElements r sc valueKeys xs)) := by
  match xs with
  | [] => simpa only [Expr.renameElements, Expr.freeElements] using .nil r
  | x :: xs =>
    have hrest := Expr.passesElements r sc valueKeys xs
    have hx := Expr.passes r sc x
    cases x with
    | keyValue key value =>
      have hvalue := Expr.passes r sc value
      cases key with
      | ident name =>
        have hname := Renaming.Passes.reference r sc name
        cases valueKeys with
        | true =>
          simp only [Expr.renameElements, Expr.freeElements, if_true]
          exact (hname.append hvalue).append hrest
        | false =>
          simp only [Expr.renameElements, Expr.freeElements, Bool.false_eq_true, if_false]
          exact ((Renaming.Passes.nil r).append hvalue).append hrest
      | _ => simpa only [Expr.renameElements, Expr.freeElements, Expr.rename] using hx.append hrest
    | _ => simpa only [Expr.renameElements, Expr.freeElements, Expr.rename] using hx.append hrest

theorem Expr.passesRangeVar (r : Renaming) (sc : Scope) (tok : Option Token) (x : Option Expr) :
    r.Passes (Expr.freeRangeVar sc tok x)
      (Expr.freeRangeVar sc tok (Expr.renameRangeVar r sc tok x)) := by
  match x with
  | none => simpa only [Expr.renameRangeVar, Expr.freeRangeVar] using .nil r
  | some x =>
    have hx := Expr.passes r sc x
    cases x with
    | ident name =>
      simp only [Expr.renameRangeVar, Expr.freeRangeVar]
      split
      · exact .nil r
      · exact .reference r sc name
    | _ => simpa only [Expr.renameRangeVar, Expr.freeRangeVar, Expr.rename] using hx

theorem Field.passes (r : Renaming) (sc : Scope) (f : Field) :
    r.Passes (f.free sc) ((f.rename r sc).free sc) := by
  match f with
  | ⟨names, ty, tag⟩ => simpa only [Field.rename, Field.free] using Expr.passes r sc ty

theorem Field.passesAll (r : Renaming) (sc : Scope) (fields : List Field) :
    r.Passes (Field.freeAll sc fields) (Field.freeAll sc (Field.renameAll r sc fields)) := by
  match fields with
  | [] => simpa only [Field.renameAll, Field.freeAll] using .nil r
  | f :: fs =>
    simp only [Field.renameAll, Field.freeAll]
    exact (Field.passes r sc f).append (Field.passesAll r sc fs)

theorem Field.passesOpt (r : Renaming) (sc : Scope) (fields : Option (List Field)) :
    r.Passes (Field.freeOpt sc fields) (Field.freeOpt sc (Field.renameOpt r sc fields)) := by
  match fields with
  | none => simpa only [Field.renameOpt, Field.freeOpt] using .nil r
  | some fields => simpa only [Field.renameOpt, Field.freeOpt] using Field.passesAll r sc fields

theorem Signature.passes (r : Renaming) (sc : Scope) (sig : Signature) :
    r.Passes (sig.free sc) ((sig.rename r sc).free sc) := by
  match sig with
  | ⟨typeParams, params, results⟩ =>
    simp only [Signature.rename, Signature.free]
    exact ((Field.passesOpt r sc typeParams).append (Field.passesAll r sc params)).append
      (Field.passesOpt r sc results)

theorem Stmt.passes (r : Renaming) (sc : Scope) (s : Stmt) :
    r.Passes (s.free sc) ((s.rename r sc).free sc) := by
  match s with
  | .bad node => simpa only [Stmt.rename, Stmt.free] using .nil r
  | .decl ⟨tok, specs, grouped⟩ =>
    simpa only [Stmt.rename, Stmt.free] using Spec.passesLocal r sc specs
  | .empty => simpa only [Stmt.rename, Stmt.free] using .nil r
  | .labeled label t => simpa only [Stmt.rename, Stmt.free] using Stmt.passes r sc t
  | .expr x => simpa only [Stmt.rename, Stmt.free] using Expr.passes r sc x
  | .send chan value =>
    simp only [Stmt.rename, Stmt.free]
    exact (Expr.passes r sc chan).append (Expr.passes r sc value)
  | .incDec x tok => simpa only [Stmt.rename, Stmt.free] using Expr.passes r sc x
  | .assign lhs tok rhs =>
    simp only [Stmt.rename, Stmt.free]
    refine Renaming.Passes.append ?_ (Expr.passesAll r sc rhs)
    split
    · exact .nil r
    · exact Expr.passesAll r sc lhs
  | .goCall x => simpa only [Stmt.rename, Stmt.free] using Expr.passes r sc x
  | .deferCall x => simpa only [Stmt.rename, Stmt.free] using Expr.passes r sc x
  | .ret results => simpa only [Stmt.rename, Stmt.free] using Expr.passesAll r sc results
  | .branch tok label => simpa only [Stmt.rename, Stmt.free] using .nil r
  | .block list => simpa only [Stmt.rename, Stmt.free] using Stmt.passesAll r sc.enter list
  | .ifElse init cond body orElse =>
    simp only [Stmt.rename, Stmt.free, Stmt.bindsOpt_renameOpt]
    exact (((Stmt.passesOpt r _ init).append (Expr.passes r _ cond)).append
      (Stmt.passesAll r _ body)).append (Stmt.passesOpt r _ orElse)
  | .switch init tag body =>
    simp only [Stmt.rename, Stmt.free, Stmt.bindsOpt_renameOpt]
    exact ((Stmt.passesOpt r _ init).append (Expr.passesOpt r _ tag)).append
      (Clause.passesAll r _ [] body)
  | .typeSwitch init guard body =>
    rw [Stmt.rename_typeSwitch, Stmt.free_typeSwitch, Stmt.free_typeSwitch,
      Stmt.bindsOpt_renameOpt, Stmt.guardBinds_renameGuard, Stmt.guardName_renameGuard]
    refine ((Stmt.passesOpt r _ init).append ?_).append (Clause.passesAll r _ _ body)
    have hguard := Stmt.passes r (sc.enter.bind (Stmt.bindsOpt init)) guard
    cases guard with
    | assign lhs tok rhs => exact Expr.passesAll r _ rhs
    | decl g =>
      cases g
      simpa only [Stmt.renameGuard, Stmt.freeGuard, Stmt.rename] using hguard
    | _ =>
      simpa only [Stmt.renameGuard, Stmt.freeGuard, Stmt.rename, Stmt.rename_typeSwitch]
        using hguard
  | .loop init cond post body =>
    simp only [Stmt.rename, Stmt.free, Stmt.bindsOpt_renameOpt]
    exact (((Stmt.passesOpt r _ init).append (Expr.passesOpt r _ cond)).append
      (Stmt.passesOpt r _ post)).append (Stmt.passesAll r _ body)
  | .range key value tok x body =>
    simp only [Stmt.rename, Stmt.free, Expr.rangeBinds_renameRangeVar]
    exact (((Expr.passes r _ x).append (Expr.passesRangeVar r _ tok key)).append
      (Expr.passesRangeVar r _ tok value)).append (Stmt.passesAll r _ body)

theorem Stmt.passesOpt (r : Renaming) (sc : Scope) (s : Option Stmt) :
    r.Passes (Stmt.freeOpt sc s) (Stmt.freeOpt sc (Stmt.renameOpt r sc s)) := by
  match s with
  | none => simpa only [Stmt.renameOpt, Stmt.freeOpt] using .nil r
  | some s => simpa only [Stmt.renameOpt, Stmt.freeOpt] using Stmt.passes r sc s

theorem Stmt.passesAll (r : Renaming) (sc : Scope) (list : List Stmt) :
    r.Passes (Stmt.freeAll sc list) (Stmt.freeAll sc (Stmt.renameAll r sc list)) := by
  match list with
  | [] => simpa only [Stmt.renameAll, Stmt.freeAll] using .nil r
  | s :: ss =>
    simp only [Stmt.renameAll, Stmt.freeAll, Stmt.binds_rename]
    exact (Stmt.passes r sc s).append (Stmt.passesAll r _ ss)

theorem Clause.passes (r : Renaming) (sc : Scope) (bound : List String) (c : Clause) :
    r.Passes (c.free sc bound) ((c.rename r sc bound).free sc bound) := by
  match c with
  | .matching list body =>
    simp only [Clause.rename, Clause.free]
    exact (Expr.passesAll r _ list).append (Stmt.passesAll r _ body)
  | .otherwise body => simpa only [Clause.rename, Clause.free] using Stmt.passesAll r _ body

theorem Clause.passesAll (r : Renaming) (sc : Scope) (bound : List String) (list : List Clause) :
    r.Passes (Clause.freeAll sc bound list)
      (Clause.freeAll sc bound (Clause.renameAll r sc bound list)) := by
  match list with
  | [] => simpa only [Clause.renameAll, Clause.freeAll] using .nil r
  | c :: cs =>
    simp only [Clause.renameAll, Clause.freeAll]
    exact (Clause.passes r sc bound c).append (Clause.passesAll r sc bound cs)

theorem Spec.passesLocal (r : Renaming) (sc : Scope) (specs : List Spec) :
    r.Passes (Spec.freeLocal sc specs) (Spec.freeLocal sc (Spec.renameLocal r sc specs)) := by
  match specs with
  | [] => simpa only [Spec.renameLocal, Spec.freeLocal] using .nil r
  | .imported spec :: ss =>
    simpa only [Spec.renameLocal, Spec.freeLocal] using Spec.passesLocal r sc ss
  | .value ⟨names, ty, values⟩ :: ss =>
    simp only [Spec.renameLocal, Spec.freeLocal]
    exact ((Expr.passesOpt r sc ty).append (Expr.passesAll r sc values)).append
      (Spec.passesLocal r _ ss)
  | .type ⟨name, typeParams, isAlias, ty⟩ :: ss =>
    simp only [Spec.renameLocal, Spec.freeLocal]
    exact ((Field.passesOpt r _ typeParams).append (Expr.passes r _ ty)).append
      (Spec.passesLocal r _ ss)

end

end GoWeave
