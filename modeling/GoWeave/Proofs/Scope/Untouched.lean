import GoWeave.Proofs.Scope.Declarations

/-!
# Trees that a renaming does not touch

A renaming changes free references only, so a tree without a free reference to the old name is its
own renamed copy.
-/
namespace GoWeave

theorem Renaming.apply_of_not_mem {r : Renaming} {sc : Scope} {name : String}
    (h : r.old ∉ sc.reference name) : r.apply sc name = name := by
  unfold Renaming.apply
  refine if_neg fun ⟨hname, hfree⟩ => h ?_
  rw [← hname, Scope.reference, if_pos hfree]
  exact List.mem_singleton_self name

mutual

theorem Expr.rename_of_not_mem (r : Renaming) (sc : Scope) (x : Expr) (h : r.old ∉ x.free sc) :
    x.rename r sc = x := by
  match x with
  | .bad node => simp only [Expr.rename]
  | .ident name =>
    rw [Expr.free] at h
    simp only [Expr.rename, Renaming.apply_of_not_mem h]
  | .ellipsis elt =>
    rw [Expr.free] at h
    simp only [Expr.rename, Expr.renameOpt_of_not_mem r _ elt h]
  | .literal value => simp only [Expr.rename]
  | .funcLit sig body =>
    simp only [Expr.free, List.mem_append, not_or] at h
    simp only [Expr.rename, Signature.rename_of_not_mem r _ sig h.1,
      Stmt.renameAll_of_not_mem r _ body h.2]
  | .composite ty elts incomplete =>
    simp only [Expr.free, List.mem_append, not_or] at h
    simp only [Expr.rename, Expr.renameOpt_of_not_mem r _ ty h.1,
      Expr.renameElements_of_not_mem r _ _ elts h.2]
  | .paren y =>
    rw [Expr.free] at h
    simp only [Expr.rename, Expr.rename_of_not_mem r _ y h]
  | .selector y sel =>
    rw [Expr.free] at h
    simp only [Expr.rename, Expr.rename_of_not_mem r _ y h]
  | .index y arg =>
    simp only [Expr.free, List.mem_append, not_or] at h
    simp only [Expr.rename, Expr.rename_of_not_mem r _ y h.1, Expr.rename_of_not_mem r _ arg h.2]
  | .indexList y args =>
    simp only [Expr.free, List.mem_append, not_or] at h
    simp only [Expr.rename, Expr.rename_of_not_mem r _ y h.1,
      Expr.renameAll_of_not_mem r _ args h.2]
  | .slice y low high max three =>
    simp only [Expr.free, List.mem_append, not_or] at h
    obtain ⟨⟨⟨hy, hlow⟩, hhigh⟩, hmax⟩ := h
    simp only [Expr.rename, Expr.rename_of_not_mem r _ y hy, Expr.renameOpt_of_not_mem r _ low hlow,
      Expr.renameOpt_of_not_mem r _ high hhigh, Expr.renameOpt_of_not_mem r _ max hmax]
  | .typeAssert y ty =>
    simp only [Expr.free, List.mem_append, not_or] at h
    simp only [Expr.rename, Expr.rename_of_not_mem r _ y h.1, Expr.renameOpt_of_not_mem r _ ty h.2]
  | .call fn args spread =>
    simp only [Expr.free, List.mem_append, not_or] at h
    simp only [Expr.rename, Expr.rename_of_not_mem r _ fn h.1,
      Expr.renameAll_of_not_mem r _ args h.2]
  | .star y =>
    rw [Expr.free] at h
    simp only [Expr.rename, Expr.rename_of_not_mem r _ y h]
  | .unary op y =>
    rw [Expr.free] at h
    simp only [Expr.rename, Expr.rename_of_not_mem r _ y h]
  | .binary op y z =>
    simp only [Expr.free, List.mem_append, not_or] at h
    simp only [Expr.rename, Expr.rename_of_not_mem r _ y h.1, Expr.rename_of_not_mem r _ z h.2]
  | .keyValue key value =>
    simp only [Expr.free, List.mem_append, not_or] at h
    simp only [Expr.rename, Expr.rename_of_not_mem r _ key h.1,
      Expr.rename_of_not_mem r _ value h.2]
  | .arrayType len elt =>
    simp only [Expr.free, List.mem_append, not_or] at h
    simp only [Expr.rename, Expr.renameOpt_of_not_mem r _ len h.1,
      Expr.rename_of_not_mem r _ elt h.2]
  | .structType fields incomplete =>
    rw [Expr.free] at h
    simp only [Expr.rename, Field.renameAll_of_not_mem r _ fields h]
  | .funcType sig =>
    rw [Expr.free] at h
    simp only [Expr.rename, Signature.rename_of_not_mem r _ sig h]
  | .interfaceType methods incomplete =>
    rw [Expr.free] at h
    simp only [Expr.rename, Field.renameAll_of_not_mem r _ methods h]
  | .mapType key value =>
    simp only [Expr.free, List.mem_append, not_or] at h
    simp only [Expr.rename, Expr.rename_of_not_mem r _ key h.1,
      Expr.rename_of_not_mem r _ value h.2]
  | .chanType dir value =>
    rw [Expr.free] at h
    simp only [Expr.rename, Expr.rename_of_not_mem r _ value h]

theorem Expr.renameOpt_of_not_mem (r : Renaming) (sc : Scope) (x : Option Expr)
    (h : r.old ∉ Expr.freeOpt sc x) : Expr.renameOpt r sc x = x := by
  match x with
  | none => simp only [Expr.renameOpt]
  | some x =>
    rw [Expr.freeOpt] at h
    simp only [Expr.renameOpt, Expr.rename_of_not_mem r _ x h]

theorem Expr.renameAll_of_not_mem (r : Renaming) (sc : Scope) (xs : List Expr)
    (h : r.old ∉ Expr.freeAll sc xs) : Expr.renameAll r sc xs = xs := by
  match xs with
  | [] => simp only [Expr.renameAll]
  | x :: xs =>
    simp only [Expr.freeAll, List.mem_append, not_or] at h
    simp only [Expr.renameAll, Expr.rename_of_not_mem r _ x h.1,
      Expr.renameAll_of_not_mem r _ xs h.2]

theorem Expr.renameElements_of_not_mem (r : Renaming) (sc : Scope) (valueKeys : Bool)
    (xs : List Expr) (h : r.old ∉ Expr.freeElements sc valueKeys xs) :
    Expr.renameElements r sc valueKeys xs = xs := by
  match xs with
  | [] => simp only [Expr.renameElements]
  | x :: xs =>
    have hrest := Expr.renameElements_of_not_mem r sc valueKeys xs
    have hx := Expr.rename_of_not_mem r sc x
    cases x with
    | keyValue key value =>
      have hvalue := Expr.rename_of_not_mem r sc value
      cases key with
      | ident name =>
        simp only [Expr.freeElements, List.mem_append, not_or] at h
        obtain ⟨⟨hname, hv⟩, hxs⟩ := h
        have happly : (if valueKeys = true then r.apply sc name else name) = name := by
          split
          · next hkeys =>
            rw [if_pos hkeys] at hname
            exact Renaming.apply_of_not_mem hname
          · rfl
        simp only [Expr.renameElements, happly, hvalue hv, hrest hxs]
      | _ =>
        simp only [Expr.freeElements, List.mem_append (s := Expr.free _ _), not_or] at h
        simp only [Expr.renameElements, hx h.1, hrest h.2]
    | _ =>
      simp only [Expr.freeElements, List.mem_append (s := Expr.free _ _), not_or] at h
      simp only [Expr.renameElements, hx h.1, hrest h.2]

theorem Expr.renameRangeVar_of_not_mem (r : Renaming) (sc : Scope) (tok : Option Token)
    (x : Option Expr) (h : r.old ∉ Expr.freeRangeVar sc tok x) :
    Expr.renameRangeVar r sc tok x = x := by
  match x with
  | none => simp only [Expr.renameRangeVar]
  | some x =>
    have hx := Expr.rename_of_not_mem r sc x
    cases x with
    | ident name =>
      simp only [Expr.freeRangeVar] at h
      simp only [Expr.renameRangeVar]
      split
      · rfl
      · next htok =>
        rw [if_neg htok] at h
        rw [Renaming.apply_of_not_mem h]
    | _ =>
      simp only [Expr.freeRangeVar] at h
      simp only [Expr.renameRangeVar, hx h]

theorem Field.rename_of_not_mem (r : Renaming) (sc : Scope) (f : Field) (h : r.old ∉ f.free sc) :
    f.rename r sc = f := by
  match f with
  | ⟨names, ty, tag⟩ =>
    rw [Field.free] at h
    simp only [Field.rename, Expr.rename_of_not_mem r _ ty h]

theorem Field.renameAll_of_not_mem (r : Renaming) (sc : Scope) (fields : List Field)
    (h : r.old ∉ Field.freeAll sc fields) : Field.renameAll r sc fields = fields := by
  match fields with
  | [] => simp only [Field.renameAll]
  | f :: fs =>
    simp only [Field.freeAll, List.mem_append, not_or] at h
    simp only [Field.renameAll, Field.rename_of_not_mem r _ f h.1,
      Field.renameAll_of_not_mem r _ fs h.2]

theorem Field.renameOpt_of_not_mem (r : Renaming) (sc : Scope) (fields : Option (List Field))
    (h : r.old ∉ Field.freeOpt sc fields) : Field.renameOpt r sc fields = fields := by
  match fields with
  | none => simp only [Field.renameOpt]
  | some fields =>
    rw [Field.freeOpt] at h
    simp only [Field.renameOpt, Field.renameAll_of_not_mem r _ fields h]

theorem Signature.rename_of_not_mem (r : Renaming) (sc : Scope) (sig : Signature)
    (h : r.old ∉ sig.free sc) : sig.rename r sc = sig := by
  match sig with
  | ⟨typeParams, params, results⟩ =>
    simp only [Signature.free, List.mem_append, not_or] at h
    simp only [Signature.rename, Field.renameOpt_of_not_mem r _ typeParams h.1.1,
      Field.renameAll_of_not_mem r _ params h.1.2, Field.renameOpt_of_not_mem r _ results h.2]

theorem Stmt.rename_of_not_mem (r : Renaming) (sc : Scope) (s : Stmt) (h : r.old ∉ s.free sc) :
    s.rename r sc = s := by
  match s with
  | .bad node => simp only [Stmt.rename]
  | .decl ⟨tok, specs, grouped⟩ =>
    rw [Stmt.free] at h
    simp only [Stmt.rename, Spec.renameLocal_of_not_mem r _ specs h]
  | .empty => simp only [Stmt.rename]
  | .labeled label t =>
    rw [Stmt.free] at h
    simp only [Stmt.rename, Stmt.rename_of_not_mem r _ t h]
  | .expr x =>
    rw [Stmt.free] at h
    simp only [Stmt.rename, Expr.rename_of_not_mem r _ x h]
  | .send chan value =>
    simp only [Stmt.free, List.mem_append, not_or] at h
    simp only [Stmt.rename, Expr.rename_of_not_mem r _ chan h.1,
      Expr.rename_of_not_mem r _ value h.2]
  | .incDec x tok =>
    rw [Stmt.free] at h
    simp only [Stmt.rename, Expr.rename_of_not_mem r _ x h]
  | .assign lhs tok rhs =>
    simp only [Stmt.free, List.mem_append, not_or] at h
    have hlhs : (if tok = .define then lhs else Expr.renameAll r sc lhs) = lhs := by
      split
      · rfl
      · next htok =>
        rw [if_neg htok] at h
        exact Expr.renameAll_of_not_mem r _ lhs h.1
    simp only [Stmt.rename, hlhs, Expr.renameAll_of_not_mem r _ rhs h.2]
  | .goCall x =>
    rw [Stmt.free] at h
    simp only [Stmt.rename, Expr.rename_of_not_mem r _ x h]
  | .deferCall x =>
    rw [Stmt.free] at h
    simp only [Stmt.rename, Expr.rename_of_not_mem r _ x h]
  | .ret results =>
    rw [Stmt.free] at h
    simp only [Stmt.rename, Expr.renameAll_of_not_mem r _ results h]
  | .branch tok label => simp only [Stmt.rename]
  | .block list =>
    rw [Stmt.free] at h
    simp only [Stmt.rename, Stmt.renameAll_of_not_mem r _ list h]
  | .ifElse init cond body orElse =>
    simp only [Stmt.free, List.mem_append, not_or] at h
    obtain ⟨⟨⟨hinit, hcond⟩, hbody⟩, helse⟩ := h
    simp only [Stmt.rename, Stmt.renameOpt_of_not_mem r _ init hinit,
      Expr.rename_of_not_mem r _ cond hcond, Stmt.renameAll_of_not_mem r _ body hbody,
      Stmt.renameOpt_of_not_mem r _ orElse helse]
  | .switch init tag body =>
    simp only [Stmt.free, List.mem_append, not_or] at h
    obtain ⟨⟨hinit, htag⟩, hbody⟩ := h
    simp only [Stmt.rename, Stmt.renameOpt_of_not_mem r _ init hinit,
      Expr.renameOpt_of_not_mem r _ tag htag, Clause.renameAll_of_not_mem r _ _ body hbody]
  | .typeSwitch init guard body =>
    rw [Stmt.free_typeSwitch] at h
    simp only [List.mem_append, not_or] at h
    obtain ⟨⟨hinit, hguard⟩, hbody⟩ := h
    have hrename := Stmt.rename_of_not_mem r (sc.enter.bind (Stmt.bindsOpt init)) guard
    have hguard : guard.renameGuard r (sc.enter.bind (Stmt.bindsOpt init)) = guard := by
      cases guard with
      | assign lhs tok rhs => simp only [Stmt.renameGuard, Expr.renameAll_of_not_mem r _ rhs hguard]
      | _ => exact hrename hguard
    rw [Stmt.rename_typeSwitch, hguard, Stmt.renameOpt_of_not_mem r _ init hinit,
      Clause.renameAll_of_not_mem r _ _ body hbody]
  | .loop init cond post body =>
    simp only [Stmt.free, List.mem_append, not_or] at h
    obtain ⟨⟨⟨hinit, hcond⟩, hpost⟩, hbody⟩ := h
    simp only [Stmt.rename, Stmt.renameOpt_of_not_mem r _ init hinit,
      Expr.renameOpt_of_not_mem r _ cond hcond, Stmt.renameOpt_of_not_mem r _ post hpost,
      Stmt.renameAll_of_not_mem r _ body hbody]
  | .range key value tok x body =>
    simp only [Stmt.free, List.mem_append, not_or] at h
    obtain ⟨⟨⟨hx, hkey⟩, hvalue⟩, hbody⟩ := h
    simp only [Stmt.rename, Expr.rename_of_not_mem r _ x hx,
      Expr.renameRangeVar_of_not_mem r _ tok key hkey,
      Expr.renameRangeVar_of_not_mem r _ tok value hvalue, Stmt.renameAll_of_not_mem r _ body hbody]

theorem Stmt.renameOpt_of_not_mem (r : Renaming) (sc : Scope) (s : Option Stmt)
    (h : r.old ∉ Stmt.freeOpt sc s) : Stmt.renameOpt r sc s = s := by
  match s with
  | none => simp only [Stmt.renameOpt]
  | some s =>
    rw [Stmt.freeOpt] at h
    simp only [Stmt.renameOpt, Stmt.rename_of_not_mem r _ s h]

theorem Stmt.renameAll_of_not_mem (r : Renaming) (sc : Scope) (list : List Stmt)
    (h : r.old ∉ Stmt.freeAll sc list) : Stmt.renameAll r sc list = list := by
  match list with
  | [] => simp only [Stmt.renameAll]
  | s :: ss =>
    simp only [Stmt.freeAll, List.mem_append, not_or] at h
    simp only [Stmt.renameAll, Stmt.rename_of_not_mem r _ s h.1,
      Stmt.renameAll_of_not_mem r _ ss h.2]

theorem Clause.rename_of_not_mem (r : Renaming) (sc : Scope) (bound : List String) (c : Clause)
    (h : r.old ∉ c.free sc bound) : c.rename r sc bound = c := by
  match c with
  | .matching list body =>
    simp only [Clause.free, List.mem_append, not_or] at h
    simp only [Clause.rename, Expr.renameAll_of_not_mem r _ list h.1,
      Stmt.renameAll_of_not_mem r _ body h.2]
  | .otherwise body =>
    rw [Clause.free] at h
    simp only [Clause.rename, Stmt.renameAll_of_not_mem r _ body h]

theorem Clause.renameAll_of_not_mem (r : Renaming) (sc : Scope) (bound : List String)
    (list : List Clause) (h : r.old ∉ Clause.freeAll sc bound list) :
    Clause.renameAll r sc bound list = list := by
  match list with
  | [] => simp only [Clause.renameAll]
  | c :: cs =>
    simp only [Clause.freeAll, List.mem_append, not_or] at h
    simp only [Clause.renameAll, Clause.rename_of_not_mem r _ _ c h.1,
      Clause.renameAll_of_not_mem r _ _ cs h.2]

theorem Spec.renameLocal_of_not_mem (r : Renaming) (sc : Scope) (specs : List Spec)
    (h : r.old ∉ Spec.freeLocal sc specs) : Spec.renameLocal r sc specs = specs := by
  match specs with
  | [] => simp only [Spec.renameLocal]
  | .imported spec :: ss =>
    rw [Spec.freeLocal] at h
    simp only [Spec.renameLocal, Spec.renameLocal_of_not_mem r _ ss h]
  | .value ⟨names, ty, values⟩ :: ss =>
    simp only [Spec.freeLocal, List.mem_append, not_or] at h
    simp only [Spec.renameLocal, Expr.renameOpt_of_not_mem r _ ty h.1.1,
      Expr.renameAll_of_not_mem r _ values h.1.2, Spec.renameLocal_of_not_mem r _ ss h.2]
  | .type ⟨name, typeParams, isAlias, ty⟩ :: ss =>
    simp only [Spec.freeLocal, List.mem_append, not_or] at h
    simp only [Spec.renameLocal, Field.renameOpt_of_not_mem r _ typeParams h.1.1,
      Expr.rename_of_not_mem r _ ty h.1.2, Spec.renameLocal_of_not_mem r _ ss h.2]

end

/-! ## Declarations -/

theorem ValueSpec.rename_of_not_mem {r : Renaming} {spec : ValueSpec}
    (h : r.old ∉ spec.free .root) : spec.rename r .root = spec := by
  simp only [ValueSpec.free, List.mem_append, not_or, List.mem_flatMap, not_exists, not_and] at h
  obtain ⟨⟨hnames, hty⟩, hvalues⟩ := h
  have hmap : spec.names.map (r.apply .root) = spec.names :=
    (List.map_congr_left fun name hname => Renaming.apply_of_not_mem (hnames name hname)).trans
      (List.map_id spec.names)
  rw [ValueSpec.rename, hmap, Expr.renameOpt_of_not_mem r _ _ hty,
    Expr.renameAll_of_not_mem r _ _ hvalues]
  cases spec
  rfl

theorem TypeSpec.rename_of_not_mem {r : Renaming} {spec : TypeSpec}
    (h : r.old ∉ spec.free .root) : spec.rename r .root = spec := by
  simp only [TypeSpec.free, List.mem_append, not_or] at h
  obtain ⟨⟨hname, hparams⟩, hty⟩ := h
  rw [TypeSpec.rename, Renaming.apply_of_not_mem hname, Field.renameOpt_of_not_mem r _ _ hparams,
    Expr.rename_of_not_mem r _ _ hty]
  cases spec
  rfl

theorem FuncDecl.rename_of_not_mem {r : Renaming} {f : FuncDecl} (h : r.old ∉ f.free .root) :
    f.rename r .root = f := by
  simp only [FuncDecl.free, List.mem_append, not_or] at h
  obtain ⟨⟨⟨⟨⟨hname, hparams⟩, hrecv⟩, hargs⟩, hresults⟩, hbody⟩ := h
  have hname : (if f.recv.isSome then f.name else r.apply .root f.name) = f.name := by
    split
    · rfl
    · next hnone =>
      rw [if_neg hnone] at hname
      exact Renaming.apply_of_not_mem hname
  have hbody : f.body.map (Stmt.renameAll r (f.bodyScope .root)) = f.body := by
    cases hf : f.body with
    | none => rfl
    | some body =>
      rw [hf] at hbody
      exact congrArg some (Stmt.renameAll_of_not_mem r _ body hbody)
  rw [FuncDecl.rename, hname, hbody, Field.renameOpt_of_not_mem r _ _ hparams,
    Field.renameOpt_of_not_mem r _ _ hrecv, Field.renameAll_of_not_mem r _ _ hargs,
    Field.renameOpt_of_not_mem r _ _ hresults]
  cases f with
  | mk recv name sig body =>
    cases sig
    rfl

theorem Spec.rename_of_not_mem {r : Renaming} {spec : Spec} (h : r.old ∉ spec.free .root) :
    spec.rename r .root = spec := by
  cases spec with
  | imported spec => rfl
  | value spec => exact congrArg Spec.value (ValueSpec.rename_of_not_mem h)
  | type spec => exact congrArg Spec.type (TypeSpec.rename_of_not_mem h)

namespace Decl

theorem rename_of_not_mem {r : Renaming} {d : Decl} (h : r.old ∉ d.free) : d.rename r = d := by
  cases d with
  | bad node => rfl
  | group g =>
    rw [Decl.free, DeclGroup.free, List.mem_flatMap, not_exists] at h
    have hspecs : g.specs.map (Spec.rename r .root) = g.specs :=
      (List.map_congr_left fun spec hspec =>
        Spec.rename_of_not_mem fun hmem => h spec ⟨hspec, hmem⟩).trans (List.map_id g.specs)
    rw [Decl.rename, DeclGroup.rename, hspecs]
    cases g
    rfl
  | func f => exact congrArg Decl.func (FuncDecl.rename_of_not_mem h)

theorem renameAll_of_not_mem {r : Renaming} {decls : List Decl} (h : r.old ∉ freeAll decls) :
    renameAll r decls = decls := by
  rw [freeAll, List.mem_flatMap, not_exists] at h
  exact (List.map_congr_left fun d hd => rename_of_not_mem fun hmem => h d ⟨hd, hmem⟩).trans
    (List.map_id decls)

end Decl

end GoWeave
