import GoWeave.Proofs.Declaration.Commute
import GoWeave.Proofs.Scope.Reversal

/-!
# Independent edits

Two renamings are independent if neither gives up or takes the name that the other gives up. Each
leaves the bindings of the tree and the references of the other alone, so they may be done in either
order: every scope is the same on both ways, and at each place at most one of them acts.
-/
namespace GoWeave

/-- Neither renaming touches the references of the other. The new names may be the same. -/
structure Renaming.Independent (r s : Renaming) : Prop where
  old_ne_old : r.old ≠ s.old
  new_ne_old : r.new ≠ s.old
  old_ne_new : r.old ≠ s.new

/-! ## A single reference -/

namespace Renaming

variable {r s : Renaming}

theorem Independent.apply_comm (h : r.Independent s) (sc : Scope) (name : String) :
    s.apply sc (r.apply sc name) = r.apply sc (s.apply sc name) := by
  unfold apply
  by_cases hr : name = r.old ∧ sc.isFree name = true
  · have hs : ¬(name = s.old ∧ sc.isFree name = true) := fun hs =>
      h.old_ne_old (hr.1.symm.trans hs.1)
    rw [if_pos hr, if_neg hs, if_pos hr]
    exact if_neg fun hnew => h.new_ne_old hnew.1
  · rw [if_neg hr]
    by_cases hs : name = s.old ∧ sc.isFree name = true
    · rw [if_pos hs]
      exact (if_neg fun hnew => h.old_ne_new hnew.1.symm).symm
    · rw [if_neg hs, if_neg hr]

theorem count_reference_apply {name : String} (hold : name ≠ r.old) (hnew : name ≠ r.new)
    (sc : Scope) (ref : String) :
    (sc.reference (r.apply sc ref)).count name = (sc.reference ref).count name := by
  have hcount : ∀ ref, ref ≠ name → (sc.reference ref).count name = 0 := by
    intro ref hne
    rw [List.count_eq_zero, Scope.reference]
    split
    · simpa using hne.symm
    · exact List.not_mem_nil
  unfold apply
  split
  · next href => rw [hcount _ hnew.symm, hcount _ (href.1 ▸ hold.symm)]
  · rfl

/-- A part of a tree is the same after two renamings in either order, and each of them finds as many
references after the other as before. The lists are the free references of the part at first, after
`r` and after `s`. -/
structure Interchange {α : Type} (r s : Renaming) (rs sr : α) (free freeR freeS : List String) :
    Prop where
  eq : rs = sr
  count_left : freeS.count r.old = free.count r.old
  count_right : freeR.count s.old = free.count s.old

namespace Interchange

variable {α β γ : Type} {rs sr : α} {rs' sr' : β} {free freeR freeS : List String}
  {free' freeR' freeS' : List String}

theorem refl (r s : Renaming) (x : α) : Interchange r s x x [] [] [] :=
  ⟨rfl, rfl, rfl⟩

theorem map (g : α → β) (h : Interchange r s rs sr free freeR freeS) :
    Interchange r s (g rs) (g sr) free freeR freeS :=
  ⟨congrArg g h.eq, h.count_left, h.count_right⟩

theorem map₂ (g : α → β → γ) (h : Interchange r s rs sr free freeR freeS)
    (h' : Interchange r s rs' sr' free' freeR' freeS') :
    Interchange r s (g rs rs') (g sr sr') (free ++ free') (freeR ++ freeR') (freeS ++ freeS') where
  eq := congrArg₂ g h.eq h'.eq
  count_left := by rw [List.count_append, List.count_append, h.count_left, h'.count_left]
  count_right := by rw [List.count_append, List.count_append, h.count_right, h'.count_right]

theorem reference (h : r.Independent s) (sc : Scope) (name : String) :
    Interchange r s (s.apply sc (r.apply sc name)) (r.apply sc (s.apply sc name))
      (sc.reference name) (sc.reference (r.apply sc name)) (sc.reference (s.apply sc name)) where
  eq := h.apply_comm sc name
  count_left := count_reference_apply h.old_ne_old h.old_ne_new sc name
  count_right := count_reference_apply h.old_ne_old.symm h.new_ne_old.symm sc name

end Interchange

end Renaming

/-! ## Expressions and statements -/

section

variable {r s : Renaming}

mutual

theorem Expr.interchange (h : r.Independent s) (sc : Scope) (x : Expr) :
    r.Interchange s ((x.rename r sc).rename s sc) ((x.rename s sc).rename r sc) (x.free sc)
      ((x.rename r sc).free sc) ((x.rename s sc).free sc) := by
  match x with
  | .bad node =>
    simp only [Expr.rename, Expr.free]
    exact .refl r s _
  | .ident name =>
    simp only [Expr.rename, Expr.free]
    exact (Renaming.Interchange.reference h sc name).map Expr.ident
  | .ellipsis elt =>
    simp only [Expr.rename, Expr.free]
    exact (Expr.interchangeOpt h sc elt).map Expr.ellipsis
  | .literal value =>
    simp only [Expr.rename, Expr.free]
    exact .refl r s _
  | .funcLit sig body =>
    simp only [Expr.rename, Expr.free, Signature.typeParamNames_rename, Signature.bodyNames_rename]
    exact (Signature.interchange h _ sig).map₂ Expr.funcLit (Stmt.interchangeAll h _ body)
  | .composite ty elts incomplete =>
    simp only [Expr.rename, Expr.free, Expr.hasValueKeys_renameOpt]
    exact (Expr.interchangeOpt h sc ty).map₂ (Expr.composite · · incomplete)
      (Expr.interchangeElements h sc _ elts)
  | .paren y =>
    simp only [Expr.rename, Expr.free]
    exact (Expr.interchange h sc y).map Expr.paren
  | .selector y sel =>
    simp only [Expr.rename, Expr.free]
    exact (Expr.interchange h sc y).map (Expr.selector · sel)
  | .index y arg =>
    simp only [Expr.rename, Expr.free]
    exact (Expr.interchange h sc y).map₂ Expr.index (Expr.interchange h sc arg)
  | .indexList y args =>
    simp only [Expr.rename, Expr.free]
    exact (Expr.interchange h sc y).map₂ Expr.indexList (Expr.interchangeAll h sc args)
  | .slice y low high max three =>
    simp only [Expr.rename, Expr.free, List.append_assoc]
    exact (Expr.interchange h sc y).map₂ (fun y p => Expr.slice y p.1 p.2.1 p.2.2 three)
      ((Expr.interchangeOpt h sc low).map₂ Prod.mk
        ((Expr.interchangeOpt h sc high).map₂ Prod.mk (Expr.interchangeOpt h sc max)))
  | .typeAssert y ty =>
    simp only [Expr.rename, Expr.free]
    exact (Expr.interchange h sc y).map₂ Expr.typeAssert (Expr.interchangeOpt h sc ty)
  | .call fn args spread =>
    simp only [Expr.rename, Expr.free]
    exact (Expr.interchange h sc fn).map₂ (Expr.call · · spread) (Expr.interchangeAll h sc args)
  | .star y =>
    simp only [Expr.rename, Expr.free]
    exact (Expr.interchange h sc y).map Expr.star
  | .unary op y =>
    simp only [Expr.rename, Expr.free]
    exact (Expr.interchange h sc y).map (Expr.unary op)
  | .binary op y z =>
    simp only [Expr.rename, Expr.free]
    exact (Expr.interchange h sc y).map₂ (Expr.binary op) (Expr.interchange h sc z)
  | .keyValue key value =>
    simp only [Expr.rename, Expr.free]
    exact (Expr.interchange h sc key).map₂ Expr.keyValue (Expr.interchange h sc value)
  | .arrayType len elt =>
    simp only [Expr.rename, Expr.free]
    exact (Expr.interchangeOpt h sc len).map₂ Expr.arrayType (Expr.interchange h sc elt)
  | .structType fields incomplete =>
    simp only [Expr.rename, Expr.free]
    exact (Field.interchangeAll h sc fields).map (Expr.structType · incomplete)
  | .funcType sig =>
    simp only [Expr.rename, Expr.free]
    exact (Signature.interchange h sc sig).map Expr.funcType
  | .interfaceType methods incomplete =>
    simp only [Expr.rename, Expr.free]
    exact (Field.interchangeAll h sc methods).map (Expr.interfaceType · incomplete)
  | .mapType key value =>
    simp only [Expr.rename, Expr.free]
    exact (Expr.interchange h sc key).map₂ Expr.mapType (Expr.interchange h sc value)
  | .chanType dir value =>
    simp only [Expr.rename, Expr.free]
    exact (Expr.interchange h sc value).map (Expr.chanType dir)

theorem Expr.interchangeOpt (h : r.Independent s) (sc : Scope) (x : Option Expr) :
    r.Interchange s (Expr.renameOpt s sc (Expr.renameOpt r sc x))
      (Expr.renameOpt r sc (Expr.renameOpt s sc x)) (Expr.freeOpt sc x)
      (Expr.freeOpt sc (Expr.renameOpt r sc x)) (Expr.freeOpt sc (Expr.renameOpt s sc x)) := by
  match x with
  | none =>
    simp only [Expr.renameOpt, Expr.freeOpt]
    exact .refl r s _
  | some x =>
    simp only [Expr.renameOpt, Expr.freeOpt]
    exact (Expr.interchange h sc x).map some

theorem Expr.interchangeAll (h : r.Independent s) (sc : Scope) (xs : List Expr) :
    r.Interchange s (Expr.renameAll s sc (Expr.renameAll r sc xs))
      (Expr.renameAll r sc (Expr.renameAll s sc xs)) (Expr.freeAll sc xs)
      (Expr.freeAll sc (Expr.renameAll r sc xs)) (Expr.freeAll sc (Expr.renameAll s sc xs)) := by
  match xs with
  | [] =>
    simp only [Expr.renameAll, Expr.freeAll]
    exact .refl r s _
  | x :: xs =>
    simp only [Expr.renameAll, Expr.freeAll]
    exact (Expr.interchange h sc x).map₂ List.cons (Expr.interchangeAll h sc xs)

theorem Expr.interchangeElements (h : r.Independent s) (sc : Scope) (valueKeys : Bool)
    (xs : List Expr) :
    r.Interchange s
      (Expr.renameElements s sc valueKeys (Expr.renameElements r sc valueKeys xs))
      (Expr.renameElements r sc valueKeys (Expr.renameElements s sc valueKeys xs))
      (Expr.freeElements sc valueKeys xs)
      (Expr.freeElements sc valueKeys (Expr.renameElements r sc valueKeys xs))
      (Expr.freeElements sc valueKeys (Expr.renameElements s sc valueKeys xs)) := by
  match xs with
  | [] =>
    simp only [Expr.renameElements, Expr.freeElements]
    exact .refl r s _
  | x :: xs =>
    have hx := Expr.interchange h sc x
    have hrest := Expr.interchangeElements h sc valueKeys xs
    cases x with
    | keyValue key value =>
      have hvalue := Expr.interchange h sc value
      cases key with
      | ident name =>
        cases valueKeys with
        | true =>
          simp only [Expr.renameElements, Expr.freeElements, if_true, List.append_assoc]
          exact (Renaming.Interchange.reference h sc name).map₂
            (fun key p => .keyValue (.ident key) p.1 :: p.2) (hvalue.map₂ Prod.mk hrest)
        | false =>
          simp only [Expr.renameElements, Expr.freeElements, Bool.false_eq_true, if_false,
            List.nil_append]
          exact hvalue.map₂ (fun value rest => .keyValue (.ident name) value :: rest) hrest
      | _ =>
        simpa only [Expr.renameElements, Expr.freeElements, Expr.rename] using
          hx.map₂ List.cons hrest
    | _ =>
      simpa only [Expr.renameElements, Expr.freeElements, Expr.rename] using
        hx.map₂ List.cons hrest

theorem Expr.interchangeRangeVar (h : r.Independent s) (sc : Scope) (tok : Option Token)
    (x : Option Expr) :
    r.Interchange s (Expr.renameRangeVar s sc tok (Expr.renameRangeVar r sc tok x))
      (Expr.renameRangeVar r sc tok (Expr.renameRangeVar s sc tok x))
      (Expr.freeRangeVar sc tok x) (Expr.freeRangeVar sc tok (Expr.renameRangeVar r sc tok x))
      (Expr.freeRangeVar sc tok (Expr.renameRangeVar s sc tok x)) := by
  match x with
  | none =>
    simp only [Expr.renameRangeVar, Expr.freeRangeVar]
    exact .refl r s _
  | some x =>
    have hx := Expr.interchange h sc x
    cases x with
    | ident name =>
      simp only [Expr.renameRangeVar, Expr.freeRangeVar]
      by_cases htok : tok = some .define
      · simp only [if_pos htok]
        exact .refl r s _
      · simp only [if_neg htok]
        exact (Renaming.Interchange.reference h sc name).map fun name => some (Expr.ident name)
    | _ => simpa only [Expr.renameRangeVar, Expr.freeRangeVar, Expr.rename] using hx.map some

theorem Field.interchange (h : r.Independent s) (sc : Scope) (f : Field) :
    r.Interchange s ((f.rename r sc).rename s sc) ((f.rename s sc).rename r sc) (f.free sc)
      ((f.rename r sc).free sc) ((f.rename s sc).free sc) := by
  match f with
  | ⟨names, ty, tag⟩ =>
    simp only [Field.rename, Field.free]
    exact (Expr.interchange h sc ty).map (Field.mk names · tag)

theorem Field.interchangeAll (h : r.Independent s) (sc : Scope) (fields : List Field) :
    r.Interchange s (Field.renameAll s sc (Field.renameAll r sc fields))
      (Field.renameAll r sc (Field.renameAll s sc fields)) (Field.freeAll sc fields)
      (Field.freeAll sc (Field.renameAll r sc fields))
      (Field.freeAll sc (Field.renameAll s sc fields)) := by
  match fields with
  | [] =>
    simp only [Field.renameAll, Field.freeAll]
    exact .refl r s _
  | f :: fs =>
    simp only [Field.renameAll, Field.freeAll]
    exact (Field.interchange h sc f).map₂ List.cons (Field.interchangeAll h sc fs)

theorem Field.interchangeOpt (h : r.Independent s) (sc : Scope) (fields : Option (List Field)) :
    r.Interchange s (Field.renameOpt s sc (Field.renameOpt r sc fields))
      (Field.renameOpt r sc (Field.renameOpt s sc fields)) (Field.freeOpt sc fields)
      (Field.freeOpt sc (Field.renameOpt r sc fields))
      (Field.freeOpt sc (Field.renameOpt s sc fields)) := by
  match fields with
  | none =>
    simp only [Field.renameOpt, Field.freeOpt]
    exact .refl r s _
  | some fields =>
    simp only [Field.renameOpt, Field.freeOpt]
    exact (Field.interchangeAll h sc fields).map some

theorem Signature.interchange (h : r.Independent s) (sc : Scope) (sig : Signature) :
    r.Interchange s ((sig.rename r sc).rename s sc) ((sig.rename s sc).rename r sc) (sig.free sc)
      ((sig.rename r sc).free sc) ((sig.rename s sc).free sc) := by
  match sig with
  | ⟨typeParams, params, results⟩ =>
    simp only [Signature.rename, Signature.free, List.append_assoc]
    exact (Field.interchangeOpt h sc typeParams).map₂ (fun t p => Signature.mk t p.1 p.2)
      ((Field.interchangeAll h sc params).map₂ Prod.mk (Field.interchangeOpt h sc results))

theorem Stmt.interchange (h : r.Independent s) (sc : Scope) (t : Stmt) :
    r.Interchange s ((t.rename r sc).rename s sc) ((t.rename s sc).rename r sc) (t.free sc)
      ((t.rename r sc).free sc) ((t.rename s sc).free sc) := by
  match t with
  | .bad node =>
    simp only [Stmt.rename, Stmt.free]
    exact .refl r s _
  | .decl ⟨tok, specs, grouped⟩ =>
    simp only [Stmt.rename, Stmt.free]
    exact (Spec.interchangeLocal h sc specs).map fun specs => Stmt.decl ⟨tok, specs, grouped⟩
  | .empty =>
    simp only [Stmt.rename, Stmt.free]
    exact .refl r s _
  | .labeled label t =>
    simp only [Stmt.rename, Stmt.free]
    exact (Stmt.interchange h sc t).map (Stmt.labeled label)
  | .expr x =>
    simp only [Stmt.rename, Stmt.free]
    exact (Expr.interchange h sc x).map Stmt.expr
  | .send chan value =>
    simp only [Stmt.rename, Stmt.free]
    exact (Expr.interchange h sc chan).map₂ Stmt.send (Expr.interchange h sc value)
  | .incDec x tok =>
    simp only [Stmt.rename, Stmt.free]
    exact (Expr.interchange h sc x).map (Stmt.incDec · tok)
  | .assign lhs tok rhs =>
    simp only [Stmt.rename, Stmt.free]
    by_cases htok : tok = .define
    · simp only [if_pos htok, List.nil_append]
      exact (Expr.interchangeAll h sc rhs).map (Stmt.assign lhs tok)
    · simp only [if_neg htok]
      exact (Expr.interchangeAll h sc lhs).map₂ (Stmt.assign · tok) (Expr.interchangeAll h sc rhs)
  | .goCall x =>
    simp only [Stmt.rename, Stmt.free]
    exact (Expr.interchange h sc x).map Stmt.goCall
  | .deferCall x =>
    simp only [Stmt.rename, Stmt.free]
    exact (Expr.interchange h sc x).map Stmt.deferCall
  | .ret results =>
    simp only [Stmt.rename, Stmt.free]
    exact (Expr.interchangeAll h sc results).map Stmt.ret
  | .branch tok label =>
    simp only [Stmt.rename, Stmt.free]
    exact .refl r s _
  | .block list =>
    simp only [Stmt.rename, Stmt.free]
    exact (Stmt.interchangeAll h sc.enter list).map Stmt.block
  | .ifElse init cond body orElse =>
    simp only [Stmt.rename, Stmt.free, Stmt.bindsOpt_renameOpt, List.append_assoc]
    exact (Stmt.interchangeOpt h sc.enter init).map₂
      (fun init p => Stmt.ifElse init p.1 p.2.1 p.2.2)
      ((Expr.interchange h _ cond).map₂ Prod.mk
        ((Stmt.interchangeAll h _ body).map₂ Prod.mk (Stmt.interchangeOpt h _ orElse)))
  | .switch init tag body =>
    simp only [Stmt.rename, Stmt.free, Stmt.bindsOpt_renameOpt, List.append_assoc]
    exact (Stmt.interchangeOpt h sc.enter init).map₂ (fun init p => Stmt.switch init p.1 p.2)
      ((Expr.interchangeOpt h _ tag).map₂ Prod.mk (Clause.interchangeAll h _ [] body))
  | .typeSwitch init guard body =>
    simp only [Stmt.rename_typeSwitch, Stmt.free_typeSwitch, Stmt.bindsOpt_renameOpt,
      Stmt.guardBinds_renameGuard, Stmt.guardName_renameGuard, List.append_assoc]
    refine (Stmt.interchangeOpt h sc.enter init).map₂
      (fun init p => Stmt.typeSwitch init p.1 p.2)
      (Renaming.Interchange.map₂ Prod.mk ?_ (Clause.interchangeAll h _ guard.guardName body))
    have hguard := Stmt.interchange h (sc.enter.bind (Stmt.bindsOpt init)) guard
    cases guard with
    | assign lhs tok rhs => exact (Expr.interchangeAll h _ rhs).map (Stmt.assign lhs tok)
    | decl g =>
      cases g
      simpa only [Stmt.renameGuard, Stmt.freeGuard, Stmt.rename] using hguard
    | _ =>
      simpa only [Stmt.renameGuard, Stmt.freeGuard, Stmt.rename, Stmt.rename_typeSwitch] using
        hguard
  | .loop init cond post body =>
    simp only [Stmt.rename, Stmt.free, Stmt.bindsOpt_renameOpt, List.append_assoc]
    exact (Stmt.interchangeOpt h sc.enter init).map₂
      (fun init p => Stmt.loop init p.1 p.2.1 p.2.2)
      ((Expr.interchangeOpt h _ cond).map₂ Prod.mk
        ((Stmt.interchangeOpt h _ post).map₂ Prod.mk (Stmt.interchangeAll h _ body)))
  | .range key value tok x body =>
    simp only [Stmt.rename, Stmt.free, Expr.rangeBinds_renameRangeVar, List.append_assoc]
    exact (Expr.interchange h sc x).map₂ (fun x p => Stmt.range p.1 p.2.1 tok x p.2.2)
      ((Expr.interchangeRangeVar h sc.enter tok key).map₂ Prod.mk
        ((Expr.interchangeRangeVar h _ tok value).map₂ Prod.mk (Stmt.interchangeAll h _ body)))

theorem Stmt.interchangeOpt (h : r.Independent s) (sc : Scope) (t : Option Stmt) :
    r.Interchange s (Stmt.renameOpt s sc (Stmt.renameOpt r sc t))
      (Stmt.renameOpt r sc (Stmt.renameOpt s sc t)) (Stmt.freeOpt sc t)
      (Stmt.freeOpt sc (Stmt.renameOpt r sc t)) (Stmt.freeOpt sc (Stmt.renameOpt s sc t)) := by
  match t with
  | none =>
    simp only [Stmt.renameOpt, Stmt.freeOpt]
    exact .refl r s _
  | some t =>
    simp only [Stmt.renameOpt, Stmt.freeOpt]
    exact (Stmt.interchange h sc t).map some

theorem Stmt.interchangeAll (h : r.Independent s) (sc : Scope) (list : List Stmt) :
    r.Interchange s (Stmt.renameAll s sc (Stmt.renameAll r sc list))
      (Stmt.renameAll r sc (Stmt.renameAll s sc list)) (Stmt.freeAll sc list)
      (Stmt.freeAll sc (Stmt.renameAll r sc list))
      (Stmt.freeAll sc (Stmt.renameAll s sc list)) := by
  match list with
  | [] =>
    simp only [Stmt.renameAll, Stmt.freeAll]
    exact .refl r s _
  | t :: ts =>
    simp only [Stmt.renameAll, Stmt.freeAll, Stmt.binds_rename]
    exact (Stmt.interchange h sc t).map₂ List.cons (Stmt.interchangeAll h _ ts)

theorem Clause.interchange (h : r.Independent s) (sc : Scope) (bound : List String) (c : Clause) :
    r.Interchange s ((c.rename r sc bound).rename s sc bound)
      ((c.rename s sc bound).rename r sc bound) (c.free sc bound)
      ((c.rename r sc bound).free sc bound) ((c.rename s sc bound).free sc bound) := by
  match c with
  | .matching list body =>
    simp only [Clause.rename, Clause.free]
    exact (Expr.interchangeAll h sc.enter list).map₂ Clause.matching (Stmt.interchangeAll h _ body)
  | .otherwise body =>
    simp only [Clause.rename, Clause.free]
    exact (Stmt.interchangeAll h _ body).map Clause.otherwise

theorem Clause.interchangeAll (h : r.Independent s) (sc : Scope) (bound : List String)
    (list : List Clause) :
    r.Interchange s (Clause.renameAll s sc bound (Clause.renameAll r sc bound list))
      (Clause.renameAll r sc bound (Clause.renameAll s sc bound list))
      (Clause.freeAll sc bound list)
      (Clause.freeAll sc bound (Clause.renameAll r sc bound list))
      (Clause.freeAll sc bound (Clause.renameAll s sc bound list)) := by
  match list with
  | [] =>
    simp only [Clause.renameAll, Clause.freeAll]
    exact .refl r s _
  | c :: cs =>
    simp only [Clause.renameAll, Clause.freeAll]
    exact (Clause.interchange h sc bound c).map₂ List.cons (Clause.interchangeAll h sc bound cs)

theorem Spec.interchangeLocal (h : r.Independent s) (sc : Scope) (specs : List Spec) :
    r.Interchange s (Spec.renameLocal s sc (Spec.renameLocal r sc specs))
      (Spec.renameLocal r sc (Spec.renameLocal s sc specs)) (Spec.freeLocal sc specs)
      (Spec.freeLocal sc (Spec.renameLocal r sc specs))
      (Spec.freeLocal sc (Spec.renameLocal s sc specs)) := by
  match specs with
  | [] =>
    simp only [Spec.renameLocal, Spec.freeLocal]
    exact .refl r s _
  | .imported spec :: ss =>
    simp only [Spec.renameLocal, Spec.freeLocal]
    exact (Spec.interchangeLocal h sc ss).map (.imported spec :: ·)
  | .value ⟨names, ty, values⟩ :: ss =>
    simp only [Spec.renameLocal, Spec.freeLocal, List.append_assoc]
    exact (Expr.interchangeOpt h sc ty).map₂ (fun ty p => .value ⟨names, ty, p.1⟩ :: p.2)
      ((Expr.interchangeAll h sc values).map₂ Prod.mk (Spec.interchangeLocal h _ ss))
  | .type ⟨name, typeParams, isAlias, ty⟩ :: ss =>
    simp only [Spec.renameLocal, Spec.freeLocal, List.append_assoc]
    exact (Field.interchangeOpt h _ typeParams).map₂
      (fun typeParams p => .type ⟨name, typeParams, isAlias, p.1⟩ :: p.2)
      ((Expr.interchange h _ ty).map₂ Prod.mk (Spec.interchangeLocal h _ ss))

end

/-! ## Declarations -/

theorem Renaming.Interchange.names (h : r.Independent s) (names : List String) :
    r.Interchange s ((names.map (r.apply .root)).map (s.apply .root))
      ((names.map (s.apply .root)).map (r.apply .root)) (names.flatMap Scope.root.reference)
      ((names.map (r.apply .root)).flatMap Scope.root.reference)
      ((names.map (s.apply .root)).flatMap Scope.root.reference) := by
  induction names with
  | nil => exact .refl r s _
  | cons name names ih => exact (Renaming.Interchange.reference h .root name).map₂ List.cons ih

theorem ValueSpec.interchange (h : r.Independent s) (spec : ValueSpec) :
    r.Interchange s ((spec.rename r .root).rename s .root) ((spec.rename s .root).rename r .root)
      (spec.free .root) ((spec.rename r .root).free .root) ((spec.rename s .root).free .root) := by
  simp only [ValueSpec.rename, ValueSpec.free, List.append_assoc]
  exact (Renaming.Interchange.names h spec.names).map₂ (fun names p => ValueSpec.mk names p.1 p.2)
    ((Expr.interchangeOpt h .root spec.ty).map₂ Prod.mk (Expr.interchangeAll h .root spec.values))

theorem TypeSpec.interchange (h : r.Independent s) (spec : TypeSpec) :
    r.Interchange s ((spec.rename r .root).rename s .root) ((spec.rename s .root).rename r .root)
      (spec.free .root) ((spec.rename r .root).free .root) ((spec.rename s .root).free .root) := by
  simp only [TypeSpec.rename, TypeSpec.free, Field.declared_renameOpt, List.append_assoc]
  exact (Renaming.Interchange.reference h .root spec.name).map₂
    (fun name p => TypeSpec.mk name p.1 spec.isAlias p.2)
    ((Field.interchangeOpt h _ spec.typeParams).map₂ Prod.mk (Expr.interchange h _ spec.ty))

theorem Spec.interchange (h : r.Independent s) (spec : Spec) :
    r.Interchange s ((spec.rename r .root).rename s .root) ((spec.rename s .root).rename r .root)
      (spec.free .root) ((spec.rename r .root).free .root) ((spec.rename s .root).free .root) := by
  cases spec with
  | imported spec => exact .refl r s _
  | value spec => exact (spec.interchange h).map Spec.value
  | type spec => exact (spec.interchange h).map Spec.type

theorem Spec.interchangeAll (h : r.Independent s) (specs : List Spec) :
    r.Interchange s ((specs.map (Spec.rename r .root)).map (Spec.rename s .root))
      ((specs.map (Spec.rename s .root)).map (Spec.rename r .root))
      (specs.flatMap (Spec.free .root))
      ((specs.map (Spec.rename r .root)).flatMap (Spec.free .root))
      ((specs.map (Spec.rename s .root)).flatMap (Spec.free .root)) := by
  induction specs with
  | nil => exact .refl r s _
  | cons spec specs ih => exact (spec.interchange h).map₂ List.cons ih

namespace FuncDecl

theorem interchangeName (h : r.Independent s) (f : FuncDecl) :
    r.Interchange s ((f.rename r .root).rename s .root).name
      ((f.rename s .root).rename r .root).name
      (if f.recv.isSome then [] else Scope.root.reference f.name)
      (if (f.rename r .root).recv.isSome then []
        else Scope.root.reference (f.rename r .root).name)
      (if (f.rename s .root).recv.isSome then []
        else Scope.root.reference (f.rename s .root).name) := by
  cases hrecv : f.recv with
  | none =>
    simpa [FuncDecl.rename, hrecv, Field.renameOpt] using
      Renaming.Interchange.reference h .root f.name
  | some fields => simpa [FuncDecl.rename, hrecv, Field.renameOpt] using .refl r s f.name

theorem interchangeBody (h : r.Independent s) (sc : Scope) (f : FuncDecl) :
    r.Interchange s ((f.body.map (Stmt.renameAll r sc)).map (Stmt.renameAll s sc))
      ((f.body.map (Stmt.renameAll s sc)).map (Stmt.renameAll r sc))
      ((f.body.map (Stmt.freeAll sc)).getD [])
      (((f.body.map (Stmt.renameAll r sc)).map (Stmt.freeAll sc)).getD [])
      (((f.body.map (Stmt.renameAll s sc)).map (Stmt.freeAll sc)).getD []) := by
  cases f.body with
  | none => exact .refl r s _
  | some body => exact (Stmt.interchangeAll h sc body).map some

theorem interchange (h : r.Independent s) (f : FuncDecl) :
    r.Interchange s ((f.rename r .root).rename s .root) ((f.rename s .root).rename r .root)
      (f.free .root) ((f.rename r .root).free .root) ((f.rename s .root).free .root) := by
  have hall := (f.interchangeName h).map₂
    (fun name p => FuncDecl.mk p.2.1 name ⟨p.1, p.2.2.1, p.2.2.2.1⟩ p.2.2.2.2)
    ((Field.interchangeOpt h (f.paramScope .root) f.sig.typeParams).map₂ Prod.mk
      ((Field.interchangeOpt h (f.signatureScope .root) f.recv).map₂ Prod.mk
        ((Field.interchangeAll h (f.signatureScope .root) f.sig.params).map₂ Prod.mk
          ((Field.interchangeOpt h (f.signatureScope .root) f.sig.results).map₂ Prod.mk
            (f.interchangeBody h (f.bodyScope .root))))))
  rw [f.rename_rename r s, f.rename_rename s r]
  -- The lists of references are taken apart at the scopes of `f` itself.
  simp only [free_eq, paramScope_rename, signatureScope_rename, bodyScope_rename,
    List.append_assoc]
  exact hall

end FuncDecl

namespace Decl

theorem interchange (h : r.Independent s) (d : Decl) :
    r.Interchange s ((d.rename r).rename s) ((d.rename s).rename r) d.free (d.rename r).free
      (d.rename s).free := by
  cases d with
  | bad node => exact .refl r s _
  | group g => exact (Spec.interchangeAll h g.specs).map fun specs => Decl.group { g with specs }
  | func f => exact (f.interchange h).map Decl.func

theorem interchangeAll (h : r.Independent s) (decls : List Decl) :
    r.Interchange s (renameAll s (renameAll r decls)) (renameAll r (renameAll s decls))
      (freeAll decls) (freeAll (renameAll r decls)) (freeAll (renameAll s decls)) := by
  induction decls with
  | nil => exact .refl r s _
  | cons d ds ih => exact (d.interchange h).map₂ List.cons ih

theorem bearers_rename {key : String} (h : r.Avoids key) (d : Decl) :
    (d.rename r).bearers key = d.bearers key := by
  cases d with
  | bad node => rfl
  | func f => simp only [Decl.rename, bearers, FuncDecl.key?_rename_eq_iff h]
  | group g =>
    simp only [Decl.rename, bearers, DeclGroup.rename, List.countP_map, Function.comp_def,
      Spec.declares_rename h]

theorem removeCount_renameAll {key : String} (h : r.Avoids key) (decls : List Decl) :
    removeCount key (renameAll r decls) = removeCount key decls := by
  simp only [removeCount, renameAll, List.foldr_map, bearers_rename h]

end Decl

end

namespace Decl

/-- Independent edits may be done in either order. Two renamings lead to the same declarations and
change as many references each. A renaming and the removal of a key that it does not touch lead to
the same declarations, and as many names are taken out. -/
theorem edits_commute (decls : List Decl) (r : Renaming) :
    (∀ s : Renaming, r.Independent s →
      renameAll s (renameAll r decls) = renameAll r (renameAll s decls) ∧
        renameCount r (renameAll s decls) = renameCount r decls ∧
        renameCount s (renameAll r decls) = renameCount s decls) ∧
    (∀ key : String, r.Avoids key →
      remove key (renameAll r decls) = renameAll r (remove key decls) ∧
        removeCount key (renameAll r decls) = removeCount key decls) := by
  constructor
  · intro s h
    have hall := interchangeAll h decls
    exact ⟨hall.eq, hall.count_left, hall.count_right⟩
  · intro key h
    exact ⟨remove_renameAll h decls, removeCount_renameAll h decls⟩

/-- Constants that pin each other, and a function in which both names are hidden on the way. The two
names are given up for the same new name. -/
theorem edits_commute_constants :
    let decls : List Decl :=
      [.group ⟨.const, [.value ⟨["K", "A"], none, [.ident "iota", .ident "B"]⟩,
          .value ⟨["B", "L"], none, []⟩], true⟩,
        .func ⟨none, "f", ⟨none, [⟨["B"], .ident "int", none⟩], none⟩,
          some [.assign [.ident "x"] .define [.ident "A"],
            .assign [.ident "A"] .define [.binary .add (.ident "A") (.ident "B")],
            .expr (.call (.ident "f") [.ident "A", .ident "K"] false)]⟩]
    let r : Renaming := ⟨"A", "C"⟩
    let s : Renaming := ⟨"B", "C"⟩
    (r.Independent s ∧ renameCount r decls = 3 ∧ renameCount s decls = 2 ∧
        renameAll s (renameAll r decls) = renameAll r (renameAll s decls) ∧
        renameCount r (renameAll s decls) = 3 ∧ renameCount s (renameAll r decls) = 2) ∧
      (r.Avoids "K" ∧ removeCount "K" decls = 1 ∧
        remove "K" (renameAll r decls) = renameAll r (remove "K" decls) ∧
        removeCount "K" (renameAll r decls) = 1) := by
  intro decls r s
  have hrs : r.Independent s := ⟨by decide, by decide, by decide⟩
  have hkey : r.Avoids "K" := ⟨by decide, by decide, by decide, by decide, by decide⟩
  have hr : renameCount r decls = 3 := by decide
  have hs : renameCount s decls = 2 := by decide
  have hK : removeCount "K" decls = 1 := by decide
  obtain ⟨hrename, hremove⟩ := edits_commute decls r
  obtain ⟨heq, hleft, hright⟩ := hrename s hrs
  obtain ⟨heq', hcount⟩ := hremove "K" hkey
  exact ⟨⟨hrs, hr, hs, heq, hleft.trans hr, hright.trans hs⟩, hkey, hK, heq', hcount.trans hK⟩

end Decl

end GoWeave
