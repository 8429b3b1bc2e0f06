import GoWeave.Proofs.Scope.Capture
import GoWeave.Proofs.Scope.Untouched
import GoWeave.Tree.Mention

/-!
# Renaming back

A renaming leaves no reference to its old name behind. If its new name is mentioned nowhere, the
renaming loses nothing either: the renaming in the other direction meets the same scopes, changes
the same places, and restores the tree.
-/
namespace GoWeave

/-! ## Bound names are mentioned -/

section

variable {name : String}

theorem Field.not_mem_declared {fields : List Field}
    (h : .name name ∉ Field.mentionsAll fields) : name ∉ Field.declared fields := by
  induction fields with
  | nil => exact List.not_mem_nil
  | cons f fs ih =>
    cases f
    simp only [Field.mentionsAll, Field.mentions, List.mem_append, List.mem_map, not_or] at h
    rw [Field.declared, List.flatMap_cons, List.mem_append, not_or]
    exact ⟨fun hmem => h.1.1 ⟨name, hmem, rfl⟩, ih h.2⟩

theorem Field.not_mem_declared_getD {fields : Option (List Field)}
    (h : .name name ∉ Field.mentionsOpt fields) : name ∉ Field.declared (fields.getD []) := by
  cases fields with
  | none => exact List.not_mem_nil
  | some fields => exact Field.not_mem_declared h

theorem Signature.not_mem_typeParamNames {sig : Signature} (h : .name name ∉ sig.mentions) :
    name ∉ sig.typeParamNames := by
  cases sig
  simp only [Signature.mentions, List.mem_append, not_or] at h
  exact Field.not_mem_declared_getD h.1.1

theorem Signature.not_mem_bodyNames {sig : Signature} (h : .name name ∉ sig.mentions) :
    name ∉ sig.bodyNames := by
  cases sig
  simp only [Signature.mentions, List.mem_append, not_or] at h
  rw [Signature.bodyNames, List.mem_append, not_or]
  exact ⟨Field.not_mem_declared h.1.2, Field.not_mem_declared_getD h.2⟩

theorem Expr.not_mem_ident? {x : Expr} (h : .name name ∉ x.mentions) :
    name ∉ x.ident?.toList := by
  cases x with
  | ident name' => simpa [Expr.ident?, Expr.mentions] using h
  | _ => exact List.not_mem_nil

theorem Expr.not_mem_targets {xs : List Expr} (h : .name name ∉ Expr.mentionsAll xs) :
    name ∉ Expr.targets xs := by
  induction xs with
  | nil => exact List.not_mem_nil
  | cons x xs ih =>
    rw [Expr.mentionsAll, List.mem_append, not_or] at h
    have hx := Expr.not_mem_ident? h.1
    rw [Expr.targets, List.filterMap_cons]
    cases hident : x.ident? with
    | none => exact ih h.2
    | some first =>
      rw [hident, Option.toList_some, List.mem_singleton] at hx
      exact List.not_mem_cons_of_ne_of_not_mem hx (ih h.2)

theorem Spec.not_mem_declared {specs : List Spec} (h : .name name ∉ Spec.mentionsAll specs) :
    name ∉ specs.flatMap Spec.declared := by
  induction specs with
  | nil => exact List.not_mem_nil
  | cons s ss ih =>
    rw [Spec.mentionsAll, List.mem_append, not_or] at h
    rw [List.flatMap_cons, List.mem_append, not_or]
    refine ⟨fun hmem => h.1 ?_, ih h.2⟩
    cases s with
    | imported spec => exact absurd hmem List.not_mem_nil
    | value spec =>
      cases spec
      rw [Spec.mentions, ValueSpec.mentions]
      exact List.mem_append_left _ (List.mem_append_left _ (List.mem_map_of_mem hmem))
    | type spec =>
      cases spec
      rw [Spec.declared, List.mem_singleton] at hmem
      rw [Spec.mentions, TypeSpec.mentions, hmem]
      exact List.mem_append_left _ List.mem_cons_self

theorem Stmt.not_mem_binds {s : Stmt} (h : .name name ∉ s.mentions) : name ∉ s.binds := by
  fun_induction Stmt.binds s with
  | case1 g =>
    cases g
    rw [Stmt.mentions, DeclGroup.mentions] at h
    exact Spec.not_mem_declared h
  | case2 label s ih =>
    rw [Stmt.mentions] at h
    exact ih h
  | case3 lhs rhs =>
    rw [Stmt.mentions, List.mem_append, not_or] at h
    exact Expr.not_mem_targets h.1
  | case4 => exact List.not_mem_nil
  | case5 => exact List.not_mem_nil

theorem Stmt.not_mem_bindsOpt {s : Option Stmt} (h : .name name ∉ Stmt.mentionsOpt s) :
    name ∉ Stmt.bindsOpt s := by
  cases s with
  | none => exact List.not_mem_nil
  | some s => exact Stmt.not_mem_binds h

theorem Stmt.not_mem_guardBinds {guard : Stmt} (h : .name name ∉ guard.mentions) :
    name ∉ guard.guardBinds := by
  cases guard with
  | assign lhs tok rhs => exact List.not_mem_nil
  | _ => exact Stmt.not_mem_binds h

theorem Stmt.not_mem_guardName {guard : Stmt} (h : .name name ∉ guard.mentions) :
    name ∉ guard.guardName := by
  fun_cases Stmt.guardName guard with
  | case1 first rest tok rhs =>
    simp only [Stmt.mentions, Expr.mentionsAll, Expr.mentions, List.mem_append, not_or] at h
    simpa using h.1.1
  | case2 => exact List.not_mem_nil

theorem Expr.not_mem_rangeBinds (tok : Option Token) {x : Option Expr}
    (h : .name name ∉ Expr.mentionsOpt x) : name ∉ Expr.rangeBinds tok x := by
  fun_cases Expr.rangeBinds tok x with
  | case1 first => simpa [Expr.mentionsOpt, Expr.mentions] using h
  | case2 => exact List.not_mem_nil
  | case3 => exact List.not_mem_nil

theorem Expr.not_mem_receiverParams {x : Expr} (h : .name name ∉ x.mentions) :
    name ∉ x.receiverParams := by
  fun_cases Expr.receiverParams x with
  | case1 y arg =>
    rw [Expr.mentions, Expr.mentions, List.mem_append, not_or] at h
    exact Expr.not_mem_ident? h.2
  | case2 y args =>
    rw [Expr.mentions, Expr.mentions, List.mem_append, not_or] at h
    exact Expr.not_mem_targets h.2
  | case3 y arg =>
    rw [Expr.mentions, List.mem_append, not_or] at h
    exact Expr.not_mem_ident? h.2
  | case4 y args =>
    rw [Expr.mentions, List.mem_append, not_or] at h
    exact Expr.not_mem_targets h.2
  | case5 => exact List.not_mem_nil

end

/-! ## Renaming there and back -/

/-- The renaming in the other direction. -/
def Renaming.inverse (r : Renaming) : Renaming :=
  ⟨r.new, r.old⟩

/-- A part of a tree is restored by the inverse renaming, and as many references to the new name are
free after the renaming as references to the old name were before. -/
structure Renaming.Restores {α : Type} (r : Renaming) (x back : α) (before after : List String) :
    Prop where
  eq : back = x
  count : after.count r.new = before.count r.old

namespace Renaming.Restores

variable {α β γ : Type} {r : Renaming} {x back : α} {y back' : β}
  {before after before' after' : List String}

theorem refl (r : Renaming) (x : α) : Restores r x x [] [] :=
  ⟨rfl, rfl⟩

theorem map (g : α → β) (h : Restores r x back before after) :
    Restores r (g x) (g back) before after :=
  ⟨congrArg g h.eq, h.count⟩

theorem map₂ (g : α → β → γ) (hx : Restores r x back before after)
    (hy : Restores r y back' before' after') :
    Restores r (g x y) (g back back') (before ++ before') (after ++ after') :=
  ⟨congrArg₂ g hx.eq hy.eq, by rw [List.count_append, List.count_append, hx.count, hy.count]⟩

theorem reference {sc : Scope} {name : String} (hsc : sc.isFree r.new = true)
    (hname : name ≠ r.new) :
    Restores r name (r.inverse.apply sc (r.apply sc name)) (sc.reference name)
      (sc.reference (r.apply sc name)) := by
  unfold Renaming.apply Renaming.inverse
  by_cases hchanged : name = r.old ∧ sc.isFree name = true
  · rw [if_pos hchanged, if_pos ⟨rfl, hsc⟩]
    have hold : sc.isFree r.old = true := hchanged.1 ▸ hchanged.2
    refine ⟨hchanged.1.symm, ?_⟩
    simp [Scope.reference, hsc, hold, hchanged.1]
  · rw [if_neg hchanged, if_neg fun h => hname h.1]
    refine ⟨rfl, ?_⟩
    have hnew : r.new ∉ sc.reference name := by
      rw [Scope.reference]
      split <;> simp [hname.symm]
    have hold : r.old ∉ sc.reference name := by
      rw [Scope.reference]
      split
      · next hfree =>
        rw [List.mem_singleton]
        exact fun h => hchanged ⟨h.symm, hfree⟩
      · exact List.not_mem_nil
    rw [List.count_eq_zero.2 hnew, List.count_eq_zero.2 hold]

end Renaming.Restores

section

variable {r : Renaming}

mutual

theorem Expr.restores {sc : Scope} (x : Expr) (hsc : sc.isFree r.new = true)
    (h : .name r.new ∉ x.mentions) :
    r.Restores x ((x.rename r sc).rename r.inverse sc) (x.free sc) ((x.rename r sc).free sc) := by
  match x with
  | .bad node =>
    simp only [Expr.rename, Expr.free]
    exact .refl r _
  | .ident name =>
    rw [Expr.mentions] at h
    simp only [Expr.rename, Expr.free]
    exact (Renaming.Restores.reference hsc (by simpa [eq_comm] using h)).map Expr.ident
  | .ellipsis elt =>
    rw [Expr.mentions] at h
    simp only [Expr.rename, Expr.free]
    exact (Expr.restoresOpt elt hsc h).map Expr.ellipsis
  | .literal value =>
    simp only [Expr.rename, Expr.free]
    exact .refl r _
  | .funcLit sig body =>
    simp only [Expr.mentions, List.mem_append, not_or] at h
    have hinner := Scope.isFree_bind (Scope.isFree_enter hsc) (Signature.not_mem_typeParamNames h.1)
    have hbody := Scope.isFree_bind hinner (Signature.not_mem_bodyNames h.1)
    simp only [Expr.rename, Expr.free, Signature.typeParamNames_rename, Signature.bodyNames_rename]
    exact (Signature.restores sig hinner h.1).map₂ Expr.funcLit (Stmt.restoresAll body hbody h.2)
  | .composite ty elts incomplete =>
    simp only [Expr.mentions, List.mem_append, not_or] at h
    simp only [Expr.rename, Expr.free, Expr.hasValueKeys_renameOpt]
    exact (Expr.restoresOpt ty hsc h.1).map₂ (Expr.composite · · incomplete)
      (Expr.restoresElements _ elts hsc h.2)
  | .paren y =>
    rw [Expr.mentions] at h
    simp only [Expr.rename, Expr.free]
    exact (Expr.restores y hsc h).map Expr.paren
  | .selector y sel =>
    simp only [Expr.mentions, List.mem_append, not_or] at h
    simp only [Expr.rename, Expr.free]
    exact (Expr.restores y hsc h.1).map (Expr.selector · sel)
  | .index y arg =>
    simp only [Expr.mentions, List.mem_append, not_or] at h
    simp only [Expr.rename, Expr.free]
    exact (Expr.restores y hsc h.1).map₂ Expr.index (Expr.restores arg hsc h.2)
  | .indexList y args =>
    simp only [Expr.mentions, List.mem_append, not_or] at h
    simp only [Expr.rename, Expr.free]
    exact (Expr.restores y hsc h.1).map₂ Expr.indexList (Expr.restoresAll args hsc h.2)
  | .slice y low high max three =>
    simp only [Expr.mentions, List.mem_append, not_or] at h
    obtain ⟨⟨⟨hy, hlow⟩, hhigh⟩, hmax⟩ := h
    simp only [Expr.rename, Expr.free, List.append_assoc]
    have hbounds := (Expr.restoresOpt low hsc hlow).map₂ Prod.mk
      ((Expr.restoresOpt high hsc hhigh).map₂ Prod.mk (Expr.restoresOpt max hsc hmax))
    exact (Expr.restores y hsc hy).map₂ (fun y b => Expr.slice y b.1 b.2.1 b.2.2 three) hbounds
  | .typeAssert y ty =>
    simp only [Expr.mentions, List.mem_append, not_or] at h
    simp only [Expr.rename, Expr.free]
    exact (Expr.restores y hsc h.1).map₂ Expr.typeAssert (Expr.restoresOpt ty hsc h.2)
  | .call fn args spread =>
    simp only [Expr.mentions, List.mem_append, not_or] at h
    simp only [Expr.rename, Expr.free]
    exact (Expr.restores fn hsc h.1).map₂ (Expr.call · · spread)
      (Expr.restoresAll args hsc h.2)
  | .star y =>
    rw [Expr.mentions] at h
    simp only [Expr.rename, Expr.free]
    exact (Expr.restores y hsc h).map Expr.star
  | .unary op y =>
    rw [Expr.mentions] at h
    simp only [Expr.rename, Expr.free]
    exact (Expr.restores y hsc h).map (Expr.unary op)
  | .binary op y z =>
    simp only [Expr.mentions, List.mem_append, not_or] at h
    simp only [Expr.rename, Expr.free]
    exact (Expr.restores y hsc h.1).map₂ (Expr.binary op) (Expr.restores z hsc h.2)
  | .keyValue key value =>
    simp only [Expr.mentions, List.mem_append, not_or] at h
    simp only [Expr.rename, Expr.free]
    exact (Expr.restores key hsc h.1).map₂ Expr.keyValue (Expr.restores value hsc h.2)
  | .arrayType len elt =>
    simp only [Expr.mentions, List.mem_append, not_or] at h
    simp only [Expr.rename, Expr.free]
    exact (Expr.restoresOpt len hsc h.1).map₂ Expr.arrayType (Expr.restores elt hsc h.2)
  | .structType fields incomplete =>
    rw [Expr.mentions] at h
    simp only [Expr.rename, Expr.free]
    exact (Field.restoresAll fields hsc h).map (Expr.structType · incomplete)
  | .funcType sig =>
    rw [Expr.mentions] at h
    simp only [Expr.rename, Expr.free]
    exact (Signature.restores sig hsc h).map Expr.funcType
  | .interfaceType methods incomplete =>
    rw [Expr.mentions] at h
    simp only [Expr.rename, Expr.free]
    exact (Field.restoresAll methods hsc h).map (Expr.interfaceType · incomplete)
  | .mapType key value =>
    simp only [Expr.mentions, List.mem_append, not_or] at h
    simp only [Expr.rename, Expr.free]
    exact (Expr.restores key hsc h.1).map₂ Expr.mapType (Expr.restores value hsc h.2)
  | .chanType dir value =>
    rw [Expr.mentions] at h
    simp only [Expr.rename, Expr.free]
    exact (Expr.restores value hsc h).map (Expr.chanType dir)

theorem Expr.restoresOpt {sc : Scope} (x : Option Expr) (hsc : sc.isFree r.new = true)
    (h : .name r.new ∉ Expr.mentionsOpt x) :
    r.Restores x (Expr.renameOpt r.inverse sc (Expr.renameOpt r sc x)) (Expr.freeOpt sc x)
      (Expr.freeOpt sc (Expr.renameOpt r sc x)) := by
  match x with
  | none =>
    simp only [Expr.renameOpt, Expr.freeOpt]
    exact .refl r _
  | some x =>
    rw [Expr.mentionsOpt] at h
    simp only [Expr.renameOpt, Expr.freeOpt]
    exact (Expr.restores x hsc h).map some

theorem Expr.restoresAll {sc : Scope} (xs : List Expr) (hsc : sc.isFree r.new = true)
    (h : .name r.new ∉ Expr.mentionsAll xs) :
    r.Restores xs (Expr.renameAll r.inverse sc (Expr.renameAll r sc xs)) (Expr.freeAll sc xs)
      (Expr.freeAll sc (Expr.renameAll r sc xs)) := by
  match xs with
  | [] =>
    simp only [Expr.renameAll, Expr.freeAll]
    exact .refl r _
  | x :: xs =>
    rw [Expr.mentionsAll, List.mem_append, not_or] at h
    simp only [Expr.renameAll, Expr.freeAll]
    exact (Expr.restores x hsc h.1).map₂ List.cons (Expr.restoresAll xs hsc h.2)

theorem Expr.restoresElements {sc : Scope} (valueKeys : Bool) (xs : List Expr)
    (hsc : sc.isFree r.new = true) (h : .name r.new ∉ Expr.mentionsAll xs) :
    r.Restores xs
      (Expr.renameElements r.inverse sc valueKeys (Expr.renameElements r sc valueKeys xs))
      (Expr.freeElements sc valueKeys xs)
      (Expr.freeElements sc valueKeys (Expr.renameElements r sc valueKeys xs)) := by
  match xs with
  | [] =>
    simp only [Expr.renameElements, Expr.freeElements]
    exact .refl r _
  | x :: xs =>
    rw [Expr.mentionsAll, List.mem_append, not_or] at h
    have hx := Expr.restores x hsc h.1
    have hrest := Expr.restoresElements valueKeys xs hsc h.2
    cases x with
    | keyValue key value =>
      rw [Expr.mentions, List.mem_append, not_or] at h
      have hvalue := Expr.restores value hsc h.1.2
      cases key with
      | ident name =>
        rw [Expr.mentions] at h
        have hname : name ≠ r.new := by simpa [eq_comm] using h.1.1
        cases valueKeys with
        | true =>
          simp only [Expr.renameElements, Expr.freeElements, if_true, List.append_assoc]
          exact (Renaming.Restores.reference hsc hname).map₂
            (fun key p => .keyValue (.ident key) p.1 :: p.2) (hvalue.map₂ Prod.mk hrest)
        | false =>
          simp only [Expr.renameElements, Expr.freeElements, Bool.false_eq_true, if_false,
            List.nil_append]
          exact hvalue.map₂ (fun value rest => .keyValue (.ident name) value :: rest) hrest
      | _ =>
        simpa only [Expr.renameElements, Expr.freeElements, Expr.rename] using
          hx.map₂ List.cons hrest
    | _ =>
      simpa only [Expr.renameElements, Expr.freeElements, Expr.rename] using
        hx.map₂ List.cons hrest

theorem Expr.restoresRangeVar {sc : Scope} (tok : Option Token) (x : Option Expr)
    (hsc : sc.isFree r.new = true) (h : .name r.new ∉ Expr.mentionsOpt x) :
    r.Restores x (Expr.renameRangeVar r.inverse sc tok (Expr.renameRangeVar r sc tok x))
      (Expr.freeRangeVar sc tok x)
      (Expr.freeRangeVar sc tok (Expr.renameRangeVar r sc tok x)) := by
  match x with
  | none =>
    simp only [Expr.renameRangeVar, Expr.freeRangeVar]
    exact .refl r _
  | some x =>
    rw [Expr.mentionsOpt] at h
    have hx := Expr.restores x hsc h
    cases x with
    | ident name =>
      rw [Expr.mentions] at h
      simp only [Expr.renameRangeVar, Expr.freeRangeVar]
      by_cases htok : tok = some .define
      · simp only [if_pos htok]
        exact .refl r _
      · simp only [if_neg htok]
        exact (Renaming.Restores.reference hsc (by simpa [eq_comm] using h)).map
          fun name => some (Expr.ident name)
    | _ => simpa only [Expr.renameRangeVar, Expr.freeRangeVar, Expr.rename] using hx.map some

theorem Field.restores {sc : Scope} (f : Field) (hsc : sc.isFree r.new = true)
    (h : .name r.new ∉ f.mentions) :
    r.Restores f ((f.rename r sc).rename r.inverse sc) (f.free sc) ((f.rename r sc).free sc) := by
  match f with
  | ⟨names, ty, tag⟩ =>
    rw [Field.mentions, List.mem_append, not_or] at h
    simp only [Field.rename, Field.free]
    exact (Expr.restores ty hsc h.2).map (Field.mk names · tag)

theorem Field.restoresAll {sc : Scope} (fields : List Field) (hsc : sc.isFree r.new = true)
    (h : .name r.new ∉ Field.mentionsAll fields) :
    r.Restores fields (Field.renameAll r.inverse sc (Field.renameAll r sc fields))
      (Field.freeAll sc fields) (Field.freeAll sc (Field.renameAll r sc fields)) := by
  match fields with
  | [] =>
    simp only [Field.renameAll, Field.freeAll]
    exact .refl r _
  | f :: fs =>
    rw [Field.mentionsAll, List.mem_append, not_or] at h
    simp only [Field.renameAll, Field.freeAll]
    exact (Field.restores f hsc h.1).map₂ List.cons (Field.restoresAll fs hsc h.2)

theorem Field.restoresOpt {sc : Scope} (fields : Option (List Field))
    (hsc : sc.isFree r.new = true) (h : .name r.new ∉ Field.mentionsOpt fields) :
    r.Restores fields (Field.renameOpt r.inverse sc (Field.renameOpt r sc fields))
      (Field.freeOpt sc fields) (Field.freeOpt sc (Field.renameOpt r sc fields)) := by
  match fields with
  | none =>
    simp only [Field.renameOpt, Field.freeOpt]
    exact .refl r _
  | some fields =>
    rw [Field.mentionsOpt] at h
    simp only [Field.renameOpt, Field.freeOpt]
    exact (Field.restoresAll fields hsc h).map some

theorem Signature.restores {sc : Scope} (sig : Signature) (hsc : sc.isFree r.new = true)
    (h : .name r.new ∉ sig.mentions) :
    r.Restores sig ((sig.rename r sc).rename r.inverse sc) (sig.free sc)
      ((sig.rename r sc).free sc) := by
  match sig with
  | ⟨typeParams, params, results⟩ =>
    simp only [Signature.mentions, List.mem_append, not_or] at h
    obtain ⟨⟨htypes, hparams⟩, hresults⟩ := h
    simp only [Signature.rename, Signature.free, List.append_assoc]
    exact (Field.restoresOpt typeParams hsc htypes).map₂ (fun t p => Signature.mk t p.1 p.2)
      ((Field.restoresAll params hsc hparams).map₂ Prod.mk (Field.restoresOpt results hsc hresults))

theorem Stmt.restores {sc : Scope} (s : Stmt) (hsc : sc.isFree r.new = true)
    (h : .name r.new ∉ s.mentions) :
    r.Restores s ((s.rename r sc).rename r.inverse sc) (s.free sc) ((s.rename r sc).free sc) := by
  match s with
  | .bad node =>
    simp only [Stmt.rename, Stmt.free]
    exact .refl r _
  | .decl ⟨tok, specs, grouped⟩ =>
    rw [Stmt.mentions, DeclGroup.mentions] at h
    simp only [Stmt.rename, Stmt.free]
    exact (Spec.restoresLocal specs hsc h).map fun specs => Stmt.decl ⟨tok, specs, grouped⟩
  | .empty =>
    simp only [Stmt.rename, Stmt.free]
    exact .refl r _
  | .labeled label t =>
    rw [Stmt.mentions] at h
    simp only [Stmt.rename, Stmt.free]
    exact (Stmt.restores t hsc h).map (Stmt.labeled label)
  | .expr x =>
    rw [Stmt.mentions] at h
    simp only [Stmt.rename, Stmt.free]
    exact (Expr.restores x hsc h).map Stmt.expr
  | .send chan value =>
    simp only [Stmt.mentions, List.mem_append, not_or] at h
    simp only [Stmt.rename, Stmt.free]
    exact (Expr.restores chan hsc h.1).map₂ Stmt.send (Expr.restores value hsc h.2)
  | .incDec x tok =>
    rw [Stmt.mentions] at h
    simp only [Stmt.rename, Stmt.free]
    exact (Expr.restores x hsc h).map (Stmt.incDec · tok)
  | .assign lhs tok rhs =>
    simp only [Stmt.mentions, List.mem_append, not_or] at h
    simp only [Stmt.rename, Stmt.free]
    by_cases htok : tok = .define
    · simp only [if_pos htok, List.nil_append]
      exact (Expr.restoresAll rhs hsc h.2).map (Stmt.assign lhs tok)
    · simp only [if_neg htok]
      exact (Expr.restoresAll lhs hsc h.1).map₂ (Stmt.assign · tok) (Expr.restoresAll rhs hsc h.2)
  | .goCall x =>
    rw [Stmt.mentions] at h
    simp only [Stmt.rename, Stmt.free]
    exact (Expr.restores x hsc h).map Stmt.goCall
  | .deferCall x =>
    rw [Stmt.mentions] at h
    simp only [Stmt.rename, Stmt.free]
    exact (Expr.restores x hsc h).map Stmt.deferCall
  | .ret results =>
    rw [Stmt.mentions] at h
    simp only [Stmt.rename, Stmt.free]
    exact (Expr.restoresAll results hsc h).map Stmt.ret
  | .branch tok label =>
    simp only [Stmt.rename, Stmt.free]
    exact .refl r _
  | .block list =>
    rw [Stmt.mentions] at h
    simp only [Stmt.rename, Stmt.free]
    exact (Stmt.restoresAll list (Scope.isFree_enter hsc) h).map Stmt.block
  | .ifElse init cond body orElse =>
    simp only [Stmt.mentions, List.mem_append, not_or] at h
    obtain ⟨⟨⟨hinit, hcond⟩, hbody⟩, helse⟩ := h
    have hinner := Scope.isFree_bind (Scope.isFree_enter hsc) (Stmt.not_mem_bindsOpt hinit)
    simp only [Stmt.rename, Stmt.free, Stmt.bindsOpt_renameOpt, List.append_assoc]
    exact (Stmt.restoresOpt init (Scope.isFree_enter hsc) hinit).map₂
      (fun init p => Stmt.ifElse init p.1 p.2.1 p.2.2)
      ((Expr.restores cond hinner hcond).map₂ Prod.mk
        ((Stmt.restoresAll body (Scope.isFree_enter hinner) hbody).map₂ Prod.mk
          (Stmt.restoresOpt orElse hinner helse)))
  | .switch init tag body =>
    simp only [Stmt.mentions, List.mem_append, not_or] at h
    obtain ⟨⟨hinit, htag⟩, hbody⟩ := h
    have hinner := Scope.isFree_bind (Scope.isFree_enter hsc) (Stmt.not_mem_bindsOpt hinit)
    simp only [Stmt.rename, Stmt.free, Stmt.bindsOpt_renameOpt, List.append_assoc]
    exact (Stmt.restoresOpt init (Scope.isFree_enter hsc) hinit).map₂
      (fun init p => Stmt.switch init p.1 p.2)
      ((Expr.restoresOpt tag hinner htag).map₂ Prod.mk
        (Clause.restoresAll body List.not_mem_nil hinner hbody))
  | .typeSwitch init guard body =>
    simp only [Stmt.mentions, List.mem_append, not_or] at h
    obtain ⟨⟨hinit, hguard⟩, hbody⟩ := h
    have hinner := Scope.isFree_bind (Scope.isFree_enter hsc) (Stmt.not_mem_bindsOpt hinit)
    have hclauses := Scope.isFree_bind hinner (Stmt.not_mem_guardBinds hguard)
    have hname := Stmt.not_mem_guardName hguard
    simp only [Stmt.rename_typeSwitch, Stmt.free_typeSwitch, Stmt.bindsOpt_renameOpt,
      Stmt.guardBinds_renameGuard, Stmt.guardName_renameGuard, List.append_assoc]
    refine (Stmt.restoresOpt init (Scope.isFree_enter hsc) hinit).map₂
      (fun init p => Stmt.typeSwitch init p.1 p.2)
      (Renaming.Restores.map₂ Prod.mk ?_ (Clause.restoresAll body hname hclauses hbody))
    have hwhole := Stmt.restores guard hinner hguard
    cases guard with
    | assign lhs tok rhs =>
      simp only [Stmt.mentions, List.mem_append, not_or] at hguard
      exact (Expr.restoresAll rhs hinner hguard.2).map (Stmt.assign lhs tok)
    | decl g =>
      cases g
      simpa only [Stmt.renameGuard, Stmt.freeGuard, Stmt.rename] using hwhole
    | _ =>
      simpa only [Stmt.renameGuard, Stmt.freeGuard, Stmt.rename, Stmt.rename_typeSwitch] using
        hwhole
  | .loop init cond post body =>
    simp only [Stmt.mentions, List.mem_append, not_or] at h
    obtain ⟨⟨⟨hinit, hcond⟩, hpost⟩, hbody⟩ := h
    have hinner := Scope.isFree_bind (Scope.isFree_enter hsc) (Stmt.not_mem_bindsOpt hinit)
    have hblock := Scope.isFree_enter (Scope.isFree_bind hinner (Stmt.not_mem_bindsOpt hpost))
    simp only [Stmt.rename, Stmt.free, Stmt.bindsOpt_renameOpt, List.append_assoc]
    exact (Stmt.restoresOpt init (Scope.isFree_enter hsc) hinit).map₂
      (fun init p => Stmt.loop init p.1 p.2.1 p.2.2)
      ((Expr.restoresOpt cond hinner hcond).map₂ Prod.mk
        ((Stmt.restoresOpt post hinner hpost).map₂ Prod.mk (Stmt.restoresAll body hblock hbody)))
  | .range key value tok x body =>
    simp only [Stmt.mentions, List.mem_append, not_or] at h
    obtain ⟨⟨⟨hkey, hvalue⟩, hx⟩, hbody⟩ := h
    have hkeyed := Scope.isFree_bind (Scope.isFree_enter hsc) (Expr.not_mem_rangeBinds tok hkey)
    have hblock :=
      Scope.isFree_enter (Scope.isFree_bind hkeyed (Expr.not_mem_rangeBinds tok hvalue))
    simp only [Stmt.rename, Stmt.free, Expr.rangeBinds_renameRangeVar, List.append_assoc]
    exact (Expr.restores x hsc hx).map₂ (fun x p => Stmt.range p.1 p.2.1 tok x p.2.2)
      ((Expr.restoresRangeVar tok key (Scope.isFree_enter hsc) hkey).map₂ Prod.mk
        ((Expr.restoresRangeVar tok value hkeyed hvalue).map₂ Prod.mk
          (Stmt.restoresAll body hblock hbody)))

theorem Stmt.restoresOpt {sc : Scope} (s : Option Stmt) (hsc : sc.isFree r.new = true)
    (h : .name r.new ∉ Stmt.mentionsOpt s) :
    r.Restores s (Stmt.renameOpt r.inverse sc (Stmt.renameOpt r sc s)) (Stmt.freeOpt sc s)
      (Stmt.freeOpt sc (Stmt.renameOpt r sc s)) := by
  match s with
  | none =>
    simp only [Stmt.renameOpt, Stmt.freeOpt]
    exact .refl r _
  | some s =>
    rw [Stmt.mentionsOpt] at h
    simp only [Stmt.renameOpt, Stmt.freeOpt]
    exact (Stmt.restores s hsc h).map some

theorem Stmt.restoresAll {sc : Scope} (list : List Stmt) (hsc : sc.isFree r.new = true)
    (h : .name r.new ∉ Stmt.mentionsAll list) :
    r.Restores list (Stmt.renameAll r.inverse sc (Stmt.renameAll r sc list))
      (Stmt.freeAll sc list) (Stmt.freeAll sc (Stmt.renameAll r sc list)) := by
  match list with
  | [] =>
    simp only [Stmt.renameAll, Stmt.freeAll]
    exact .refl r _
  | s :: ss =>
    rw [Stmt.mentionsAll, List.mem_append, not_or] at h
    simp only [Stmt.renameAll, Stmt.freeAll, Stmt.binds_rename]
    exact (Stmt.restores s hsc h.1).map₂ List.cons
      (Stmt.restoresAll ss (Scope.isFree_bind hsc (Stmt.not_mem_binds h.1)) h.2)

theorem Clause.restores {sc : Scope} {bound : List String} (c : Clause) (hbound : r.new ∉ bound)
    (hsc : sc.isFree r.new = true) (h : .name r.new ∉ c.mentions) :
    r.Restores c ((c.rename r sc bound).rename r.inverse sc bound) (c.free sc bound)
      ((c.rename r sc bound).free sc bound) := by
  have hinner := Scope.isFree_bind (Scope.isFree_enter hsc) hbound
  match c with
  | .matching list body =>
    rw [Clause.mentions, List.mem_append, not_or] at h
    simp only [Clause.rename, Clause.free]
    exact (Expr.restoresAll list (Scope.isFree_enter hsc) h.1).map₂ Clause.matching
      (Stmt.restoresAll body hinner h.2)
  | .otherwise body =>
    rw [Clause.mentions] at h
    simp only [Clause.rename, Clause.free]
    exact (Stmt.restoresAll body hinner h).map Clause.otherwise

theorem Clause.restoresAll {sc : Scope} {bound : List String} (list : List Clause)
    (hbound : r.new ∉ bound) (hsc : sc.isFree r.new = true)
    (h : .name r.new ∉ Clause.mentionsAll list) :
    r.Restores list (Clause.renameAll r.inverse sc bound (Clause.renameAll r sc bound list))
      (Clause.freeAll sc bound list)
      (Clause.freeAll sc bound (Clause.renameAll r sc bound list)) := by
  match list with
  | [] =>
    simp only [Clause.renameAll, Clause.freeAll]
    exact .refl r _
  | c :: cs =>
    rw [Clause.mentionsAll, List.mem_append, not_or] at h
    simp only [Clause.renameAll, Clause.freeAll]
    exact (Clause.restores c hbound hsc h.1).map₂ List.cons
      (Clause.restoresAll cs hbound hsc h.2)

theorem Spec.restoresLocal {sc : Scope} (specs : List Spec) (hsc : sc.isFree r.new = true)
    (h : .name r.new ∉ Spec.mentionsAll specs) :
    r.Restores specs (Spec.renameLocal r.inverse sc (Spec.renameLocal r sc specs))
      (Spec.freeLocal sc specs) (Spec.freeLocal sc (Spec.renameLocal r sc specs)) := by
  match specs with
  | [] =>
    simp only [Spec.renameLocal, Spec.freeLocal]
    exact .refl r _
  | .imported spec :: ss =>
    rw [Spec.mentionsAll, List.mem_append, not_or] at h
    simp only [Spec.renameLocal, Spec.freeLocal]
    exact (Spec.restoresLocal ss hsc h.2).map (.imported spec :: ·)
  | .value ⟨names, ty, values⟩ :: ss =>
    simp only [Spec.mentionsAll, Spec.mentions, ValueSpec.mentions, List.mem_append, not_or] at h
    obtain ⟨⟨⟨hnames, hty⟩, hvalues⟩, hrest⟩ := h
    have hbound : r.new ∉ names := fun hmem => hnames (List.mem_map_of_mem hmem)
    simp only [Spec.renameLocal, Spec.freeLocal, List.append_assoc]
    exact (Expr.restoresOpt ty hsc hty).map₂ (fun ty p => .value ⟨names, ty, p.1⟩ :: p.2)
      ((Expr.restoresAll values hsc hvalues).map₂ Prod.mk
        (Spec.restoresLocal ss (Scope.isFree_bind hsc hbound) hrest))
  | .type ⟨name, typeParams, isAlias, ty⟩ :: ss =>
    simp only [Spec.mentionsAll, Spec.mentions, TypeSpec.mentions, List.mem_append, List.mem_cons,
      Mention.name.injEq, not_or] at h
    obtain ⟨⟨⟨hname, htypes⟩, hty⟩, hrest⟩ := h
    have hbound : r.new ∉ [name] := by simpa using hname
    have hinner := Scope.isFree_bind hsc hbound
    simp only [Spec.renameLocal, Spec.freeLocal, List.append_assoc]
    exact (Field.restoresOpt typeParams hinner htypes).map₂
      (fun typeParams p => .type ⟨name, typeParams, isAlias, p.1⟩ :: p.2)
      ((Expr.restores ty hinner hty).map₂ Prod.mk (Spec.restoresLocal ss hinner hrest))

end

/-! ## Declarations -/

theorem Renaming.Restores.names {names : List String} (h : r.new ∉ names) :
    r.Restores names ((names.map (r.apply .root)).map (r.inverse.apply .root))
      (names.flatMap Scope.root.reference)
      ((names.map (r.apply .root)).flatMap Scope.root.reference) := by
  induction names with
  | nil => exact .refl r _
  | cons name names ih =>
    rw [List.mem_cons, not_or] at h
    exact (Renaming.Restores.reference (Scope.isFree_root r.new) (Ne.symm h.1)).map₂ List.cons
      (ih h.2)

theorem ValueSpec.restores (spec : ValueSpec) (h : .name r.new ∉ spec.mentions) :
    r.Restores spec ((spec.rename r .root).rename r.inverse .root) (spec.free .root)
      ((spec.rename r .root).free .root) := by
  have hroot := Scope.isFree_root r.new
  cases spec with
  | mk names ty values =>
    simp only [ValueSpec.mentions, List.mem_append, not_or] at h
    have hnames : r.new ∉ names := fun hmem => h.1.1 (List.mem_map_of_mem hmem)
    simp only [ValueSpec.rename, ValueSpec.free, List.append_assoc]
    exact (Renaming.Restores.names hnames).map₂ (fun names p => ValueSpec.mk names p.1 p.2)
      ((Expr.restoresOpt ty hroot h.1.2).map₂ Prod.mk (Expr.restoresAll values hroot h.2))

theorem TypeSpec.restores (spec : TypeSpec) (h : .name r.new ∉ spec.mentions) :
    r.Restores spec ((spec.rename r .root).rename r.inverse .root) (spec.free .root)
      ((spec.rename r .root).free .root) := by
  have hroot := Scope.isFree_root r.new
  cases spec with
  | mk name typeParams isAlias ty =>
    simp only [TypeSpec.mentions, List.mem_append, List.mem_cons, Mention.name.injEq, not_or] at h
    have hinner := Scope.isFree_bind (Scope.isFree_enter hroot)
      (Field.not_mem_declared_getD h.1.2)
    simp only [TypeSpec.rename, TypeSpec.free, Field.declared_renameOpt, List.append_assoc]
    exact (Renaming.Restores.reference hroot (Ne.symm h.1.1)).map₂
      (fun name p => TypeSpec.mk name p.1 isAlias p.2)
      ((Field.restoresOpt typeParams hinner h.1.2).map₂ Prod.mk (Expr.restores ty hinner h.2))

theorem Spec.restores (spec : Spec) (h : .name r.new ∉ spec.mentions) :
    r.Restores spec ((spec.rename r .root).rename r.inverse .root) (spec.free .root)
      ((spec.rename r .root).free .root) := by
  cases spec with
  | imported spec => exact .refl r _
  | value spec =>
    rw [Spec.mentions] at h
    exact (spec.restores h).map Spec.value
  | type spec =>
    rw [Spec.mentions] at h
    exact (spec.restores h).map Spec.type

theorem Spec.restoresAll (specs : List Spec) (h : .name r.new ∉ Spec.mentionsAll specs) :
    r.Restores specs ((specs.map (Spec.rename r .root)).map (Spec.rename r.inverse .root))
      (specs.flatMap (Spec.free .root))
      ((specs.map (Spec.rename r .root)).flatMap (Spec.free .root)) := by
  induction specs with
  | nil => exact .refl r _
  | cons s ss ih =>
    rw [Spec.mentionsAll, List.mem_append, not_or] at h
    exact (s.restores h.1).map₂ List.cons (ih h.2)

theorem Field.not_mem_receiverParams {name : String} {fields : Option (List Field)}
    (h : .name name ∉ Field.mentionsOpt fields) :
    name ∉ (fields.getD []).flatMap (·.ty.receiverParams) := by
  cases fields with
  | none => exact List.not_mem_nil
  | some fields =>
    rw [Field.mentionsOpt] at h
    rw [Option.getD_some]
    induction fields with
    | nil => exact List.not_mem_nil
    | cons f fs ih =>
      cases f
      simp only [Field.mentionsAll, Field.mentions, List.mem_append, not_or] at h
      rw [List.flatMap_cons, List.mem_append, not_or]
      exact ⟨Expr.not_mem_receiverParams h.1.2, ih h.2⟩

namespace FuncDecl

/-- The scopes of a function stay, so the second of two renamings meets those of the first. -/
theorem rename_rename (r r' : Renaming) (f : FuncDecl) :
    (f.rename r .root).rename r' .root =
      { recv := Field.renameOpt r' (f.signatureScope .root)
          (Field.renameOpt r (f.signatureScope .root) f.recv)
        name := ((f.rename r .root).rename r' .root).name
        sig :=
          ⟨Field.renameOpt r' (f.paramScope .root)
              (Field.renameOpt r (f.paramScope .root) f.sig.typeParams),
            Field.renameAll r' (f.signatureScope .root)
              (Field.renameAll r (f.signatureScope .root) f.sig.params),
            Field.renameOpt r' (f.signatureScope .root)
              (Field.renameOpt r (f.signatureScope .root) f.sig.results)⟩
        body := (f.body.map (Stmt.renameAll r (f.bodyScope .root))).map
          (Stmt.renameAll r' (f.bodyScope .root)) } := by
  conv_lhs => rw [FuncDecl.rename, paramScope_rename, signatureScope_rename, bodyScope_rename]
  rfl

theorem restoresName (f : FuncDecl) (h : f.name ≠ r.new) :
    r.Restores f.name ((f.rename r .root).rename r.inverse .root).name
      (if f.recv.isSome then [] else Scope.root.reference f.name)
      (if (f.rename r .root).recv.isSome then []
        else Scope.root.reference (f.rename r .root).name) := by
  cases hrecv : f.recv with
  | none =>
    simpa [FuncDecl.rename, hrecv, Field.renameOpt] using
      Renaming.Restores.reference (Scope.isFree_root r.new) h
  | some fields => simpa [FuncDecl.rename, hrecv, Field.renameOpt] using .refl r f.name

theorem restoresBody {sc : Scope} (f : FuncDecl) (hsc : sc.isFree r.new = true)
    (h : .name r.new ∉ Stmt.mentionsAll (f.body.getD [])) :
    r.Restores f.body ((f.body.map (Stmt.renameAll r sc)).map (Stmt.renameAll r.inverse sc))
      ((f.body.map (Stmt.freeAll sc)).getD [])
      (((f.body.map (Stmt.renameAll r sc)).map (Stmt.freeAll sc)).getD []) := by
  cases hbody : f.body with
  | none => exact .refl r _
  | some body =>
    rw [hbody] at h
    exact (Stmt.restoresAll body hsc h).map some

theorem restores (f : FuncDecl) (h : .name r.new ∉ f.mentions) :
    r.Restores f ((f.rename r .root).rename r.inverse .root) (f.free .root)
      ((f.rename r .root).free .root) := by
  have hsig : f.sig.mentions = Field.mentionsOpt f.sig.typeParams ++
      Field.mentionsAll f.sig.params ++ Field.mentionsOpt f.sig.results := by
    cases f.sig
    rw [Signature.mentions]
  simp only [FuncDecl.mentions, hsig, List.mem_append, List.mem_cons, Mention.name.injEq,
    not_or] at h
  obtain ⟨⟨hrecv, hname, ⟨htypes, hparams⟩, hresults⟩, hbody⟩ := h
  have hparam : (f.paramScope .root).isFree r.new = true :=
    Scope.isFree_bind (Scope.isFree_enter (Scope.isFree_root r.new))
      (Field.not_mem_declared_getD htypes)
  have hsignature : (f.signatureScope .root).isFree r.new = true :=
    Scope.isFree_bind hparam (Field.not_mem_receiverParams hrecv)
  have hinner : (f.bodyScope .root).isFree r.new = true := by
    apply Scope.isFree_bind hsignature
    simp only [Signature.bodyNames, List.mem_append, not_or]
    exact ⟨Field.not_mem_declared_getD hrecv, Field.not_mem_declared hparams,
      Field.not_mem_declared_getD hresults⟩
  have hall := (f.restoresName (Ne.symm hname)).map₂
    (fun name p => FuncDecl.mk p.2.1 name ⟨p.1, p.2.2.1, p.2.2.2.1⟩ p.2.2.2.2)
    ((Field.restoresOpt f.sig.typeParams hparam htypes).map₂ Prod.mk
      ((Field.restoresOpt f.recv hsignature hrecv).map₂ Prod.mk
        ((Field.restoresAll f.sig.params hsignature hparams).map₂ Prod.mk
          ((Field.restoresOpt f.sig.results hsignature hresults).map₂ Prod.mk
            (f.restoresBody hinner hbody)))))
  rw [free_eq, free_eq, paramScope_rename, signatureScope_rename, bodyScope_rename]
  have hsame : FuncDecl.mk f.recv f.name ⟨f.sig.typeParams, f.sig.params, f.sig.results⟩ f.body =
      f := by
    cases f with
    | mk recv name sig body =>
      cases sig
      rfl
  refine ⟨(f.rename_rename r r.inverse).trans (hall.eq.trans hsame), ?_⟩
  simp only [List.append_assoc]
  exact hall.count

end FuncDecl

namespace Decl

theorem restores (d : Decl) (h : .name r.new ∉ d.mentions) :
    r.Restores d ((d.rename r).rename r.inverse) d.free (d.rename r).free := by
  cases d with
  | bad node => exact .refl r _
  | group g =>
    cases g with
    | mk tok specs grouped =>
      rw [Decl.mentions, DeclGroup.mentions] at h
      exact (Spec.restoresAll specs h).map fun specs => Decl.group ⟨tok, specs, grouped⟩
  | func f => exact (f.restores h).map Decl.func

theorem restoresAll {decls : List Decl} (h : .name r.new ∉ decls.flatMap Decl.mentions) :
    r.Restores decls (renameAll r.inverse (renameAll r decls)) (freeAll decls)
      (freeAll (renameAll r decls)) := by
  induction decls with
  | nil => exact .refl r _
  | cons d ds ih =>
    rw [List.flatMap_cons, List.mem_append, not_or] at h
    exact (d.restores h.1).map₂ List.cons (ih h.2)

end Decl

end

namespace Decl

/-- A renaming leaves nothing of its old name to rename. If its new name is mentioned nowhere, then
the inverse renaming restores the declarations, changing as many references. -/
theorem renameAll_complete_reversible {r : Renaming} (hne : r.old ≠ r.new) (decls : List Decl) :
    (∀ new, renameAll ⟨r.old, new⟩ (renameAll r decls) = renameAll r decls ∧
      renameCount ⟨r.old, new⟩ (renameAll r decls) = 0) ∧
    (.name r.new ∉ decls.flatMap Decl.mentions →
      renameAll ⟨r.new, r.old⟩ (renameAll r decls) = decls ∧
        renameCount ⟨r.new, r.old⟩ (renameAll r decls) = renameCount r decls) := by
  have hold := old_not_mem_freeAll hne decls
  refine ⟨fun new => ⟨renameAll_of_not_mem hold, List.count_eq_zero.2 hold⟩, fun hnew => ?_⟩
  have hrestores := restoresAll hnew
  exact ⟨hrestores.eq, hrestores.count⟩

/-- A generic type `T` with a method, and a function whose parameter `T` hides the type in the body
only. -/
theorem renameAll_complete_reversible_shadowed :
    let decls : List Decl :=
      [.group ⟨.type, [.type ⟨"T", some [⟨["P"], .ident "any", none⟩], false,
          .structType [⟨["T"], .ident "P", none⟩] false⟩], false⟩,
        .func ⟨some [⟨["x"], .star (.index (.ident "T") (.ident "P")), none⟩], "M",
          ⟨none, [], none⟩, some [.expr (.selector (.ident "x") "T")]⟩,
        .func ⟨none, "f", ⟨none, [⟨["T"], .ident "T", none⟩], some [⟨[], .ident "T", none⟩]⟩,
          some [.assign [.ident "y"] .define [.ident "T"], .ret [.ident "y"]]⟩]
    "T" ≠ "U" ∧ .name "U" ∉ decls.flatMap Decl.mentions ∧
      renameCount ⟨"T", "U"⟩ decls = 4 ∧
      renameCount ⟨"T", "V"⟩ (renameAll ⟨"T", "U"⟩ decls) = 0 ∧
      renameAll ⟨"U", "T"⟩ (renameAll ⟨"T", "U"⟩ decls) = decls := by
  intro decls
  have hne : "T" ≠ "U" := by decide
  have hnew : .name "U" ∉ decls.flatMap Decl.mentions := by
    simp [decls, Decl.mentions, DeclGroup.mentions, Spec.mentionsAll, Spec.mentions,
      TypeSpec.mentions, FuncDecl.mentions, Signature.mentions, Field.mentionsOpt,
      Field.mentionsAll, Field.mentions, Expr.mentionsAll, Expr.mentions, Stmt.mentionsAll,
      Stmt.mentions]
  have h := renameAll_complete_reversible (r := ⟨"T", "U"⟩) hne decls
  exact ⟨hne, hnew, by decide, (h.1 "V").2, (h.2 hnew).1⟩

end Decl

end GoWeave
