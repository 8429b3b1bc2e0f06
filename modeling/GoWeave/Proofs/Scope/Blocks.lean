import GoWeave.Proofs.Scope.Respelling

/-!
# Renaming follows the blocks

The scope that a renaming passes down and the outline of a tree say the same: at each place the old
name is free in the scope just if no binding of the outline is in force. So the renamed tree is the
tree respelled, and the free references to the old name are the places that change.
-/
namespace GoWeave

/-! ## Scopes and agreement -/

/-- A scope inside a block, with a binding of the name in force or not. -/
structure Scope.Within (sc : Scope) (name : String) (shadowed : Bool) : Prop where
  nested : sc.nested = true
  isFree : sc.isFree name = !shadowed

theorem Scope.within_enter {sc : Scope} {name : String} {shadowed : Bool}
    (h : sc.isFree name = !shadowed) : sc.enter.Within name shadowed :=
  ⟨rfl, h⟩

theorem Scope.Within.bind {sc : Scope} {name : String} {shadowed : Bool}
    (h : sc.Within name shadowed) (names : List String) :
    (sc.bind names).Within name (names.contains name || shadowed) := by
  have hbind : sc.bind names = ⟨true, names ++ sc.locals⟩ := if_pos h.nested
  refine ⟨by rw [hbind], ?_⟩
  have hfree := h.isFree
  rw [Scope.isFree, Bool.not_inj_iff] at hfree
  rw [hbind, Scope.isFree, List.contains_append, hfree]

namespace Outline

variable {old : String} {hidden : Nat → Bool} {start : Nat} {shadowed : Bool} {o o' : Outline}

theorem Agrees.left (h : Agrees old hidden start shadowed (o ++ o')) :
    Agrees old hidden start shadowed o :=
  ((agrees_append o o').1 h).1

theorem Agrees.after (h : Agrees old hidden start shadowed (o ++ o')) {names : List String}
    (hbound : o.bound = names) :
    Agrees old hidden (start + o.places) (names.contains old || shadowed) o' :=
  hbound ▸ ((agrees_append o o').1 h).2

theorem Agrees.right (h : Agrees old hidden start shadowed (o ++ o')) (hbound : o.bound = []) :
    Agrees old hidden (start + o.places) shadowed o' :=
  h.after hbound

theorem Agrees.under {names : List String}
    (h : Agrees old hidden start shadowed (bindings names ++ o)) :
    Agrees old hidden start (names.contains old || shadowed) o := by
  have hafter := h.after (bound_bindings names)
  rwa [places_bindings] at hafter

/-- How many identifiers spelled `old` stand at places that are not hidden. -/
def hits (old : String) (hidden : Nat → Bool) (start : Nat) (o : Outline) : Nat :=
  (o.references.zipIdx start).countP fun p => p.1 == old && !hidden p.2

@[simp] theorem hits_done : hits old hidden start done = 0 := rfl

@[simp] theorem hits_append :
    hits old hidden start (o ++ o') =
      hits old hidden start o + hits old hidden (start + o.places) o' := by
  simp [hits, List.zipIdx_append, places]

@[simp] theorem hits_block :
    hits old hidden start (block o o') =
      hits old hidden start o + hits old hidden (start + o.places) o' := by
  simp [hits, references, List.zipIdx_append, places]

@[simp] theorem hits_bindings (names : List String) :
    hits old hidden start (bindings names) = 0 := by
  simp [hits]

end Outline

/-! ## Following an outline -/

/-- The spelling that a renaming gives to a referring identifier, if the local bindings of its old
name are in force where `hidden` says so. -/
def Renaming.respelling (r : Renaming) (hidden : Nat → Bool) (place : Nat) (name : String) :
    String :=
  if name = r.old ∧ hidden place = false then r.new else name

/-- A renamed part of a tree that starts at a place is the part respelled, and its free references
to the old name are the identifiers that change their spelling. -/
structure Renaming.Follows {α : Type} (r : Renaming) (hidden : Nat → Bool) (start : Nat)
    (o : Outline) (renamed respelled : α) (free : List String) : Prop where
  eq : renamed = respelled
  count : free.count r.old = o.hits r.old hidden start

namespace Renaming.Follows

variable {α β γ : Type} {r : Renaming} {hidden : Nat → Bool} {start : Nat} {o o' : Outline}
  {x x' : α} {y y' : β} {fx fy : List String}

theorem none (x : α) : Follows r hidden start .done x x [] :=
  ⟨rfl, rfl⟩

theorem map (g : α → β) (h : Follows r hidden start o x x' fx) :
    Follows r hidden start o (g x) (g x') fx :=
  ⟨congrArg g h.eq, h.count⟩

theorem map₂ (g : α → β → γ) (hx : Follows r hidden start o x x' fx)
    (hy : Follows r hidden (start + o.places) o' y y' fy) :
    Follows r hidden start (o ++ o') (g x y) (g x' y') (fx ++ fy) := by
  refine ⟨congrArg₂ g hx.eq hy.eq, ?_⟩
  rw [List.count_append, hx.count, hy.count, Outline.hits_append]

theorem block₂ (g : α → β → γ) (hx : Follows r hidden start o x x' fx)
    (hy : Follows r hidden (start + o.places) o' y y' fy) :
    Follows r hidden start (.block o o') (g x y) (g x' y') (fx ++ fy) := by
  refine ⟨congrArg₂ g hx.eq hy.eq, ?_⟩
  rw [List.count_append, hx.count, hy.count, Outline.hits_block]

theorem block (h : Follows r hidden start o x x' fx) :
    Follows r hidden start (.block o .done) x x' fx :=
  ⟨h.eq, by rw [h.count, Outline.hits_block, Outline.hits_done, Nat.add_zero]⟩

theorem under (names : List String) (h : Follows r hidden start o x x' fx) :
    Follows r hidden start (.bindings names ++ o) x x' fx :=
  ⟨h.eq, by
    rw [h.count, Outline.hits_append, Outline.hits_bindings, Outline.places_bindings, Nat.zero_add,
      Nat.add_zero]⟩

theorem before (names : List String) (h : Follows r hidden start o x x' fx) :
    Follows r hidden start (o ++ .bindings names) x x' fx :=
  ⟨h.eq, by rw [h.count, Outline.hits_append, Outline.hits_bindings, Nat.add_zero]⟩

theorem reference {sc : Scope} {shadowed : Bool} (hsc : sc.isFree r.old = !shadowed)
    {name : String} {rest : Outline}
    (h : Outline.Agrees r.old hidden start shadowed (.reference name rest)) :
    Follows r hidden start (.reference name .done) (r.apply sc name)
      (r.respelling hidden start name) (sc.reference name) := by
  have hplace := h.1
  by_cases hname : name = r.old
  · have hhidden := hplace hname
    constructor
    · simp [Renaming.apply, Renaming.respelling, hname, hsc, hhidden]
    · cases shadowed <;>
        simp [Scope.reference, Outline.hits, Outline.references, hname, hsc, hhidden]
  · constructor
    · simp [Renaming.apply, Renaming.respelling, hname]
    · have hcount : (sc.reference name).count r.old = 0 := by
        rw [List.count_eq_zero]
        intro hmem
        rw [Scope.reference] at hmem
        split at hmem
        · exact hname (List.mem_singleton.1 hmem).symm
        · exact List.not_mem_nil hmem
      rw [hcount]
      simp [Outline.hits, Outline.references, hname]

end Renaming.Follows

/-! ## Trees -/

section

variable {r : Renaming} {hidden : Nat → Bool}

@[simp] theorem Clause.places_outline (bound : List String) (c : Clause) :
    (c.outline bound).places = (c.outline []).places := by
  cases c <;> simp [Clause.outline]

theorem Clause.bound_outline (bound : List String) (c : Clause) :
    (c.outline bound).bound = [] := by
  cases c <;> simp [Clause.outline, Outline.bound]

theorem Expr.outlineElements_cons {valueKeys : Bool} {x : Expr} {xs : List Expr}
    (hplain : ∀ key value, x ≠ .keyValue (.ident key) value) :
    Expr.outlineElements valueKeys (x :: xs) =
      x.outline ++ Expr.outlineElements valueKeys xs := by
  rw [Expr.outlineElements]
  exact hplain

theorem Expr.followsElements_cons {start : Nat} {sc : Scope} {valueKeys : Bool} {x : Expr}
    {xs : List Expr} (hplain : ∀ key value, x ≠ .keyValue (.ident key) value)
    (hx : r.Follows hidden start x.outline (x.rename r sc)
      (x.respell (r.respelling hidden) start) (x.free sc))
    (hxs : r.Follows hidden (start + x.outline.places) (Expr.outlineElements valueKeys xs)
      (Expr.renameElements r sc valueKeys xs)
      (Expr.respellElements (r.respelling hidden) (start + x.outline.places) valueKeys xs)
      (Expr.freeElements sc valueKeys xs)) :
    r.Follows hidden start (Expr.outlineElements valueKeys (x :: xs))
      (Expr.renameElements r sc valueKeys (x :: xs))
      (Expr.respellElements (r.respelling hidden) start valueKeys (x :: xs))
      (Expr.freeElements sc valueKeys (x :: xs)) := by
  rw [Expr.outlineElements_cons hplain, Expr.renameElements, Expr.respellElements,
    Expr.freeElements]
  · exact hx.map₂ List.cons hxs
  all_goals exact hplain

mutual

theorem Expr.follows {start : Nat} {sc : Scope} {shadowed : Bool}
    (x : Expr) (hsc : sc.isFree r.old = !shadowed)
    (h : x.outline.Agrees r.old hidden start shadowed) :
    r.Follows hidden start x.outline (x.rename r sc) (x.respell (r.respelling hidden) start)
      (x.free sc) := by
  match x with
  | .bad node =>
    rw [Expr.outline, Expr.rename, Expr.respell, Expr.free]
    exact .none _
  | .ident name =>
    rw [Expr.outline] at h ⊢
    rw [Expr.rename, Expr.respell, Expr.free]
    exact (Renaming.Follows.reference hsc h).map Expr.ident
  | .ellipsis elt =>
    rw [Expr.outline] at h ⊢
    rw [Expr.rename, Expr.respell, Expr.free]
    exact (Expr.followsOpt elt hsc h).map Expr.ellipsis
  | .literal value =>
    rw [Expr.outline, Expr.rename, Expr.respell, Expr.free]
    exact .none _
  | .funcLit sig body =>
    rw [Expr.outline] at h ⊢
    rw [Expr.rename, Expr.respell, Expr.free]
    have hsig := h.1.under
    have hinner := (Scope.within_enter hsc).bind sig.typeParamNames
    have hbody := (hsig.right sig.bound_outline).under
    exact (((Signature.follows sig hinner.isFree hsig.left).map₂ Expr.funcLit
      ((Stmt.followsAll body (hinner.bind _) hbody).under _)).under _).block
  | .composite ty elts incomplete =>
    rw [Expr.outline] at h ⊢
    rw [Expr.rename, Expr.respell, Expr.free]
    exact (Expr.followsOpt ty hsc h.left).map₂ (Expr.composite · · incomplete)
      (Expr.followsElements _ elts hsc (h.right (Expr.bound_outlineOpt ty)))
  | .paren y =>
    rw [Expr.outline] at h ⊢
    rw [Expr.rename, Expr.respell, Expr.free]
    exact (Expr.follows y hsc h).map Expr.paren
  | .selector y sel =>
    rw [Expr.outline] at h ⊢
    rw [Expr.rename, Expr.respell, Expr.free]
    exact (Expr.follows y hsc h).map (Expr.selector · sel)
  | .index y arg =>
    rw [Expr.outline] at h ⊢
    rw [Expr.rename, Expr.respell, Expr.free]
    exact (Expr.follows y hsc h.left).map₂ Expr.index
      (Expr.follows arg hsc (h.right y.bound_outline))
  | .indexList y args =>
    rw [Expr.outline] at h ⊢
    rw [Expr.rename, Expr.respell, Expr.free]
    exact (Expr.follows y hsc h.left).map₂ Expr.indexList
      (Expr.followsAll args hsc (h.right y.bound_outline))
  | .slice y low high max three =>
    rw [Expr.outline] at h ⊢
    rw [Expr.rename, Expr.respell, Expr.free, List.append_assoc, List.append_assoc]
    have hlow := h.right y.bound_outline
    have hhigh := hlow.right (Expr.bound_outlineOpt low)
    have hmax := hhigh.right (Expr.bound_outlineOpt high)
    have hbounds := (Expr.followsOpt low hsc hlow.left).map₂ Prod.mk
      ((Expr.followsOpt high hsc hhigh.left).map₂ Prod.mk (Expr.followsOpt max hsc hmax))
    exact (Expr.follows y hsc h.left).map₂ (fun y b => Expr.slice y b.1 b.2.1 b.2.2 three) hbounds
  | .typeAssert y ty =>
    rw [Expr.outline] at h ⊢
    rw [Expr.rename, Expr.respell, Expr.free]
    exact (Expr.follows y hsc h.left).map₂ Expr.typeAssert
      (Expr.followsOpt ty hsc (h.right y.bound_outline))
  | .call fn args spread =>
    rw [Expr.outline] at h ⊢
    rw [Expr.rename, Expr.respell, Expr.free]
    exact (Expr.follows fn hsc h.left).map₂ (Expr.call · · spread)
      (Expr.followsAll args hsc (h.right fn.bound_outline))
  | .star y =>
    rw [Expr.outline] at h ⊢
    rw [Expr.rename, Expr.respell, Expr.free]
    exact (Expr.follows y hsc h).map Expr.star
  | .unary op y =>
    rw [Expr.outline] at h ⊢
    rw [Expr.rename, Expr.respell, Expr.free]
    exact (Expr.follows y hsc h).map (Expr.unary op)
  | .binary op y z =>
    rw [Expr.outline] at h ⊢
    rw [Expr.rename, Expr.respell, Expr.free]
    exact (Expr.follows y hsc h.left).map₂ (Expr.binary op)
      (Expr.follows z hsc (h.right y.bound_outline))
  | .keyValue key value =>
    rw [Expr.outline] at h ⊢
    rw [Expr.rename, Expr.respell, Expr.free]
    exact (Expr.follows key hsc h.left).map₂ Expr.keyValue
      (Expr.follows value hsc (h.right key.bound_outline))
  | .arrayType len elt =>
    rw [Expr.outline] at h ⊢
    rw [Expr.rename, Expr.respell, Expr.free]
    exact (Expr.followsOpt len hsc h.left).map₂ Expr.arrayType
      (Expr.follows elt hsc (h.right (Expr.bound_outlineOpt len)))
  | .structType fields incomplete =>
    rw [Expr.outline] at h ⊢
    rw [Expr.rename, Expr.respell, Expr.free]
    exact (Field.followsAll fields hsc h).map (Expr.structType · incomplete)
  | .funcType sig =>
    rw [Expr.outline] at h ⊢
    rw [Expr.rename, Expr.respell, Expr.free]
    exact (Signature.follows sig hsc h).map Expr.funcType
  | .interfaceType methods incomplete =>
    rw [Expr.outline] at h ⊢
    rw [Expr.rename, Expr.respell, Expr.free]
    exact (Field.followsAll methods hsc h).map (Expr.interfaceType · incomplete)
  | .mapType key value =>
    rw [Expr.outline] at h ⊢
    rw [Expr.rename, Expr.respell, Expr.free]
    exact (Expr.follows key hsc h.left).map₂ Expr.mapType
      (Expr.follows value hsc (h.right key.bound_outline))
  | .chanType dir value =>
    rw [Expr.outline] at h ⊢
    rw [Expr.rename, Expr.respell, Expr.free]
    exact (Expr.follows value hsc h).map (Expr.chanType dir)

theorem Expr.followsOpt {start : Nat} {sc : Scope} {shadowed : Bool}
    (x : Option Expr) (hsc : sc.isFree r.old = !shadowed)
    (h : (Expr.outlineOpt x).Agrees r.old hidden start shadowed) :
    r.Follows hidden start (Expr.outlineOpt x) (Expr.renameOpt r sc x)
      (Expr.respellOpt (r.respelling hidden) start x) (Expr.freeOpt sc x) := by
  match x with
  | none =>
    rw [Expr.outlineOpt, Expr.renameOpt, Expr.respellOpt, Expr.freeOpt]
    exact .none _
  | some x =>
    rw [Expr.outlineOpt] at h ⊢
    rw [Expr.renameOpt, Expr.respellOpt, Expr.freeOpt]
    exact (Expr.follows x hsc h).map some

theorem Expr.followsAll {start : Nat} {sc : Scope} {shadowed : Bool}
    (xs : List Expr) (hsc : sc.isFree r.old = !shadowed)
    (h : (Expr.outlineAll xs).Agrees r.old hidden start shadowed) :
    r.Follows hidden start (Expr.outlineAll xs) (Expr.renameAll r sc xs)
      (Expr.respellAll (r.respelling hidden) start xs) (Expr.freeAll sc xs) := by
  match xs with
  | [] =>
    rw [Expr.outlineAll, Expr.renameAll, Expr.respellAll, Expr.freeAll]
    exact .none _
  | x :: xs =>
    rw [Expr.outlineAll] at h ⊢
    rw [Expr.renameAll, Expr.respellAll, Expr.freeAll]
    exact (Expr.follows x hsc h.left).map₂ List.cons
      (Expr.followsAll xs hsc (h.right x.bound_outline))

theorem Expr.followsElements {start : Nat} {sc : Scope} {shadowed : Bool}
    (valueKeys : Bool) (xs : List Expr)
    (hsc : sc.isFree r.old = !shadowed)
    (h : (Expr.outlineElements valueKeys xs).Agrees r.old hidden start shadowed) :
    r.Follows hidden start (Expr.outlineElements valueKeys xs)
      (Expr.renameElements r sc valueKeys xs)
      (Expr.respellElements (r.respelling hidden) start valueKeys xs)
      (Expr.freeElements sc valueKeys xs) := by
  match xs with
  | [] =>
    rw [Expr.outlineElements, Expr.renameElements, Expr.respellElements, Expr.freeElements]
    exact .none _
  | x :: xs =>
    have hx : x.outline.Agrees r.old hidden start shadowed → r.Follows hidden start x.outline
        (x.rename r sc) (x.respell (r.respelling hidden) start) (x.free sc) :=
      Expr.follows x hsc
    cases x with
    | keyValue key value =>
      cases key with
      | ident name =>
        rw [Expr.outlineElements] at h ⊢
        rw [Expr.renameElements, Expr.respellElements, Expr.freeElements, List.append_assoc]
        have hvalue := h.right (by split <;> rfl)
        have hrest := (Expr.follows value hsc hvalue.left).map₂ Prod.mk
          (Expr.followsElements valueKeys xs hsc (hvalue.right value.bound_outline))
        cases valueKeys with
        | true =>
          exact (Renaming.Follows.reference hsc h.left).map₂
            (fun key p => .keyValue (.ident key) p.1 :: p.2) hrest
        | false =>
          exact (Renaming.Follows.none name).map₂
            (fun key p => .keyValue (.ident key) p.1 :: p.2) hrest
      | _ =>
        rw [Expr.outlineElements_cons (by simp)] at h
        exact Expr.followsElements_cons (by simp) (hx h.left)
          (Expr.followsElements valueKeys xs hsc (h.right (Expr.bound_outline _)))
    | _ =>
      rw [Expr.outlineElements_cons (by simp)] at h
      exact Expr.followsElements_cons (by simp) (hx h.left)
        (Expr.followsElements valueKeys xs hsc (h.right (Expr.bound_outline _)))

theorem Field.follows {start : Nat} {sc : Scope} {shadowed : Bool}
    (f : Field) (hsc : sc.isFree r.old = !shadowed)
    (h : f.outline.Agrees r.old hidden start shadowed) :
    r.Follows hidden start f.outline (f.rename r sc) (f.respell (r.respelling hidden) start)
      (f.free sc) := by
  match f with
  | ⟨names, ty, tag⟩ =>
    rw [Field.outline] at h ⊢
    rw [Field.rename, Field.respell, Field.free]
    exact (Expr.follows ty hsc h).map (Field.mk names · tag)

theorem Field.followsAll {start : Nat} {sc : Scope} {shadowed : Bool}
    (fields : List Field) (hsc : sc.isFree r.old = !shadowed)
    (h : (Field.outlineAll fields).Agrees r.old hidden start shadowed) :
    r.Follows hidden start (Field.outlineAll fields) (Field.renameAll r sc fields)
      (Field.respellAll (r.respelling hidden) start fields) (Field.freeAll sc fields) := by
  match fields with
  | [] =>
    rw [Field.outlineAll, Field.renameAll, Field.respellAll, Field.freeAll]
    exact .none _
  | f :: fs =>
    rw [Field.outlineAll] at h ⊢
    rw [Field.renameAll, Field.respellAll, Field.freeAll]
    exact (Field.follows f hsc h.left).map₂ List.cons
      (Field.followsAll fs hsc (h.right f.bound_outline))

theorem Field.followsOpt {start : Nat} {sc : Scope} {shadowed : Bool}
    (fields : Option (List Field)) (hsc : sc.isFree r.old = !shadowed)
    (h : (Field.outlineOpt fields).Agrees r.old hidden start shadowed) :
    r.Follows hidden start (Field.outlineOpt fields) (Field.renameOpt r sc fields)
      (Field.respellOpt (r.respelling hidden) start fields) (Field.freeOpt sc fields) := by
  match fields with
  | none =>
    rw [Field.outlineOpt, Field.renameOpt, Field.respellOpt, Field.freeOpt]
    exact .none _
  | some fields =>
    rw [Field.outlineOpt] at h ⊢
    rw [Field.renameOpt, Field.respellOpt, Field.freeOpt]
    exact (Field.followsAll fields hsc h).map some

theorem Signature.follows {start : Nat} {sc : Scope} {shadowed : Bool}
    (sig : Signature) (hsc : sc.isFree r.old = !shadowed)
    (h : sig.outline.Agrees r.old hidden start shadowed) :
    r.Follows hidden start sig.outline (sig.rename r sc)
      (sig.respell (r.respelling hidden) start) (sig.free sc) := by
  match sig with
  | ⟨typeParams, params, results⟩ =>
    rw [Signature.outline] at h ⊢
    rw [Signature.rename, Signature.respell, Signature.free, List.append_assoc]
    have hparams := h.right (Field.bound_outlineOpt typeParams)
    have hresults := hparams.right (Field.bound_outlineAll params)
    exact (Field.followsOpt typeParams hsc h.left).map₂ (fun t p => Signature.mk t p.1 p.2)
      ((Field.followsAll params hsc hparams.left).map₂ Prod.mk
        (Field.followsOpt results hsc hresults))

theorem Expr.followsRangeVar {start : Nat} {sc : Scope} {shadowed : Bool} (tok : Option Token)
    (x : Option Expr) (hsc : sc.isFree r.old = !shadowed)
    (h : (Expr.outlineRangeVar tok x).Agrees r.old hidden start shadowed) :
    r.Follows hidden start (Expr.outlineRangeVar tok x) (Expr.renameRangeVar r sc tok x)
      (Expr.respellRangeVar (r.respelling hidden) start tok x) (Expr.freeRangeVar sc tok x) := by
  match x with
  | none =>
    rw [Expr.outlineRangeVar, Expr.renameRangeVar, Expr.respellRangeVar, Expr.freeRangeVar]
    exact .none _
  | some x =>
    have hx : x.outline.Agrees r.old hidden start shadowed → r.Follows hidden start x.outline
        (x.rename r sc) (x.respell (r.respelling hidden) start) (x.free sc) :=
      Expr.follows x hsc
    cases x with
    | ident name =>
      rw [Expr.outlineRangeVar] at h ⊢
      rw [Expr.renameRangeVar, Expr.respellRangeVar, Expr.freeRangeVar]
      by_cases htok : tok = some .define
      · simp only [if_pos htok]
        exact (Renaming.Follows.none _).under [name]
      · simp only [if_neg htok] at h ⊢
        exact (Renaming.Follows.reference hsc h).map (fun name => some (Expr.ident name))
    | _ =>
      rw [Expr.outlineRangeVar] at h ⊢
      · rw [Expr.renameRangeVar, Expr.respellRangeVar, Expr.freeRangeVar]
        · exact (hx h).map some
        all_goals simp
      all_goals simp

theorem Stmt.follows {start : Nat} {sc : Scope} {shadowed : Bool} (s : Stmt)
    (hsc : sc.Within r.old shadowed) (h : s.outline.Agrees r.old hidden start shadowed) :
    r.Follows hidden start s.outline (s.rename r sc) (s.respell (r.respelling hidden) start)
      (s.free sc) := by
  have hinner := Scope.within_enter hsc.isFree
  match s with
  | .bad node =>
    rw [Stmt.outline, Stmt.rename, Stmt.respell, Stmt.free]
    exact .none _
  | .decl ⟨tok, specs, grouped⟩ =>
    rw [Stmt.outline] at h ⊢
    rw [Stmt.rename, Stmt.respell, Stmt.free]
    exact (Spec.followsLocal specs hsc h).map fun specs => Stmt.decl ⟨tok, specs, grouped⟩
  | .empty =>
    rw [Stmt.outline, Stmt.rename, Stmt.respell, Stmt.free]
    exact .none _
  | .labeled label t =>
    rw [Stmt.outline] at h ⊢
    rw [Stmt.rename, Stmt.respell, Stmt.free]
    exact (Stmt.follows t hsc h).map (Stmt.labeled label)
  | .expr x =>
    rw [Stmt.outline] at h ⊢
    rw [Stmt.rename, Stmt.respell, Stmt.free]
    exact (Expr.follows x hsc.isFree h).map Stmt.expr
  | .send chan value =>
    rw [Stmt.outline] at h ⊢
    rw [Stmt.rename, Stmt.respell, Stmt.free]
    exact (Expr.follows chan hsc.isFree h.left).map₂ Stmt.send
      (Expr.follows value hsc.isFree (h.right chan.bound_outline))
  | .incDec x tok =>
    rw [Stmt.outline] at h ⊢
    rw [Stmt.rename, Stmt.respell, Stmt.free]
    exact (Expr.follows x hsc.isFree h).map (Stmt.incDec · tok)
  | .assign lhs tok rhs =>
    rw [Stmt.outline] at h ⊢
    rw [Stmt.rename, Stmt.respell, Stmt.free]
    by_cases htok : tok = .define
    · simp only [if_pos htok] at h ⊢
      exact ((Expr.followsAll rhs hsc.isFree h.left).map (Stmt.assign lhs tok)).before _
    · simp only [if_neg htok] at h ⊢
      exact (Expr.followsAll lhs hsc.isFree h.left).map₂ (Stmt.assign · tok)
        (Expr.followsAll rhs hsc.isFree (h.right (Expr.bound_outlineAll lhs)))
  | .goCall x =>
    rw [Stmt.outline] at h ⊢
    rw [Stmt.rename, Stmt.respell, Stmt.free]
    exact (Expr.follows x hsc.isFree h).map Stmt.goCall
  | .deferCall x =>
    rw [Stmt.outline] at h ⊢
    rw [Stmt.rename, Stmt.respell, Stmt.free]
    exact (Expr.follows x hsc.isFree h).map Stmt.deferCall
  | .ret results =>
    rw [Stmt.outline] at h ⊢
    rw [Stmt.rename, Stmt.respell, Stmt.free]
    exact (Expr.followsAll results hsc.isFree h).map Stmt.ret
  | .branch tok label =>
    rw [Stmt.outline, Stmt.rename, Stmt.respell, Stmt.free]
    exact .none _
  | .block list =>
    rw [Stmt.outline] at h ⊢
    rw [Stmt.rename, Stmt.respell, Stmt.free]
    exact ((Stmt.followsAll list hinner h.1).map Stmt.block).block
  | .ifElse init cond body orElse =>
    rw [Stmt.outline] at h ⊢
    rw [Stmt.rename, Stmt.respell, Stmt.free, List.append_assoc, List.append_assoc]
    have hheader := hinner.bind (Stmt.bindsOpt init)
    have hcond := h.1.after (Stmt.bound_outlineOpt init)
    have hbranches := hcond.right cond.bound_outline
    have hrest := (Stmt.followsAll body (Scope.within_enter hheader.isFree) hbranches.1).block₂
      Prod.mk (Stmt.followsOpt orElse hheader hbranches.2)
    exact ((Stmt.followsOpt init hinner h.1.left).map₂
      (fun init p => Stmt.ifElse init p.1 p.2.1 p.2.2)
      ((Expr.follows cond hheader.isFree hcond.left).map₂ Prod.mk hrest)).block
  | .switch init tag body =>
    rw [Stmt.outline] at h ⊢
    rw [Stmt.rename, Stmt.respell, Stmt.free, List.append_assoc]
    have hheader := hinner.bind (Stmt.bindsOpt init)
    have htag := h.1.after (Stmt.bound_outlineOpt init)
    have hbody := htag.right (Expr.bound_outlineOpt tag)
    exact ((Stmt.followsOpt init hinner h.1.left).map₂ (fun init p => Stmt.switch init p.1 p.2)
      ((Expr.followsOpt tag hheader.isFree htag.left).map₂ Prod.mk
        (Clause.followsAll [] body hheader.isFree hbody))).block
  | .typeSwitch init guard body =>
    rw [Stmt.outline_typeSwitch] at h ⊢
    rw [Stmt.rename_typeSwitch, Stmt.respell_typeSwitch, Stmt.free_typeSwitch, List.append_assoc]
    have hheader := hinner.bind (Stmt.bindsOpt init)
    have hguard := h.1.after (Stmt.bound_outlineOpt init)
    have hbody := hguard.after guard.bound_outlineGuard
    have hclauses := Clause.followsAll guard.guardName body (hheader.bind _).isFree hbody
    refine ((Stmt.followsOpt init hinner h.1.left).map₂
      (fun init p => Stmt.typeSwitch init p.1 p.2)
      (Renaming.Follows.map₂ Prod.mk ?_ hclauses)).block
    have hwhole
        (h : guard.outline.Agrees r.old hidden (start + (Stmt.outlineOpt init).places) _) :=
      Stmt.follows guard hheader h
    cases guard with
    | assign lhs tok rhs =>
      exact (Expr.followsAll rhs hheader.isFree hguard.left).map (Stmt.assign lhs tok)
    | _ => exact hwhole hguard.left
  | .loop init cond post body =>
    rw [Stmt.outline] at h ⊢
    rw [Stmt.rename, Stmt.respell, Stmt.free, List.append_assoc, List.append_assoc]
    have hheader := hinner.bind (Stmt.bindsOpt init)
    have hcond := h.1.after (Stmt.bound_outlineOpt init)
    have hpost := hcond.right (Expr.bound_outlineOpt cond)
    have hbody := hpost.after (Stmt.bound_outlineOpt post)
    have hblock := Scope.within_enter (hheader.bind (Stmt.bindsOpt post)).isFree
    exact ((Stmt.followsOpt init hinner h.1.left).map₂
      (fun init p => Stmt.loop init p.1 p.2.1 p.2.2)
      ((Expr.followsOpt cond hheader.isFree hcond.left).map₂ Prod.mk
        ((Stmt.followsOpt post hheader hpost.left).map₂ Prod.mk
          (Stmt.followsAll body hblock hbody.1).block))).block
  | .range key value tok x body =>
    rw [Stmt.outline] at h ⊢
    rw [Stmt.rename, Stmt.respell, Stmt.free, List.append_assoc, List.append_assoc]
    have hkey := (h.right x.bound_outline).1
    have hvalue := hkey.after (Expr.bound_outlineRangeVar tok key)
    have hbody := hvalue.after (Expr.bound_outlineRangeVar tok value)
    have hkeyed := hinner.bind (Expr.rangeBinds tok key)
    have hblock := Scope.within_enter (hkeyed.bind (Expr.rangeBinds tok value)).isFree
    exact (Expr.follows x hsc.isFree h.left).map₂
      (fun x p => Stmt.range p.1 p.2.1 tok x p.2.2)
      ((Expr.followsRangeVar tok key hinner.isFree hkey.left).map₂ Prod.mk
        ((Expr.followsRangeVar tok value hkeyed.isFree hvalue.left).map₂ Prod.mk
          (Stmt.followsAll body hblock hbody.1).block)).block

theorem Stmt.followsOpt {start : Nat} {sc : Scope} {shadowed : Bool} (s : Option Stmt)
    (hsc : sc.Within r.old shadowed)
    (h : (Stmt.outlineOpt s).Agrees r.old hidden start shadowed) :
    r.Follows hidden start (Stmt.outlineOpt s) (Stmt.renameOpt r sc s)
      (Stmt.respellOpt (r.respelling hidden) start s) (Stmt.freeOpt sc s) := by
  match s with
  | none =>
    rw [Stmt.outlineOpt, Stmt.renameOpt, Stmt.respellOpt, Stmt.freeOpt]
    exact .none _
  | some s =>
    rw [Stmt.outlineOpt] at h ⊢
    rw [Stmt.renameOpt, Stmt.respellOpt, Stmt.freeOpt]
    exact (Stmt.follows s hsc h).map some

theorem Stmt.followsAll {start : Nat} {sc : Scope} {shadowed : Bool} (list : List Stmt)
    (hsc : sc.Within r.old shadowed)
    (h : (Stmt.outlineAll list).Agrees r.old hidden start shadowed) :
    r.Follows hidden start (Stmt.outlineAll list) (Stmt.renameAll r sc list)
      (Stmt.respellAll (r.respelling hidden) start list) (Stmt.freeAll sc list) := by
  match list with
  | [] =>
    rw [Stmt.outlineAll, Stmt.renameAll, Stmt.respellAll, Stmt.freeAll]
    exact .none _
  | s :: ss =>
    rw [Stmt.outlineAll] at h ⊢
    rw [Stmt.renameAll, Stmt.respellAll, Stmt.freeAll]
    exact (Stmt.follows s hsc h.left).map₂ List.cons
      (Stmt.followsAll ss (hsc.bind s.binds) (h.after s.bound_outline))

theorem Clause.follows {start : Nat} {sc : Scope} {shadowed : Bool} (bound : List String)
    (c : Clause) (hsc : sc.isFree r.old = !shadowed)
    (h : (c.outline bound).Agrees r.old hidden start shadowed) :
    r.Follows hidden start (c.outline bound) (c.rename r sc bound)
      (c.respell (r.respelling hidden) start) (c.free sc bound) := by
  have hbody := (Scope.within_enter hsc).bind bound
  match c with
  | .matching list body =>
    rw [Clause.outline] at h ⊢
    rw [Clause.rename, Clause.respell, Clause.free]
    have hafter := (h.1.right (Expr.bound_outlineAll list)).under
    exact ((Expr.followsAll list (Scope.within_enter hsc).isFree h.1.left).map₂ Clause.matching
      ((Stmt.followsAll body hbody hafter).under _)).block
  | .otherwise body =>
    rw [Clause.outline] at h ⊢
    rw [Clause.rename, Clause.respell, Clause.free]
    exact (((Stmt.followsAll body hbody h.1.under).map Clause.otherwise).under _).block

theorem Clause.followsAll {start : Nat} {sc : Scope} {shadowed : Bool} (bound : List String)
    (list : List Clause) (hsc : sc.isFree r.old = !shadowed)
    (h : (Clause.outlineAll bound list).Agrees r.old hidden start shadowed) :
    r.Follows hidden start (Clause.outlineAll bound list) (Clause.renameAll r sc bound list)
      (Clause.respellAll (r.respelling hidden) start list) (Clause.freeAll sc bound list) := by
  match list with
  | [] =>
    rw [Clause.outlineAll, Clause.renameAll, Clause.respellAll, Clause.freeAll]
    exact .none _
  | c :: cs =>
    rw [Clause.outlineAll] at h ⊢
    rw [Clause.renameAll, Clause.respellAll, Clause.freeAll, ← Clause.places_outline bound c]
    exact (Clause.follows bound c hsc h.left).map₂ List.cons
      (Clause.followsAll bound cs hsc (h.right (Clause.bound_outline bound c)))

theorem Spec.followsLocal {start : Nat} {sc : Scope} {shadowed : Bool} (specs : List Spec)
    (hsc : sc.Within r.old shadowed)
    (h : (Spec.outlineLocal specs).Agrees r.old hidden start shadowed) :
    r.Follows hidden start (Spec.outlineLocal specs) (Spec.renameLocal r sc specs)
      (Spec.respellLocal (r.respelling hidden) start specs) (Spec.freeLocal sc specs) := by
  match specs with
  | [] =>
    rw [Spec.outlineLocal, Spec.renameLocal, Spec.respellLocal, Spec.freeLocal]
    exact .none _
  | .imported spec :: ss =>
    rw [Spec.outlineLocal] at h ⊢
    rw [Spec.renameLocal, Spec.respellLocal, Spec.freeLocal]
    exact (Spec.followsLocal ss hsc h).map (.imported spec :: ·)
  | .value ⟨names, ty, values⟩ :: ss =>
    rw [Spec.outlineLocal] at h ⊢
    rw [Spec.renameLocal, Spec.respellLocal, Spec.freeLocal, List.append_assoc]
    have hvalues := h.right (Expr.bound_outlineOpt ty)
    have hrest := (hvalues.right (Expr.bound_outlineAll values)).under
    exact (Expr.followsOpt ty hsc.isFree h.left).map₂
      (fun ty p => .value ⟨names, ty, p.1⟩ :: p.2)
      ((Expr.followsAll values hsc.isFree hvalues.left).map₂ Prod.mk
        ((Spec.followsLocal ss (hsc.bind names) hrest).under names))
  | .type ⟨name, typeParams, isAlias, ty⟩ :: ss =>
    rw [Spec.outlineLocal] at h ⊢
    rw [Spec.renameLocal, Spec.respellLocal, Spec.freeLocal, List.append_assoc]
    have hinner := hsc.bind [name]
    have hparams : Outline.Agrees r.old hidden start ([name].contains r.old || shadowed) _ :=
      Outline.Agrees.under h
    have hty := hparams.right (Field.bound_outlineOpt typeParams)
    have hrest := hty.right ty.bound_outline
    exact ((Field.followsOpt typeParams hinner.isFree hparams.left).map₂
      (fun typeParams p => .type ⟨name, typeParams, isAlias, p.1⟩ :: p.2)
      ((Expr.follows ty hinner.isFree hty.left).map₂ Prod.mk
        (Spec.followsLocal ss hinner hrest))).under [name]

end

end

end GoWeave
