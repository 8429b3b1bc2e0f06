import GoWeave.Proofs.Scope.Blocks

/-!
# Renaming in top-level declarations

The names of top-level types, values and plain functions refer like any other identifier. A method
is the one construct whose names a renaming does not treat as the blocks do: the type parameters
that the method binds are in force after its name, but a renaming takes them to be in force in the
receiver, too. The outlines `outlineKept` say what it sees.

The main result, `Decl.renameAll_eq_respellAll`, tells for each referring identifier of a file
whether a renaming changes it, and how many it changes.
-/
namespace GoWeave

theorem Scope.within_root (name : String) : Scope.root.enter.Within name false :=
  ⟨rfl, rfl⟩

section

variable {r : Renaming} {hidden : Nat → Bool} {start : Nat} {sc : Scope} {shadowed : Bool}

theorem Outline.follows_referring (names : List String)
    (h : (Outline.referring names).Agrees r.old hidden start false) :
    r.Follows hidden start (.referring names) (names.map (r.apply .root))
      ((names.zipIdx start).map fun p => r.respelling hidden p.2 p.1)
      (names.flatMap Scope.root.reference) := by
  induction names generalizing start with
  | nil => exact .none _
  | cons name names ih =>
    exact (Renaming.Follows.reference (Scope.isFree_root _) h).map₂ List.cons (ih h.2)

theorem ValueSpec.follows (spec : ValueSpec)
    (h : spec.outline.Agrees r.old hidden start false) :
    r.Follows hidden start spec.outline (spec.rename r .root)
      (spec.respell (r.respelling hidden) start) (spec.free .root) := by
  have hty := h.right (Outline.bound_referring _)
  have hvalues := hty.right (Expr.bound_outlineOpt _)
  have hrest := (Expr.followsOpt spec.ty (Scope.isFree_root _) hty.left).map₂ Prod.mk
    (Expr.followsAll spec.values (Scope.isFree_root _) hvalues)
  have hspec := (Outline.follows_referring spec.names h.left).map₂
    (fun names p => ValueSpec.mk names p.1 p.2) hrest
  rw [← List.append_assoc, Outline.places_referring] at hspec
  exact hspec

theorem TypeSpec.follows (spec : TypeSpec)
    (h : spec.outline.Agrees r.old hidden start false) :
    r.Follows hidden start spec.outline (spec.rename r .root)
      (spec.respell (r.respelling hidden) start) (spec.free .root) := by
  have hinner := (Scope.within_root r.old).bind (Field.declared (spec.typeParams.getD []))
  have hparams := h.2.1.under
  have hty := hparams.right (Field.bound_outlineOpt _)
  have hrest := (Field.followsOpt spec.typeParams hinner.isFree hparams.left).map₂ Prod.mk
    (Expr.follows spec.ty hinner.isFree hty)
  have hspec := (Renaming.Follows.reference (Scope.isFree_root _) h).map₂
    (fun name p => TypeSpec.mk name p.1 spec.isAlias p.2)
    (hrest.under (Field.declared (spec.typeParams.getD []))).block
  rw [← List.append_assoc] at hspec
  exact hspec

@[simp] theorem Spec.bound_outline (spec : Spec) : spec.outline.bound = [] := by
  cases spec <;> simp [Spec.outline, ValueSpec.outline, TypeSpec.outline, Outline.bound]

theorem Spec.follows (spec : Spec) (h : spec.outline.Agrees r.old hidden start false) :
    r.Follows hidden start spec.outline (spec.rename r .root)
      (spec.respell (r.respelling hidden) start) (spec.free .root) := by
  cases spec with
  | imported spec => exact .none _
  | value spec => exact (spec.follows h).map Spec.value
  | type spec => exact (spec.follows h).map Spec.type

/-! ## Receivers -/

/-- A plain type argument of a receiver stays, since it is bound. -/
theorem Expr.followsArg (x : Expr) (hsc : sc.isFree r.old = !shadowed)
    (hbound : ∀ name ∈ x.ident?.toList, sc.isFree name = false)
    (h : x.outlineArg.Agrees r.old hidden start shadowed) :
    r.Follows hidden start x.outlineArg (x.rename r sc)
      (x.respellArg (r.respelling hidden) start) (x.free sc) := by
  cases x with
  | ident name =>
    have hname : sc.isFree name = false := hbound name (by simp [Expr.ident?])
    rw [Expr.rename, Expr.free, r.apply_of_bound hname, Scope.reference, if_neg (by simp [hname])]
    exact .none _
  | _ => exact Expr.follows _ hsc h

@[simp] theorem Expr.bound_outlineArg (x : Expr) : x.outlineArg.bound = [] := by
  cases x with
  | ident name => rfl
  | _ => exact Expr.bound_outline _

theorem Expr.followsArgs (xs : List Expr) (hsc : sc.isFree r.old = !shadowed)
    (hbound : ∀ name ∈ Expr.targets xs, sc.isFree name = false)
    (h : (Expr.outlineArgs xs).Agrees r.old hidden start shadowed) :
    r.Follows hidden start (Expr.outlineArgs xs) (Expr.renameAll r sc xs)
      (Expr.respellArgs (r.respelling hidden) start xs) (Expr.freeAll sc xs) := by
  induction xs generalizing start with
  | nil =>
    rw [Expr.renameAll, Expr.freeAll]
    exact .none _
  | cons x xs ih =>
    rw [Expr.targets, List.filterMap_cons] at hbound
    rw [Expr.renameAll, Expr.freeAll]
    have hx : ∀ name ∈ x.ident?.toList, sc.isFree name = false := by
      intro name hname
      rw [Option.mem_toList] at hname
      rw [hname] at hbound
      exact hbound name List.mem_cons_self
    have hxs : ∀ name ∈ Expr.targets xs, sc.isFree name = false := by
      intro name hname
      cases hident : x.ident? with
      | none =>
        rw [hident] at hbound
        exact hbound name hname
      | some first =>
        rw [hident] at hbound
        exact hbound name (List.mem_cons_of_mem _ hname)
    exact (Expr.followsArg x hsc hx h.left).map₂ List.cons (ih hxs (h.right x.bound_outlineArg))

@[simp] theorem Expr.bound_outlineArgs (xs : List Expr) : (Expr.outlineArgs xs).bound = [] := by
  induction xs with
  | nil => rfl
  | cons x xs ih => rw [Expr.outlineArgs, Outline.bound_append, Expr.bound_outlineArg, ih]; rfl

theorem Expr.followsReceiver (x : Expr) (hsc : sc.isFree r.old = !shadowed)
    (hbound : ∀ name ∈ x.receiverParams, sc.isFree name = false)
    (h : x.outlineReceiver.Agrees r.old hidden start shadowed) :
    r.Follows hidden start x.outlineReceiver (x.rename r sc)
      (x.respellReceiver (r.respelling hidden) start) (x.free sc) := by
  cases x with
  | index y arg =>
    rw [Expr.rename, Expr.free]
    exact (Expr.follows y hsc h.left).map₂ Expr.index
      (Expr.followsArg arg hsc hbound (h.right y.bound_outline))
  | indexList y args =>
    rw [Expr.rename, Expr.free]
    exact (Expr.follows y hsc h.left).map₂ Expr.indexList
      (Expr.followsArgs args hsc hbound (h.right y.bound_outline))
  | star y =>
    cases y with
    | index z arg =>
      rw [Expr.rename, Expr.rename, Expr.free, Expr.free]
      exact (Expr.follows z hsc h.left).map₂ (fun z arg => Expr.star (Expr.index z arg))
        (Expr.followsArg arg hsc hbound (h.right z.bound_outline))
    | indexList z args =>
      rw [Expr.rename, Expr.rename, Expr.free, Expr.free]
      exact (Expr.follows z hsc h.left).map₂ (fun z args => Expr.star (Expr.indexList z args))
        (Expr.followsArgs args hsc hbound (h.right z.bound_outline))
    | _ => exact Expr.follows _ hsc h
  | _ => exact Expr.follows _ hsc h

@[simp] theorem Expr.bound_outlineReceiver (x : Expr) : x.outlineReceiver.bound = [] := by
  cases x with
  | index y arg => simp [Expr.outlineReceiver]
  | indexList y args => simp [Expr.outlineReceiver]
  | star y =>
    cases y with
    | index z arg => simp [Expr.outlineReceiver]
    | indexList z args => simp [Expr.outlineReceiver]
    | _ => exact Expr.bound_outline _
  | _ => exact Expr.bound_outline _

theorem Field.followsReceivers (fields : List Field) (hsc : sc.isFree r.old = !shadowed)
    (hbound : ∀ name ∈ fields.flatMap (·.ty.receiverParams), sc.isFree name = false)
    (h : (Field.outlineReceivers fields).Agrees r.old hidden start shadowed) :
    r.Follows hidden start (Field.outlineReceivers fields) (Field.renameAll r sc fields)
      (Field.respellReceivers (r.respelling hidden) start fields) (Field.freeAll sc fields) := by
  induction fields generalizing start with
  | nil =>
    rw [Field.renameAll, Field.freeAll]
    exact .none _
  | cons f fs ih =>
    rw [List.flatMap_cons, List.forall_mem_append] at hbound
    rw [Field.renameAll, Field.freeAll]
    cases f with
    | mk names ty tag =>
      rw [Field.rename, Field.free]
      exact (Expr.followsReceiver ty hsc hbound.1 h.left).map₂
        (fun ty fs => Field.mk names ty tag :: fs)
        (ih hbound.2 (h.right ty.bound_outlineReceiver))

@[simp] theorem Field.bound_outlineReceivers (fields : List Field) :
    (Field.outlineReceivers fields).bound = [] := by
  induction fields with
  | nil => rfl
  | cons f fs ih => simp [Field.outlineReceivers, ih]

namespace FuncDecl

/-- The outline of a function as a renaming sees it: the names bound in its signature are in force
in the receiver, too. -/
def outlineKept (f : FuncDecl) : Outline :=
  .block (.bindings f.signatureNames ++ f.outlineReceiver)
    (f.outlineName ++ .block f.outlineRest .done)

theorem followsReceiver (f : FuncDecl)
    (h : f.outlineReceiver.Agrees r.old hidden start (f.signatureNames.contains r.old)) :
    r.Follows hidden start f.outlineReceiver (Field.renameOpt r (f.signatureScope .root) f.recv)
      (f.recv.map (Field.respellReceivers (r.respelling hidden) start))
      (Field.freeOpt (f.signatureScope .root) f.recv) := by
  have hsc := f.isFree_signatureScope r.old
  have hbound : ∀ name ∈ (f.recv.getD []).flatMap (·.ty.receiverParams),
      (f.signatureScope .root).isFree name = false := by
    intro name hname
    rw [isFree_signatureScope, Bool.not_eq_false', List.contains_iff_mem, signatureNames]
    exact List.mem_append_left _ hname
  unfold outlineReceiver at h ⊢
  cases hrecv : f.recv with
  | none =>
    rw [Field.renameOpt, Field.freeOpt]
    exact .none _
  | some fields =>
    rw [hrecv] at h hbound
    rw [Field.renameOpt, Field.freeOpt]
    exact (Field.followsReceivers fields hsc hbound h).map some

theorem followsName (f : FuncDecl) (h : f.outlineName.Agrees r.old hidden start false) :
    r.Follows hidden start f.outlineName
      (if f.recv.isSome then f.name else r.apply .root f.name)
      (if f.recv.isSome then f.name else r.respelling hidden start f.name)
      (if f.recv.isSome then [] else Scope.root.reference f.name) := by
  unfold outlineName at h ⊢
  by_cases hrecv : f.recv.isSome
  · simp only [if_pos hrecv]
    exact .none _
  · simp only [if_neg hrecv] at h ⊢
    exact .reference (Scope.isFree_root _) h

theorem bound_outlineName (f : FuncDecl) : f.outlineName.bound = [] := by
  unfold outlineName
  split <;> rfl

theorem followsBody {sc : Scope} {shadowed : Bool} (f : FuncDecl) (hsc : sc.Within r.old shadowed)
    (h : (Stmt.outlineAll (f.body.getD [])).Agrees r.old hidden start shadowed) :
    r.Follows hidden start (Stmt.outlineAll (f.body.getD [])) (f.body.map (Stmt.renameAll r sc))
      (f.body.map (Stmt.respellAll (r.respelling hidden) start))
      ((f.body.map (Stmt.freeAll sc)).getD []) := by
  cases hbody : f.body with
  | none =>
    rw [Option.getD_none, Stmt.outlineAll]
    exact .none _
  | some body =>
    rw [hbody] at h
    exact (Stmt.followsAll body hsc h).map some

theorem followsRest (f : FuncDecl) (h : f.outlineRest.Agrees r.old hidden start false) :
    r.Follows hidden start f.outlineRest ((f.rename r .root).sig, (f.rename r .root).body)
      (f.respellRest (r.respelling hidden) start)
      (Field.freeOpt (f.paramScope .root) f.sig.typeParams ++
        (Field.freeAll (f.signatureScope .root) f.sig.params ++
          (Field.freeOpt (f.signatureScope .root) f.sig.results ++
            (f.body.map (Stmt.freeAll (f.bodyScope .root))).getD []))) := by
  have htypes := h.under
  have hparams := (htypes.right (Field.bound_outlineOpt _)).under
  have hresults := hparams.right (Field.bound_outlineAll _)
  have hbody := (hresults.right (Field.bound_outlineOpt _)).under
  have hparamScope := (Scope.within_root r.old).bind f.sig.typeParamNames
  have hsignature := hparamScope.bind ((f.recv.getD []).flatMap (·.ty.receiverParams))
  have hinner := hsignature.bind (Field.declared (f.recv.getD []) ++ f.sig.bodyNames)
  have hafter := (Field.followsOpt f.sig.results hsignature.isFree hresults.left).map₂ Prod.mk
    ((f.followsBody hinner hbody).under (Field.declared (f.recv.getD []) ++ f.sig.bodyNames))
  exact ((Field.followsOpt f.sig.typeParams hparamScope.isFree htypes.left).map₂
    (fun types p => (Signature.mk types p.1 p.2.1, p.2.2))
    (((Field.followsAll f.sig.params hsignature.isFree hparams.left).map₂ Prod.mk
      hafter).under _)).under _

theorem follows (f : FuncDecl) (h : f.outlineKept.Agrees r.old hidden start false) :
    r.Follows hidden start f.outlineKept (f.rename r .root)
      (f.respell (r.respelling hidden) start) (f.free .root) := by
  have hreceiver := h.1.under
  rw [Bool.or_false] at hreceiver
  have hplaces : (Outline.bindings f.signatureNames ++ f.outlineReceiver).places =
      f.outlineReceiver.places := by
    rw [Outline.places_append, Outline.places_bindings, Nat.zero_add]
  have hname := h.2
  rw [hplaces] at hname
  have hafter := (f.followsName hname.left).map₂ Prod.mk
    (f.followsRest (hname.right f.bound_outlineName).1).block
  rw [← hplaces] at hafter
  have hfunc := ((f.followsReceiver hreceiver).under f.signatureNames).block₂
    (fun recv p => FuncDecl.mk recv p.1 p.2.1 p.2.2) hafter
  refine ⟨?_, ?_⟩
  · rw [hplaces] at hfunc
    exact hfunc.eq
  · rw [outlineKept, ← hfunc.count, free_eq]
    simp only [List.count_append]
    omega

end FuncDecl

/-! ## Files -/

theorem Spec.followsAll (specs : List Spec)
    (h : (Spec.outlineAll specs).Agrees r.old hidden start false) :
    r.Follows hidden start (Spec.outlineAll specs) (specs.map (Spec.rename r .root))
      (Spec.respellAll (r.respelling hidden) start specs) (specs.flatMap (Spec.free .root)) := by
  induction specs generalizing start with
  | nil => exact .none _
  | cons s ss ih =>
    exact (s.follows h.left).map₂ List.cons (ih (h.right s.bound_outline))

theorem Spec.bound_outlineAll (specs : List Spec) : (Spec.outlineAll specs).bound = [] := by
  induction specs with
  | nil => rfl
  | cons s ss ih => exact (Outline.bound_append _ _).trans (by rw [s.bound_outline]; exact ih)

namespace Decl

/-- The outline of a declaration as a renaming sees it. -/
def outlineKept : Decl → Outline
  | .func f => f.outlineKept
  | d => d.outline

def outlineAllKept (decls : List Decl) : Outline :=
  decls.foldr (fun d rest => d.outlineKept ++ rest) .done

theorem follows (d : Decl) (h : d.outlineKept.Agrees r.old hidden start false) :
    r.Follows hidden start d.outlineKept (d.rename r) (d.respell (r.respelling hidden) start)
      d.free := by
  cases d with
  | bad node => exact .none _
  | group g =>
    exact (Spec.followsAll g.specs h).map fun specs => Decl.group { g with specs := specs }
  | func f => exact (f.follows h).map Decl.func

theorem references_outlineKept (d : Decl) : d.outlineKept.references = d.outline.references := by
  cases d with
  | func f =>
    simp [outlineKept, outline, FuncDecl.outlineKept, FuncDecl.outline, Outline.references]
  | _ => rfl

theorem places_outlineKept (d : Decl) : d.outlineKept.places = d.outline.places :=
  congrArg List.length d.references_outlineKept

theorem bound_outlineKept (d : Decl) : d.outlineKept.bound = [] := by
  cases d with
  | bad node => rfl
  | group g => exact Spec.bound_outlineAll g.specs
  | func f =>
    rw [outlineKept, FuncDecl.outlineKept, Outline.bound, Outline.bound_append,
      f.bound_outlineName]
    rfl

theorem followsAll (decls : List Decl)
    (h : (outlineAllKept decls).Agrees r.old hidden start false) :
    r.Follows hidden start (outlineAllKept decls) (renameAll r decls)
      (respellFrom (r.respelling hidden) start decls) (freeAll decls) := by
  induction decls generalizing start with
  | nil => exact .none _
  | cons d ds ih =>
    rw [respellFrom, ← d.places_outlineKept]
    exact (d.follows h.left).map₂ List.cons (ih (h.right d.bound_outlineKept))

/-- The names that a function binds in its signature, over the places of its receiver. -/
def receiverExtents (start : Nat) : Decl → List Extent
  | .func f => f.signatureNames.map fun name => ⟨name, start, start + f.outlineReceiver.places⟩
  | _ => []

def receiverExtentsFrom (start : Nat) : List Decl → List Extent
  | [] => []
  | d :: ds => d.receiverExtents start ++ receiverExtentsFrom (start + d.outline.places) ds

/-- For each method of a list of top-level declarations, the places of its receiver as extents of
the type parameters that the method binds. -/
def receiverExtentsAll (decls : List Decl) : List Extent :=
  receiverExtentsFrom 0 decls

theorem hides_outlineKept (d : Decl) (stop start : Nat) (name : String) (place : Nat) :
    Extent.hides (d.outlineKept.extents stop start) name place =
      (Extent.hides (d.outline.extents stop start) name place ||
        Extent.hides (d.receiverExtents start) name place) := by
  cases d with
  | func f =>
    have hreceiver : f.outlineReceiver.bound = [] := Field.bound_outlineReceivers _
    have hextents := Outline.extents_of_bound_eq_nil hreceiver
      (start + f.outlineReceiver.places) stop start
    simp only [outlineKept, outline, FuncDecl.outlineKept, FuncDecl.outline, Outline.extents,
      Outline.extents_append, Outline.extents_bindings, Outline.places_append,
      Outline.places_bindings, Nat.zero_add, Nat.add_zero, Extent.hides_append, receiverExtents,
      hextents]
    rw [Bool.or_assoc, Bool.or_comm]
  | _ => exact (Bool.or_false _).symm

theorem hides_outlineAllKept (decls : List Decl) (stop start : Nat) (name : String)
    (place : Nat) :
    Extent.hides ((outlineAllKept decls).extents stop start) name place =
      (Extent.hides ((outlineAll decls).extents stop start) name place ||
        Extent.hides (receiverExtentsFrom start decls) name place) := by
  induction decls generalizing start with
  | nil => rfl
  | cons d ds ih =>
    have hkept : outlineAllKept (d :: ds) = d.outlineKept ++ outlineAllKept ds := rfl
    have hall : outlineAll (d :: ds) = d.outline ++ outlineAll ds := rfl
    rw [hkept, hall, Outline.extents_append, Outline.extents_append, Extent.hides_append,
      Extent.hides_append, d.hides_outlineKept, d.places_outlineKept, ih, receiverExtentsFrom,
      Extent.hides_append]
    ac_rfl

theorem references_outlineAllKept (decls : List Decl) :
    (outlineAllKept decls).references = references decls := by
  induction decls with
  | nil => rfl
  | cons d ds ih =>
    have hkept : outlineAllKept (d :: ds) = d.outlineKept ++ outlineAllKept ds := rfl
    rw [hkept, Outline.references_append, d.references_outlineKept, ih]
    exact (Outline.references_append _ _).symm

theorem agrees_outlineAllKept (decls : List Decl) (name : String) :
    (outlineAllKept decls).Agrees name
      (Extent.hides (extents decls ++ receiverExtentsAll decls) name) 0 false := by
  have hplaces : (outlineAllKept decls).places = (outlineAll decls).places :=
    congrArg List.length (references_outlineAllKept decls)
  have hstop : 0 + (outlineAllKept decls).places ≤ (outlineAll decls).places := by omega
  refine Outline.agrees_of_extents hstop fun place _ _ => ?_
  rw [Bool.false_or, hides_outlineAllKept, Extent.hides_append]
  rfl

theorem followsAll_of_agrees {decls : List Decl}
    (h : (outlineAllKept decls).Agrees r.old hidden 0 false) :
    renameAll r decls = respellAll (r.respelling hidden) decls ∧
      renameCount r decls =
        (references decls).zipIdx.countP fun p => p.1 == r.old && !hidden p.2 := by
  have hfollows := followsAll decls h
  refine ⟨hfollows.eq, ?_⟩
  rw [renameCount, hfollows.count, Outline.hits, references_outlineAllKept]

/-- A renaming respells exactly the references to its old name that stand outside the scopes of the
local bindings of that name. The scopes are those of the blocks, except that the type parameters
which a method binds are in force in its receiver, too. Where this makes no difference, because no
receiver has the old name at a place that only its own type parameters hide, the scopes are those of
the blocks alone. -/
theorem renameAll_eq_respellAll (r : Renaming) (decls : List Decl) :
    (renameAll r decls = respellAll
        (r.respelling (Extent.hides (extents decls ++ receiverExtentsAll decls) r.old)) decls ∧
      renameCount r decls = (references decls).zipIdx.countP fun p =>
        p.1 == r.old && !Extent.hides (extents decls ++ receiverExtentsAll decls) r.old p.2) ∧
    ((∀ p ∈ (references decls).zipIdx, p.1 = r.old →
        Extent.hides (receiverExtentsAll decls) r.old p.2 = true →
        Extent.hides (extents decls) r.old p.2 = true) →
      renameAll r decls =
          respellAll (r.respelling (Extent.hides (extents decls) r.old)) decls ∧
        renameCount r decls = (references decls).zipIdx.countP fun p =>
          p.1 == r.old && !Extent.hides (extents decls) r.old p.2) := by
  have hagrees := agrees_outlineAllKept decls r.old
  refine ⟨followsAll_of_agrees hagrees, fun hreceivers => followsAll_of_agrees ?_⟩
  rw [← references_outlineAllKept] at hreceivers
  refine hagrees.congr fun p hp hname => ?_
  rw [Extent.hides_append]
  have himplies := hreceivers p hp hname
  revert himplies
  cases Extent.hides (receiverExtentsAll decls) r.old p.2 <;>
    cases Extent.hides (extents decls) r.old p.2 <;> simp

/-- With the generic type `T`, in `func (x *T[P]) M(T T[P]) { x.T = T; T := x; T }` the parameter is
in force in the body only, and the receiver is in the scope of `P` but not of `T`. -/
theorem renameAll_eq_respellAll_parameter :
    let r : Renaming := ⟨"T", "U"⟩
    let decls : List Decl :=
      [.group ⟨.type, [.type ⟨"T", some [⟨["P"], .ident "any", none⟩], false,
          .structType [⟨["T"], .ident "P", none⟩] false⟩], false⟩,
        .func ⟨some [⟨["x"], .star (.index (.ident "T") (.ident "P")), none⟩], "M",
          ⟨none, [⟨["T"], .index (.ident "T") (.ident "P"), none⟩], none⟩,
          some [.assign [.selector (.ident "x") "T"] .assign [.ident "T"],
            .assign [.ident "T"] .define [.ident "x"], .expr (.ident "T")]⟩]
    references decls = ["T", "any", "P", "T", "T", "P", "x", "T", "x", "T"] ∧
      extents decls =
        [⟨"P", 1, 3⟩, ⟨"P", 4, 10⟩, ⟨"x", 6, 10⟩, ⟨"T", 6, 10⟩, ⟨"T", 9, 10⟩] ∧
      receiverExtentsAll decls = [⟨"P", 3, 4⟩] ∧
      renameAll r decls = respellAll (r.respelling (Extent.hides (extents decls) r.old)) decls ∧
      renameCount r decls = 3 := by
  intro r decls
  have hreceivers : ∀ p ∈ (references decls).zipIdx, p.1 = r.old →
      Extent.hides (receiverExtentsAll decls) r.old p.2 = true →
      Extent.hides (extents decls) r.old p.2 = true := by decide
  exact ⟨by decide, by decide, by decide,
    ((renameAll_eq_respellAll r decls).2 hreceivers).1, by decide⟩

/-- In `func (x *T[T]) M()` the base type refers to the generic type `T`, outside the scope of the
type parameter `T`. A renaming of the type leaves it behind. -/
theorem exists_receiver_base_kept :
    ∃ (r : Renaming) (decls : List Decl),
      renameAll r decls ≠ respellAll (r.respelling (Extent.hides (extents decls) r.old)) decls ∧
        references decls = [r.old, "any", "P", r.old] ∧
        references (renameAll r decls) = [r.new, "any", "P", r.old] ∧
        Extent.hides (extents decls) r.old 3 = false ∧ renameCount r decls = 1 := by
  refine ⟨⟨"T", "TB"⟩,
    [.group ⟨.type, [.type ⟨"T", some [⟨["P"], .ident "any", none⟩], false,
        .structType [⟨["X"], .ident "P", none⟩] false⟩], false⟩,
      .func ⟨some [⟨["x"], .star (.index (.ident "T") (.ident "T")), none⟩], "M",
        ⟨none, [], none⟩, some []⟩], fun h => ?_, by decide, by decide, by decide, by decide⟩
  exact absurd (congrArg references h) (by decide)

end Decl

end

end GoWeave
