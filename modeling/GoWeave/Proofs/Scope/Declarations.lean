import GoWeave.Proofs.Scope.References

/-!
# Top-level declarations under a renaming

The references of top-level declarations pass over as those of any tree do. Here the names of types,
values and plain functions are references themselves, and the type parameters that a receiver
introduces are bound in the receiver, so that a receiver keeps the name of its type if the method
binds that name.
-/
namespace GoWeave

theorem Renaming.apply_root (r : Renaming) (name : String) :
    r.apply .root name = if name = r.old then r.new else name := by
  simp [Renaming.apply]

theorem Renaming.apply_of_bound (r : Renaming) {sc : Scope} {name : String}
    (h : sc.isFree name = false) : r.apply sc name = name := by
  simp [Renaming.apply, h]

theorem Expr.ident?_rename (r : Renaming) {sc : Scope} {x : Expr}
    (h : ∀ name ∈ x.ident?.toList, sc.isFree name = false) : (x.rename r sc).ident? = x.ident? := by
  cases x with
  | ident name => simp [Expr.rename, Expr.ident?, r.apply_of_bound (h name (by simp [Expr.ident?]))]
  | _ => simp [Expr.rename, Expr.ident?]

theorem Expr.targets_renameAll (r : Renaming) {sc : Scope} {xs : List Expr}
    (h : ∀ name ∈ Expr.targets xs, sc.isFree name = false) :
    Expr.targets (Expr.renameAll r sc xs) = Expr.targets xs := by
  induction xs with
  | nil => simp [Expr.renameAll]
  | cons x xs ih =>
    have hcons : Expr.targets (x :: xs) = x.ident?.toList ++ Expr.targets xs := by
      unfold Expr.targets
      cases hx : x.ident? <;> simp [hx]
    have hcons' : Expr.targets (Expr.renameAll r sc (x :: xs)) =
        (x.rename r sc).ident?.toList ++ Expr.targets (Expr.renameAll r sc xs) := by
      rw [Expr.renameAll]
      unfold Expr.targets
      cases hx : (x.rename r sc).ident? <;> simp [hx]
    rw [hcons] at h ⊢
    rw [hcons', Expr.ident?_rename r fun name hname => h name (List.mem_append_left _ hname),
      ih fun name hname => h name (List.mem_append_right _ hname)]

/-- The type parameters of a receiver stay if they are bound. -/
theorem Expr.receiverParams_rename (r : Renaming) {sc : Scope} {x : Expr}
    (h : ∀ name ∈ x.receiverParams, sc.isFree name = false) :
    (x.rename r sc).receiverParams = x.receiverParams := by
  cases x with
  | index y arg =>
    simp only [Expr.rename, Expr.receiverParams] at h ⊢
    rw [Expr.ident?_rename r h]
  | indexList y args =>
    simp only [Expr.rename, Expr.receiverParams] at h ⊢
    exact Expr.targets_renameAll r h
  | star y =>
    cases y with
    | index z arg =>
      simp only [Expr.rename, Expr.receiverParams] at h ⊢
      rw [Expr.ident?_rename r h]
    | indexList z args =>
      simp only [Expr.rename, Expr.receiverParams] at h ⊢
      exact Expr.targets_renameAll r h
    | _ => simp [Expr.rename, Expr.receiverParams]
  | _ => simp [Expr.rename, Expr.receiverParams]

namespace FuncDecl

/-- The names that a method binds in its signature: its type parameters and those that its receiver
introduces. -/
def signatureNames (f : FuncDecl) : List String :=
  (f.recv.getD []).flatMap (·.ty.receiverParams) ++ f.sig.typeParamNames

theorem signatureScope_root (f : FuncDecl) : f.signatureScope .root = ⟨true, f.signatureNames⟩ := by
  simp [signatureScope, paramScope, signatureNames, Scope.bind, Scope.enter, Scope.root]

theorem isFree_signatureScope (f : FuncDecl) (name : String) :
    (f.signatureScope .root).isFree name = !f.signatureNames.contains name := by
  rw [signatureScope_root, Scope.isFree]

theorem signatureNames_rename (r : Renaming) (f : FuncDecl) :
    (f.rename r .root).signatureNames = f.signatureNames := by
  have hbound : ∀ field ∈ f.recv.getD [], ∀ name ∈ field.ty.receiverParams,
      (f.signatureScope .root).isFree name = false := by
    intro field hfield name hname
    rw [isFree_signatureScope]
    simp only [signatureNames, List.contains_append, Bool.not_eq_false', Bool.or_eq_true,
      List.contains_iff_mem, List.mem_flatMap]
    exact .inl ⟨field, hfield, hname⟩
  have hfields : ∀ fields : List Field, (∀ field ∈ fields, ∀ name ∈ field.ty.receiverParams,
      (f.signatureScope .root).isFree name = false) →
      (Field.renameAll r (f.signatureScope .root) fields).flatMap (·.ty.receiverParams) =
        fields.flatMap (·.ty.receiverParams) := by
    intro fields h
    induction fields with
    | nil => simp [Field.renameAll]
    | cons field fields ih =>
      obtain ⟨hfield, hrest⟩ := List.forall_mem_cons.1 h
      cases field
      simp only [Field.renameAll, Field.rename, List.flatMap_cons]
      rw [Expr.receiverParams_rename r hfield, ih hrest]
  unfold signatureNames
  congr 1
  · cases hrecv : f.recv with
    | none => simp [FuncDecl.rename, hrecv, Field.renameOpt]
    | some fields =>
      rw [hrecv] at hbound
      simpa [FuncDecl.rename, hrecv, Field.renameOpt] using hfields fields hbound
  · simp [FuncDecl.rename, Signature.typeParamNames]

theorem paramScope_rename (r : Renaming) (f : FuncDecl) :
    (f.rename r .root).paramScope .root = f.paramScope .root := by
  simp [paramScope, FuncDecl.rename, Signature.typeParamNames]

theorem signatureScope_rename (r : Renaming) (f : FuncDecl) :
    (f.rename r .root).signatureScope .root = f.signatureScope .root := by
  rw [signatureScope_root, signatureScope_root, signatureNames_rename]

theorem bodyScope_rename (r : Renaming) (f : FuncDecl) :
    (f.rename r .root).bodyScope .root = f.bodyScope .root := by
  rw [bodyScope, signatureScope_rename, bodyScope]
  simp [FuncDecl.rename, Signature.bodyNames]

theorem free_eq (f : FuncDecl) (sc : Scope) :
    f.free sc = (if f.recv.isSome then [] else sc.reference f.name) ++
      Field.freeOpt (f.paramScope sc) f.sig.typeParams ++
      Field.freeOpt (f.signatureScope sc) f.recv ++
      Field.freeAll (f.signatureScope sc) f.sig.params ++
      Field.freeOpt (f.signatureScope sc) f.sig.results ++
      (f.body.map (Stmt.freeAll (f.bodyScope sc))).getD [] := by
  unfold FuncDecl.free
  cases f.body <;> rfl

theorem passes (r : Renaming) (f : FuncDecl) :
    r.Passes (f.free .root) ((f.rename r .root).free .root) := by
  have hname : r.Passes (if f.recv.isSome then [] else Scope.root.reference f.name)
      (if (f.rename r .root).recv.isSome then []
        else Scope.root.reference (f.rename r .root).name) := by
    cases hrecv : f.recv with
    | none => simpa [FuncDecl.rename, hrecv, Field.renameOpt] using .reference r .root f.name
    | some fields => simpa [FuncDecl.rename, hrecv, Field.renameOpt] using .nil r
  unfold FuncDecl.free
  rw [paramScope_rename, signatureScope_rename, bodyScope_rename]
  refine ((((hname.append (Field.passesOpt r _ f.sig.typeParams)).append
    (Field.passesOpt r _ f.recv)).append (Field.passesAll r _ f.sig.params)).append
    (Field.passesOpt r _ f.sig.results)).append ?_
  cases hbody : f.body with
  | none => simpa [FuncDecl.rename, hbody] using .nil r
  | some body => simpa [FuncDecl.rename, hbody] using Stmt.passesAll r (f.bodyScope .root) body

end FuncDecl

theorem Renaming.Passes.flatMap {α : Type} {r : Renaming} {f g : α → List String} {xs : List α}
    (h : ∀ x ∈ xs, r.Passes (f x) (g x)) : r.Passes (xs.flatMap f) (xs.flatMap g) := by
  induction xs with
  | nil => exact .nil r
  | cons x xs ih =>
    rw [List.flatMap_cons, List.flatMap_cons]
    exact (h x List.mem_cons_self).append (ih fun y hy => h y (List.mem_cons_of_mem x hy))

theorem ValueSpec.passes (r : Renaming) (spec : ValueSpec) :
    r.Passes (spec.free .root) ((spec.rename r .root).free .root) := by
  unfold ValueSpec.free ValueSpec.rename
  rw [List.flatMap_map]
  exact ((Renaming.Passes.flatMap fun name _ => .reference r .root name).append
    (Expr.passesOpt r .root spec.ty)).append (Expr.passesAll r .root spec.values)

theorem TypeSpec.passes (r : Renaming) (spec : TypeSpec) :
    r.Passes (spec.free .root) ((spec.rename r .root).free .root) := by
  simp only [TypeSpec.free, TypeSpec.rename, Field.declared_renameOpt]
  exact ((Renaming.Passes.reference r .root spec.name).append
    (Field.passesOpt r _ spec.typeParams)).append (Expr.passes r _ spec.ty)

theorem Spec.passes (r : Renaming) (spec : Spec) :
    r.Passes (spec.free .root) ((spec.rename r .root).free .root) := by
  cases spec with
  | imported spec => exact .nil r
  | value spec => exact spec.passes r
  | type spec => exact spec.passes r

namespace Decl

theorem passes (r : Renaming) (d : Decl) : r.Passes d.free (d.rename r).free := by
  cases d with
  | bad node => exact .nil r
  | func f => exact f.passes r
  | group g =>
    simp only [Decl.free, Decl.rename, DeclGroup.free, DeclGroup.rename, List.flatMap_map]
    exact .flatMap fun spec _ => spec.passes r

theorem passesAll (r : Renaming) (decls : List Decl) :
    r.Passes (freeAll decls) (freeAll (renameAll r decls)) := by
  rw [freeAll, freeAll, renameAll, List.flatMap_map]
  exact .flatMap fun d _ => d.passes r

theorem old_not_mem_freeAll {r : Renaming} (hne : r.old ≠ r.new) (decls : List Decl) :
    r.old ∉ freeAll (renameAll r decls) := by
  intro hold
  rcases passesAll r decls r.old hold with ⟨-, h⟩ | ⟨h, -⟩
  · exact h rfl
  · exact hne h

theorem not_mem_freeAll_renameAll {r : Renaming} {name : String} {decls : List Decl}
    (hname : name ∉ freeAll decls) (hnew : name ≠ r.new) : name ∉ freeAll (renameAll r decls) := by
  intro hmem
  rcases passesAll r decls name hmem with ⟨h, -⟩ | ⟨h, -⟩
  · exact hname h
  · exact hnew h

end Decl

/-! ## Receivers -/

theorem Expr.baseName?_rename (r : Renaming) (sc : Scope) (x : Expr) :
    (x.rename r sc).baseName? = x.baseName?.map (r.apply sc) := by
  fun_induction Expr.baseName? x with
  | case1 name => simp [Expr.rename, Expr.baseName?]
  | case2 x ih => simpa [Expr.rename, Expr.baseName?] using ih
  | case3 x ih => simpa [Expr.rename, Expr.baseName?] using ih
  | case4 x arg ih => simpa [Expr.rename, Expr.baseName?] using ih
  | case5 x args ih => simpa [Expr.rename, Expr.baseName?] using ih
  | case6 x h1 h2 h3 h4 h5 => cases x <;> simp_all [Expr.rename, Expr.baseName?]

@[simp] theorem Field.ty_rename (r : Renaming) (sc : Scope) (f : Field) :
    (f.rename r sc).ty = f.ty.rename r sc := by
  cases f
  simp [Field.rename]

theorem FuncDecl.receiverName?_rename (r : Renaming) (sc : Scope) (f : FuncDecl) :
    (f.rename r sc).receiverName? = f.receiverName?.map (r.apply (f.signatureScope sc)) := by
  unfold receiverName? FuncDecl.rename
  cases hrecv : f.recv with
  | none => simp [Field.renameOpt]
  | some fields =>
    cases fields with
    | nil => simp [Field.renameOpt, Field.renameAll]
    | cons field fields =>
      simp [Field.renameOpt, Field.renameAll, Expr.baseName?_rename]

/-- The name at the root of a type is a reference of the type, unless it is bound. -/
theorem Expr.mem_free_of_baseName? {sc : Scope} {x : Expr} {name : String}
    (hbase : x.baseName? = some name) (hfree : sc.isFree name = true) : name ∈ x.free sc := by
  fun_induction Expr.baseName? x with
  | case1 n =>
    cases hbase
    simp [Expr.free, Scope.reference, hfree]
  | case2 x ih => simpa [Expr.free] using ih hbase
  | case3 x ih => simpa [Expr.free] using ih hbase
  | case4 x arg ih => simp [Expr.free, ih hbase]
  | case5 x args ih => simp [Expr.free, ih hbase]
  | case6 x => simp at hbase

/-- A method on a name that it does not refer to binds that name in its signature. -/
theorem FuncDecl.mem_signatureNames {f : FuncDecl} {name : String}
    (hrecv : f.receiverName? = some name) (hfree : name ∉ f.free .root) :
    name ∈ f.signatureNames := by
  by_contra hbound
  refine hfree ?_
  have hisFree : (f.signatureScope .root).isFree name = true := by
    simpa [isFree_signatureScope] using hbound
  unfold FuncDecl.receiverName? at hrecv
  split at hrecv
  · next field fields hfield =>
    have hmem := Expr.mem_free_of_baseName? hrecv hisFree
    cases field with
    | mk names ty tag =>
      simp [FuncDecl.free, hfield, Field.freeOpt, Field.freeAll, Field.free, hmem]
  · simp at hrecv

end GoWeave
