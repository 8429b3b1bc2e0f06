import GoWeave.Proofs.Equivalence.Fields
import GoWeave.Proofs.Scope.Declarations

/-!
# References of equal trees

A tree that compares equal to another binds the same names at the same places, so what it refers to
is referred to by the other as well. Names that could be taken for the position of a member are left
out.
-/
namespace GoWeave

open Comparison

/-! ## Bindings -/

theorem Expr.ident?_eq_of_compare {x y : Expr} (h : x.compare y = none) : x.ident? = y.ident? := by
  cases x with
  | ident a =>
    cases y with
    | ident b =>
      rw [names_eq_none.1 h]
    | _ => exact absurd h (Option.some_ne_none _)
  | _ =>
    cases y with
    | ident b => exact absurd h (Option.some_ne_none _)
    | _ => rfl

theorem Expr.targets_eq_of_compare {what : String} {i : Nat} {xs ys : List Expr}
    (hlength : xs.length = ys.length) (h : Expr.compareFrom what i xs ys = none) :
    Expr.targets xs = Expr.targets ys := by
  induction xs generalizing i ys with
  | nil => rw [List.length_eq_zero_iff.1 hlength.symm]
  | cons x xs ih =>
    cases ys with
    | nil => simp at hlength
    | cons y ys =>
      simp only [Expr.compareFrom, orElse_eq_none, within_eq_none] at h
      have hrest := ih (by simpa using hlength) h.2
      rw [Expr.targets] at hrest
      simp only [Expr.targets, List.filterMap_cons, Expr.ident?_eq_of_compare h.1, hrest]

theorem Expr.hasValueKeys_eq_of_compare {x y : Option Expr} (h : Expr.compareOpt x y = none) :
    Expr.hasValueKeys x = Expr.hasValueKeys y := by
  cases x with
  | none =>
    cases y with
    | none => rfl
    | some y => simp [Expr.compareOpt] at h
  | some x =>
    cases y with
    | none => simp [Expr.compareOpt] at h
    | some y =>
      rw [Expr.compareOpt] at h
      cases x with
      | mapType key value =>
        cases y with
        | mapType key' value' => rfl
        | _ => exact absurd h (Option.some_ne_none _)
      | arrayType len elt =>
        cases y with
        | arrayType len' elt' => rfl
        | _ => exact absurd h (Option.some_ne_none _)
      | _ =>
        cases y with
        | mapType key' value' => exact absurd h (Option.some_ne_none _)
        | arrayType len' elt' => exact absurd h (Option.some_ne_none _)
        | _ => rfl

theorem Spec.declared_eq_of_compare {s t : Spec} (h : s.compare t = none) :
    s.declared = t.declared := by
  cases s with
  | imported spec =>
    cases t with
    | imported spec' => rfl
    | _ => exact absurd h (Option.some_ne_none _)
  | value v =>
    cases t with
    | value v' =>
      cases v
      cases v'
      obtain ⟨-, hnames⟩ := orElse_eq_none.1 h
      obtain ⟨hlength, hnames⟩ := lists_eq_none.1 (orElse_eq_none.1 hnames).1
      exact nameLists_eq_none hlength hnames
    | _ => exact absurd h (Option.some_ne_none _)
  | type v =>
    cases t with
    | type v' =>
      cases v
      cases v'
      obtain ⟨hname, -⟩ := orElse_eq_none.1 (within_eq_none.1 h)
      exact congrArg (fun name => [name]) (names_eq_none.1 hname)
    | _ => exact absurd h (Option.some_ne_none _)

theorem Spec.flatMap_declared_eq_of_compare {what : String} {i : Nat} {ss ts : List Spec}
    (hlength : ss.length = ts.length) (h : Spec.compareFrom what i ss ts = none) :
    ss.flatMap Spec.declared = ts.flatMap Spec.declared := by
  induction ss generalizing i ts with
  | nil => rw [List.length_eq_zero_iff.1 hlength.symm]
  | cons s ss ih =>
    cases ts with
    | nil => simp at hlength
    | cons t ts =>
      simp only [Spec.compareFrom, orElse_eq_none, within_eq_none] at h
      rw [List.flatMap_cons, List.flatMap_cons, Spec.declared_eq_of_compare h.1,
        ih (by simpa using hlength) h.2]

theorem Stmt.binds_eq_of_compare {s t : Stmt} (h : s.compare t = none) : s.binds = t.binds := by
  fun_induction Stmt.binds s generalizing t with
  | case1 g =>
    cases t with
    | decl g' =>
      cases g
      cases g'
      obtain ⟨hlength, hspecs⟩ := lists_eq_none.1 (orElse_eq_none.1 h).2
      exact Spec.flatMap_declared_eq_of_compare hlength hspecs
    | _ => exact absurd h (Option.some_ne_none _)
  | case2 label s ih =>
    cases t with
    | labeled label' t =>
      exact ih (t := t) (orElse_eq_none.1 h).2
    | _ => exact absurd h (Option.some_ne_none _)
  | case3 lhs rhs =>
    cases t with
    | assign lhs' tok' rhs' =>
      obtain ⟨htok, hlists⟩ := orElse_eq_none.1 h
      obtain ⟨hlength, hlhs⟩ := lists_eq_none.1 (orElse_eq_none.1 hlists).1
      rw [← tokens_eq_none.1 htok]
      simpa [Stmt.binds] using Expr.targets_eq_of_compare hlength hlhs
    | _ => exact absurd h (Option.some_ne_none _)
  | case4 lhs tok rhs htok =>
    cases t with
    | assign lhs' tok' rhs' =>
      rw [← tokens_eq_none.1 (orElse_eq_none.1 h).1]
      simp [Stmt.binds, htok]
    | _ => exact absurd h (Option.some_ne_none _)
  | case5 s hdecl hlabeled hassign =>
    cases s with
    | bad node => exact absurd h (Option.some_ne_none _)
    | decl g => exact absurd rfl (hdecl g)
    | labeled label s => exact absurd rfl (hlabeled label s)
    | assign lhs tok rhs => exact absurd rfl (hassign lhs tok rhs)
    | _ =>
      cases t with
      | decl g' => exact absurd h (Option.some_ne_none _)
      | labeled label' t => exact absurd h (Option.some_ne_none _)
      | assign lhs' tok' rhs' => exact absurd h (Option.some_ne_none _)
      | _ => rfl

theorem Stmt.bindsOpt_eq_of_compare {s t : Option Stmt} (h : Stmt.compareOpt s t = none) :
    Stmt.bindsOpt s = Stmt.bindsOpt t := by
  cases s with
  | none =>
    cases t with
    | none => rfl
    | some t => exact absurd h (Option.some_ne_none _)
  | some s =>
    cases t with
    | none => exact absurd h (Option.some_ne_none _)
    | some t =>
      rw [Stmt.compareOpt] at h
      exact Stmt.binds_eq_of_compare h

theorem Stmt.guard_eq_of_compare {s t : Stmt} (h : s.compare t = none) :
    s.guardBinds = t.guardBinds ∧ s.guardName = t.guardName := by
  have hbinds := Stmt.binds_eq_of_compare h
  cases s with
  | assign lhs tok rhs =>
    cases t with
    | assign lhs' tok' rhs' =>
      refine ⟨rfl, ?_⟩
      obtain ⟨hlength, hlhs⟩ := lists_eq_none.1 (orElse_eq_none.1 (orElse_eq_none.1 h).2).1
      cases lhs with
      | nil =>
        rw [List.length_eq_zero_iff.1 hlength.symm]
        rfl
      | cons x xs =>
        cases lhs' with
        | nil => simp at hlength
        | cons y ys =>
          simp only [Expr.compareFrom, orElse_eq_none, within_eq_none] at hlhs
          have hguard : ∀ (z : Expr) (zs : List Expr) (tok : Token) (rhs : List Expr),
              (Stmt.assign (z :: zs) tok rhs).guardName = z.ident?.toList := by
            intro z zs tok rhs
            cases z <;> rfl
          rw [hguard, hguard, Expr.ident?_eq_of_compare hlhs.1]
    | _ => exact absurd h (Option.some_ne_none _)
  | _ =>
    cases t with
    | assign lhs' tok' rhs' => exact absurd h (Option.some_ne_none _)
    | _ => exact ⟨hbinds, rfl⟩

theorem Expr.rangeBinds_eq_of_compare (tok : Option Token) {x y : Option Expr}
    (h : Expr.compareOpt x y = none) : Expr.rangeBinds tok x = Expr.rangeBinds tok y := by
  have hbinds : ∀ z : Expr,
      Expr.rangeBinds tok (some z) = if tok = some .define then z.ident?.toList else [] := by
    intro z
    cases z <;> simp [Expr.rangeBinds, Expr.ident?]
  cases x with
  | none =>
    cases y with
    | none => rfl
    | some y => exact absurd h (Option.some_ne_none _)
  | some x =>
    cases y with
    | none => exact absurd h (Option.some_ne_none _)
    | some y =>
      rw [Expr.compareOpt] at h
      rw [hbinds, hbinds, Expr.ident?_eq_of_compare h]

/-! ## Scopes -/

/-- Scopes in which one name is free or bound alike. -/
structure Scope.Agree (name : String) (sc sc' : Scope) : Prop where
  nested : sc.nested = sc'.nested
  isFree : sc.isFree name = sc'.isFree name

namespace Scope.Agree

variable {name : String} {sc sc' : Scope}

theorem refl (name : String) (sc : Scope) : Agree name sc sc :=
  ⟨rfl, rfl⟩

theorem symm (h : Agree name sc sc') : Agree name sc' sc :=
  ⟨h.nested.symm, h.isFree.symm⟩

theorem enter (h : Agree name sc sc') : Agree name sc.enter sc'.enter :=
  ⟨rfl, h.isFree⟩

theorem bind (h : Agree name sc sc') {names names' : List String}
    (hnames : name ∈ names ↔ name ∈ names') : Agree name (sc.bind names) (sc'.bind names') := by
  unfold Scope.bind
  rw [h.nested]
  split
  · refine ⟨rfl, ?_⟩
    have hfree := h.isFree
    rw [Bool.eq_iff_iff] at hfree ⊢
    simp only [Scope.isFree, Bool.not_eq_true', List.contains_eq_mem, decide_eq_false_iff_not,
      List.mem_append, not_or] at hfree ⊢
    exact and_congr (not_congr hnames) hfree
  · exact h

theorem bind_eq (h : Agree name sc sc') {names names' : List String} (hnames : names = names') :
    Agree name (sc.bind names) (sc'.bind names') :=
  h.bind (by rw [hnames])

theorem mem_reference (h : Agree name sc sc') {n n' : String} (hn : n = n')
    (hmem : name ∈ sc.reference n) : name ∈ sc'.reference n' := by
  subst hn
  unfold Scope.reference at *
  split at hmem
  · next hfree =>
    have hname : name = n := by simpa using hmem
    subst hname
    rw [← h.isFree, if_pos hfree]
    exact hmem
  · simp at hmem

end Scope.Agree

/-! ## References -/

/-- One element of a composite literal. -/
def Expr.freeElement (sc : Scope) (valueKeys : Bool) : Expr → List String
  | .keyValue (.ident key) value => (if valueKeys then sc.reference key else []) ++ value.free sc
  | x => x.free sc

theorem Expr.freeElements_cons (sc : Scope) (valueKeys : Bool) (x : Expr) (xs : List Expr) :
    Expr.freeElements sc valueKeys (x :: xs) =
      x.freeElement sc valueKeys ++ Expr.freeElements sc valueKeys xs := by
  cases x with
  | keyValue key value => cases key <;> simp [Expr.freeElements, Expr.freeElement]
  | _ => simp [Expr.freeElements, Expr.freeElement]

theorem Field.mem_freeAll {name : String} {sc : Scope} {fields : List Field} :
    name ∈ Field.freeAll sc fields ↔ ∃ f ∈ fields, name ∈ f.ty.free sc := by
  induction fields with
  | nil => simp [Field.freeAll]
  | cons f fs ih =>
    cases f
    simp [Field.freeAll, Field.free, ih]

theorem Field.freeOpt_eq (sc : Scope) (fields : Option (List Field)) :
    Field.freeOpt sc fields = Field.freeAll sc (fields.getD []) := by
  cases fields <;> simp [Field.freeOpt, Field.freeAll]

/-- Field lists without a difference: it is enough to find a reference among the entries of the
other side. -/
theorem Comparison.mem_freeAll_of_fieldSets {role : FieldRole} {a b : List Field}
    {shared : FieldSet → Comparison} (h : fieldSets role a b shared = none) {name : String}
    {sc : Scope}
    (hentry : ∀ other, shared other = none →
      (∀ e ∈ Field.entriesFrom role 0 a, e.key ∈ other.keys) →
        ∃ e ∈ other.entries, name ∈ e.ty.free sc) : name ∈ Field.freeAll sc b := by
  obtain ⟨left, right, hagree⟩ := exists_fieldsAgree h
  obtain ⟨e, he, hmem⟩ := hentry right hagree.shared_eq fun e he => by
    rw [← hagree.keys_iff, FieldSet.keys, FieldSet.entries_of_ofFields hagree.left_eq]
    exact List.mem_map_of_mem he
  rw [FieldSet.entries_of_ofFields hagree.right_eq] at he
  obtain ⟨f, hf, hty⟩ := Field.exists_field_of_mem_entriesFrom he
  exact Field.mem_freeAll.2 ⟨f, hf, hty ▸ hmem⟩

/-- What equals something other than a plain key with its value is read as a whole as well. -/
theorem Expr.freeElement_eq_of_compare {x y : Expr} (h : x.compare y = none)
    (hx : ∀ key value, x ≠ .keyValue (.ident key) value) (sc : Scope) (valueKeys : Bool) :
    y.freeElement sc valueKeys = y.free sc := by
  cases y with
  | keyValue key value =>
    cases key with
    | ident name =>
      cases x with
      | keyValue key' value' =>
        have hident := Expr.ident?_eq_of_compare (within_eq_none.1 (orElse_eq_none.1 h).1)
        cases key' with
        | ident name' => exact absurd rfl (hx name' value')
        | _ => simp [Expr.ident?] at hident
      | _ => exact absurd h (Option.some_ne_none _)
    | _ => rfl
  | _ => rfl

theorem Signature.fieldSets_of_compare {a b : Signature} (h : a.compare b = none) :
    fieldSets .param (a.typeParams.getD []) (b.typeParams.getD [])
        (fun other => Field.compareAllOpt .param other a.typeParams) = none ∧
      fieldSets .param a.params b.params
        (fun other => Field.compareAll .param 0 other a.params) = none ∧
      fieldSets .param (a.results.getD []) (b.results.getD [])
        (fun other => Field.compareAllOpt .param other a.results) = none := by
  cases a
  cases b
  obtain ⟨htype, h⟩ := orElse_eq_none.1 h
  obtain ⟨hparams, hresults⟩ := orElse_eq_none.1 h
  exact ⟨within_eq_none.1 htype, within_eq_none.1 hparams, within_eq_none.1 hresults⟩

/-- Signatures without a difference bind the same names. -/
theorem Signature.names_iff_of_compare {name : String} (hname : Ordinary name) {a b : Signature}
    (h : a.compare b = none) :
    (name ∈ a.typeParamNames ↔ name ∈ b.typeParamNames) ∧
      (name ∈ a.bodyNames ↔ name ∈ b.bodyNames) := by
  obtain ⟨htype, hparams, hresults⟩ := Signature.fieldSets_of_compare h
  refine ⟨mem_declared_iff hname htype, ?_⟩
  simp only [Signature.bodyNames, List.mem_append]
  exact or_congr (mem_declared_iff hname hparams) (mem_declared_iff hname hresults)

mutual

theorem Expr.mem_free_of_compare {name : String} (hname : Ordinary name) {sc sc' : Scope}
    (hsc : sc.Agree name sc') (x y : Expr) (h : x.compare y = none) (hmem : name ∈ x.free sc) :
    name ∈ y.free sc' := by
  match x with
  | .bad node => exact absurd h (Option.some_ne_none _)
  | .ident a =>
    cases y with
    | ident b =>
      rw [Expr.free] at hmem ⊢
      exact hsc.mem_reference (names_eq_none.1 h) hmem
    | _ => exact absurd h (Option.some_ne_none _)
  | .ellipsis elt =>
    cases y with
    | ellipsis elt' =>
      rw [Expr.free] at hmem ⊢
      exact Expr.mem_freeOpt_of_compare hname hsc elt elt' (within_eq_none.1 h) hmem
    | _ => exact absurd h (Option.some_ne_none _)
  | .literal value => simp [Expr.free] at hmem
  | .funcLit sig body =>
    cases y with
    | funcLit sig' body' =>
      obtain ⟨hsig, hbody⟩ := orElse_eq_none.1 h
      obtain ⟨hlength, hbody⟩ := lists_eq_none.1 (within_eq_none.1 hbody)
      obtain ⟨hparams, hnames⟩ := Signature.names_iff_of_compare hname (within_eq_none.1 hsig)
      simp only [Expr.free, List.mem_append] at hmem ⊢
      exact hmem.imp
        (Signature.mem_free_of_compare hname (hsc.enter.bind hparams) sig sig'
          (within_eq_none.1 hsig))
        (Stmt.mem_freeAll_of_compare hname ((hsc.enter.bind hparams).bind hnames) body body'
          hlength hbody)
    | _ => exact absurd h (Option.some_ne_none _)
  | .composite ty elts incomplete =>
    cases y with
    | composite ty' elts' incomplete' =>
      obtain ⟨-, h⟩ := orElse_eq_none.1 h
      obtain ⟨hty, helts⟩ := orElse_eq_none.1 h
      obtain ⟨hlength, helts⟩ := lists_eq_none.1 helts
      simp only [Expr.free, List.mem_append] at hmem ⊢
      rw [← Expr.hasValueKeys_eq_of_compare (within_eq_none.1 hty)]
      exact hmem.imp (Expr.mem_freeOpt_of_compare hname hsc ty ty' (within_eq_none.1 hty))
        (Expr.mem_freeElements_of_compare hname hsc _ elts elts' hlength helts)
    | _ => exact absurd h (Option.some_ne_none _)
  | .paren x =>
    cases y with
    | paren y =>
      rw [Expr.free] at hmem ⊢
      exact Expr.mem_free_of_compare hname hsc x y (within_eq_none.1 h) hmem
    | _ => exact absurd h (Option.some_ne_none _)
  | .selector x sel =>
    cases y with
    | selector y sel' =>
      rw [Expr.free] at hmem ⊢
      exact Expr.mem_free_of_compare hname hsc x y (within_eq_none.1 (orElse_eq_none.1 h).2) hmem
    | _ => exact absurd h (Option.some_ne_none _)
  | .index x arg =>
    cases y with
    | index y arg' =>
      obtain ⟨harg, hx⟩ := orElse_eq_none.1 h
      simp only [Expr.free, List.mem_append] at hmem ⊢
      exact hmem.imp (Expr.mem_free_of_compare hname hsc x y (within_eq_none.1 hx))
        (Expr.mem_free_of_compare hname hsc arg arg' (within_eq_none.1 harg))
    | _ => exact absurd h (Option.some_ne_none _)
  | .indexList x args =>
    cases y with
    | indexList y args' =>
      obtain ⟨hargs, hx⟩ := orElse_eq_none.1 h
      obtain ⟨hlength, hargs⟩ := lists_eq_none.1 hargs
      simp only [Expr.free, List.mem_append] at hmem ⊢
      exact hmem.imp (Expr.mem_free_of_compare hname hsc x y (within_eq_none.1 hx))
        (Expr.mem_freeAll_of_compare hname hsc args args' hlength hargs)
    | _ => exact absurd h (Option.some_ne_none _)
  | .slice x low high max three =>
    cases y with
    | slice y low' high' max' three' =>
      obtain ⟨-, h⟩ := orElse_eq_none.1 h
      obtain ⟨hx, h⟩ := orElse_eq_none.1 h
      obtain ⟨hlow, h⟩ := orElse_eq_none.1 h
      obtain ⟨hhigh, hmax⟩ := orElse_eq_none.1 h
      simp only [Expr.free, List.mem_append] at hmem ⊢
      exact hmem.imp (Or.imp (Or.imp
        (Expr.mem_free_of_compare hname hsc x y (within_eq_none.1 hx))
        (Expr.mem_freeOpt_of_compare hname hsc low low' (within_eq_none.1 hlow)))
        (Expr.mem_freeOpt_of_compare hname hsc high high' (within_eq_none.1 hhigh)))
        (Expr.mem_freeOpt_of_compare hname hsc max max' (within_eq_none.1 hmax))
    | _ => exact absurd h (Option.some_ne_none _)
  | .typeAssert x ty =>
    cases y with
    | typeAssert y ty' =>
      obtain ⟨hx, hty⟩ := orElse_eq_none.1 h
      simp only [Expr.free, List.mem_append] at hmem ⊢
      exact hmem.imp (Expr.mem_free_of_compare hname hsc x y (within_eq_none.1 hx))
        (Expr.mem_freeOpt_of_compare hname hsc ty ty' (within_eq_none.1 hty))
    | _ => exact absurd h (Option.some_ne_none _)
  | .call fn args spread =>
    cases y with
    | call fn' args' spread' =>
      obtain ⟨-, h⟩ := orElse_eq_none.1 h
      obtain ⟨hfn, hargs⟩ := orElse_eq_none.1 h
      obtain ⟨hlength, hargs⟩ := lists_eq_none.1 hargs
      simp only [Expr.free, List.mem_append] at hmem ⊢
      exact hmem.imp (Expr.mem_free_of_compare hname hsc fn fn' (within_eq_none.1 hfn))
        (Expr.mem_freeAll_of_compare hname hsc args args' hlength hargs)
    | _ => exact absurd h (Option.some_ne_none _)
  | .star x =>
    cases y with
    | star y =>
      rw [Expr.free] at hmem ⊢
      exact Expr.mem_free_of_compare hname hsc x y (within_eq_none.1 h) hmem
    | _ => exact absurd h (Option.some_ne_none _)
  | .unary op x =>
    cases y with
    | unary op' y =>
      rw [Expr.free] at hmem ⊢
      exact Expr.mem_free_of_compare hname hsc x y (within_eq_none.1 (orElse_eq_none.1 h).2) hmem
    | _ => exact absurd h (Option.some_ne_none _)
  | .binary op x₁ x₂ =>
    cases y with
    | binary op' y₁ y₂ =>
      obtain ⟨h₁, h₂⟩ := orElse_eq_none.1 (orElse_eq_none.1 h).2
      simp only [Expr.free, List.mem_append] at hmem ⊢
      exact hmem.imp (Expr.mem_free_of_compare hname hsc x₁ y₁ (within_eq_none.1 h₁))
        (Expr.mem_free_of_compare hname hsc x₂ y₂ (within_eq_none.1 h₂))
    | _ => exact absurd h (Option.some_ne_none _)
  | .keyValue key value =>
    cases y with
    | keyValue key' value' =>
      obtain ⟨hkey, hvalue⟩ := orElse_eq_none.1 h
      simp only [Expr.free, List.mem_append] at hmem ⊢
      exact hmem.imp (Expr.mem_free_of_compare hname hsc key key' (within_eq_none.1 hkey))
        (Expr.mem_free_of_compare hname hsc value value' (within_eq_none.1 hvalue))
    | _ => exact absurd h (Option.some_ne_none _)
  | .arrayType len elt =>
    cases y with
    | arrayType len' elt' =>
      obtain ⟨hlen, helt⟩ := orElse_eq_none.1 h
      simp only [Expr.free, List.mem_append] at hmem ⊢
      exact hmem.imp (Expr.mem_freeOpt_of_compare hname hsc len len' (within_eq_none.1 hlen))
        (Expr.mem_free_of_compare hname hsc elt elt' (within_eq_none.1 helt))
    | _ => exact absurd h (Option.some_ne_none _)
  | .structType fields incomplete =>
    cases y with
    | structType fields' incomplete' =>
      rw [Expr.free] at hmem ⊢
      exact mem_freeAll_of_fieldSets (orElse_eq_none.1 h).2 fun other hshared hkeys =>
        Field.exists_entry_of_compareAll hname hsc .member 0 other fields hshared hkeys hmem
    | _ => exact absurd h (Option.some_ne_none _)
  | .funcType sig =>
    cases y with
    | funcType sig' =>
      rw [Expr.free] at hmem ⊢
      exact Signature.mem_free_of_compare hname hsc sig sig' h hmem
    | _ => exact absurd h (Option.some_ne_none _)
  | .interfaceType methods incomplete =>
    cases y with
    | interfaceType methods' incomplete' =>
      rw [Expr.free] at hmem ⊢
      exact mem_freeAll_of_fieldSets (orElse_eq_none.1 h).2 fun other hshared hkeys =>
        Field.exists_entry_of_compareAll hname hsc .member 0 other methods hshared hkeys hmem
    | _ => exact absurd h (Option.some_ne_none _)
  | .mapType key value =>
    cases y with
    | mapType key' value' =>
      obtain ⟨hkey, hvalue⟩ := orElse_eq_none.1 h
      simp only [Expr.free, List.mem_append] at hmem ⊢
      exact hmem.imp (Expr.mem_free_of_compare hname hsc key key' (within_eq_none.1 hkey))
        (Expr.mem_free_of_compare hname hsc value value' (within_eq_none.1 hvalue))
    | _ => exact absurd h (Option.some_ne_none _)
  | .chanType dir value =>
    cases y with
    | chanType dir' value' =>
      rw [Expr.free] at hmem ⊢
      exact Expr.mem_free_of_compare hname hsc value value'
        (within_eq_none.1 (orElse_eq_none.1 h).2) hmem
    | _ => exact absurd h (Option.some_ne_none _)
termination_by structural x

theorem Expr.mem_freeOpt_of_compare {name : String} (hname : Ordinary name) {sc sc' : Scope}
    (hsc : sc.Agree name sc') (x y : Option Expr) (h : Expr.compareOpt x y = none)
    (hmem : name ∈ Expr.freeOpt sc x) : name ∈ Expr.freeOpt sc' y := by
  match x with
  | none => simp [Expr.freeOpt] at hmem
  | some x =>
    cases y with
    | none => exact absurd h (Option.some_ne_none _)
    | some y =>
      rw [Expr.freeOpt] at hmem ⊢
      exact Expr.mem_free_of_compare hname hsc x y h hmem
termination_by structural x

theorem Expr.mem_freeAll_of_compare {name : String} (hname : Ordinary name) {sc sc' : Scope}
    (hsc : sc.Agree name sc') {what : String} {i : Nat} (xs ys : List Expr)
    (hlength : xs.length = ys.length) (h : Expr.compareFrom what i xs ys = none)
    (hmem : name ∈ Expr.freeAll sc xs) : name ∈ Expr.freeAll sc' ys := by
  match xs with
  | [] => simp [Expr.freeAll] at hmem
  | x :: xs =>
    cases ys with
    | nil => simp at hlength
    | cons y ys =>
      obtain ⟨hx, hxs⟩ := orElse_eq_none.1 h
      simp only [Expr.freeAll, List.mem_append] at hmem ⊢
      exact hmem.imp (Expr.mem_free_of_compare hname hsc x y (within_eq_none.1 hx))
        (Expr.mem_freeAll_of_compare hname hsc xs ys (by simpa using hlength) hxs)
termination_by structural xs

theorem Expr.mem_freeElements_of_compare {name : String} (hname : Ordinary name) {sc sc' : Scope}
    (hsc : sc.Agree name sc') (valueKeys : Bool) {what : String} {i : Nat} (xs ys : List Expr)
    (hlength : xs.length = ys.length) (h : Expr.compareFrom what i xs ys = none)
    (hmem : name ∈ Expr.freeElements sc valueKeys xs) :
    name ∈ Expr.freeElements sc' valueKeys ys := by
  match xs with
  | [] => simp [Expr.freeElements] at hmem
  | x :: xs =>
    cases ys with
    | nil => simp at hlength
    | cons y ys =>
      obtain ⟨hx, hxs⟩ := orElse_eq_none.1 h
      have hx := within_eq_none.1 hx
      have hfree := Expr.mem_free_of_compare hname hsc x y hx
      have hrest := Expr.mem_freeElements_of_compare hname hsc valueKeys xs ys
        (by simpa using hlength) hxs
      rw [Expr.freeElements_cons, List.mem_append] at hmem ⊢
      refine hmem.imp (fun hmem => ?_) hrest
      cases x with
      | keyValue key value =>
        have hvalue := Expr.mem_free_of_compare hname hsc value
        cases key with
        | ident k =>
          cases y with
          | keyValue key' value' =>
            obtain ⟨hkey', hvalue'⟩ := orElse_eq_none.1 hx
            cases key' with
            | ident k' =>
              simp only [Expr.freeElement, List.mem_append] at hmem ⊢
              refine hmem.imp (fun hmem => ?_) (hvalue value' (within_eq_none.1 hvalue'))
              cases valueKeys with
              | true => exact hsc.mem_reference (names_eq_none.1 (within_eq_none.1 hkey')) hmem
              | false => simp at hmem
            | _ => exact absurd (within_eq_none.1 hkey') (Option.some_ne_none _)
          | _ => exact absurd hx (Option.some_ne_none _)
        | _ =>
          rw [Expr.freeElement_eq_of_compare hx (by simp)]
          exact hfree hmem
      | _ =>
        rw [Expr.freeElement_eq_of_compare hx (by simp)]
        exact hfree hmem
termination_by structural xs

theorem Expr.mem_freeRangeVar_of_compare {name : String} (hname : Ordinary name) {sc sc' : Scope}
    (hsc : sc.Agree name sc') (tok : Option Token) (x y : Option Expr)
    (h : Expr.compareOpt x y = none) (hmem : name ∈ Expr.freeRangeVar sc tok x) :
    name ∈ Expr.freeRangeVar sc' tok y := by
  match x with
  | none => simp [Expr.freeRangeVar] at hmem
  | some x =>
    cases y with
    | none => exact absurd h (Option.some_ne_none _)
    | some y =>
      rw [Expr.compareOpt] at h
      have hfree := Expr.mem_free_of_compare hname hsc x y h
      have hident := Expr.ident?_eq_of_compare h
      cases x with
      | ident a =>
        cases y with
        | ident b =>
          simp only [Expr.freeRangeVar] at hmem ⊢
          split
          · next htok => simp [htok] at hmem
          · next htok =>
            rw [if_neg htok] at hmem
            exact hsc.mem_reference (names_eq_none.1 h) hmem
        | _ => exact absurd h (Option.some_ne_none _)
      | _ =>
        cases y with
        | ident b => simp [Expr.ident?] at hident
        | _ =>
          simp only [Expr.freeRangeVar] at hmem ⊢
          exact hfree hmem
termination_by structural x

theorem Field.exists_entry_of_compareMembers {name : String} (hname : Ordinary name)
    {sc sc' : Scope} (hsc : sc.Agree name sc') (role : FieldRole) (position : Nat)
    (other : FieldSet) (f : Field) (h : f.compareMembers role position other = none)
    (hkeys : ∀ e ∈ f.entries role position, e.key ∈ other.keys) (hmem : name ∈ f.free sc) :
    ∃ e ∈ other.entries, name ∈ e.ty.free sc' := by
  match f with
  | ⟨names, ty, tag⟩ =>
    obtain ⟨e, he, hty⟩ := Field.exists_mem_entries role position ⟨names, ty, tag⟩
    obtain ⟨e', he', hget, -⟩ := FieldSet.exists_get? (hkeys e he)
    obtain ⟨-, -, hcompare⟩ := Field.compareMembers_eq_none_iff.1 h e he e' hget
    rw [hty] at hcompare
    rw [Field.free] at hmem
    exact ⟨e', he', Expr.mem_free_of_compare hname hsc ty e'.ty hcompare hmem⟩
termination_by structural f

theorem Field.exists_entry_of_compareAll {name : String} (hname : Ordinary name)
    {sc sc' : Scope} (hsc : sc.Agree name sc') (role : FieldRole) (position : Nat)
    (other : FieldSet) (fields : List Field)
    (h : Field.compareAll role position other fields = none)
    (hkeys : ∀ e ∈ Field.entriesFrom role position fields, e.key ∈ other.keys)
    (hmem : name ∈ Field.freeAll sc fields) : ∃ e ∈ other.entries, name ∈ e.ty.free sc' := by
  match fields with
  | [] => simp [Field.freeAll] at hmem
  | f :: fs =>
    obtain ⟨hf, hfs⟩ := orElse_eq_none.1 h
    simp only [Field.entriesFrom, List.mem_append] at hkeys
    simp only [Field.freeAll, List.mem_append] at hmem
    rcases hmem with hmem | hmem
    · exact Field.exists_entry_of_compareMembers hname hsc role position other f hf
        (fun e he => hkeys e (.inl he)) hmem
    · exact Field.exists_entry_of_compareAll hname hsc role _ other fs hfs
        (fun e he => hkeys e (.inr he)) hmem
termination_by structural fields

theorem Field.exists_entry_of_compareAllOpt {name : String} (hname : Ordinary name)
    {sc sc' : Scope} (hsc : sc.Agree name sc') (role : FieldRole) (other : FieldSet)
    (fields : Option (List Field)) (h : Field.compareAllOpt role other fields = none)
    (hkeys : ∀ e ∈ Field.entriesFrom role 0 (fields.getD []), e.key ∈ other.keys)
    (hmem : name ∈ Field.freeOpt sc fields) : ∃ e ∈ other.entries, name ∈ e.ty.free sc' := by
  match fields with
  | none => simp [Field.freeOpt] at hmem
  | some fields =>
    rw [Field.freeOpt] at hmem
    exact Field.exists_entry_of_compareAll hname hsc role 0 other fields h hkeys hmem
termination_by structural fields

theorem Signature.mem_free_of_compare {name : String} (hname : Ordinary name) {sc sc' : Scope}
    (hsc : sc.Agree name sc') (a b : Signature) (h : a.compare b = none)
    (hmem : name ∈ a.free sc) : name ∈ b.free sc' := by
  match a, b with
  | ⟨typeParams, params, results⟩, ⟨typeParams', params', results'⟩ =>
    obtain ⟨htype, h⟩ := orElse_eq_none.1 h
    obtain ⟨hparams, hresults⟩ := orElse_eq_none.1 h
    simp only [Signature.free, List.mem_append] at hmem ⊢
    rw [Field.freeOpt_eq sc' typeParams', Field.freeOpt_eq sc' results']
    refine hmem.imp (Or.imp (fun hmem => ?_) fun hmem => ?_) fun hmem => ?_
    · exact mem_freeAll_of_fieldSets (within_eq_none.1 htype) fun other hshared hkeys =>
        Field.exists_entry_of_compareAllOpt hname hsc .param other typeParams hshared hkeys hmem
    · exact mem_freeAll_of_fieldSets (within_eq_none.1 hparams) fun other hshared hkeys =>
        Field.exists_entry_of_compareAll hname hsc .param 0 other params hshared hkeys hmem
    · exact mem_freeAll_of_fieldSets (within_eq_none.1 hresults) fun other hshared hkeys =>
        Field.exists_entry_of_compareAllOpt hname hsc .param other results hshared hkeys hmem
termination_by structural a

theorem Stmt.mem_free_of_compare {name : String} (hname : Ordinary name) {sc sc' : Scope}
    (hsc : sc.Agree name sc') (s t : Stmt) (h : s.compare t = none) (hmem : name ∈ s.free sc) :
    name ∈ t.free sc' := by
  match s with
  | .bad node => exact absurd h (Option.some_ne_none _)
  | .decl ⟨tok, specs, grouped⟩ =>
    cases t with
    | decl g =>
      cases g with
      | mk tok' specs' grouped' =>
        obtain ⟨hlength, hspecs⟩ := lists_eq_none.1 (orElse_eq_none.1 h).2
        rw [Stmt.free] at hmem ⊢
        exact Spec.mem_freeLocal_of_compare hname hsc specs specs' hlength hspecs hmem
    | _ => exact absurd h (Option.some_ne_none _)
  | .empty => simp [Stmt.free] at hmem
  | .labeled label s =>
    cases t with
    | labeled label' t =>
      rw [Stmt.free] at hmem ⊢
      exact Stmt.mem_free_of_compare hname hsc s t (orElse_eq_none.1 h).2 hmem
    | _ => exact absurd h (Option.some_ne_none _)
  | .expr x =>
    cases t with
    | expr y =>
      rw [Stmt.free] at hmem ⊢
      exact Expr.mem_free_of_compare hname hsc x y h hmem
    | _ => exact absurd h (Option.some_ne_none _)
  | .send chan value =>
    cases t with
    | send chan' value' =>
      obtain ⟨hchan, hvalue⟩ := orElse_eq_none.1 h
      simp only [Stmt.free, List.mem_append] at hmem ⊢
      exact hmem.imp (Expr.mem_free_of_compare hname hsc chan chan' (within_eq_none.1 hchan))
        (Expr.mem_free_of_compare hname hsc value value' (within_eq_none.1 hvalue))
    | _ => exact absurd h (Option.some_ne_none _)
  | .incDec x tok =>
    cases t with
    | incDec y tok' =>
      rw [Stmt.free] at hmem ⊢
      exact Expr.mem_free_of_compare hname hsc x y (orElse_eq_none.1 h).2 hmem
    | _ => exact absurd h (Option.some_ne_none _)
  | .assign lhs tok rhs =>
    cases t with
    | assign lhs' tok' rhs' =>
      obtain ⟨htok, h⟩ := orElse_eq_none.1 h
      obtain ⟨hlhs, hrhs⟩ := orElse_eq_none.1 h
      obtain ⟨hlength, hlhs⟩ := lists_eq_none.1 hlhs
      obtain ⟨hlength', hrhs⟩ := lists_eq_none.1 hrhs
      simp only [Stmt.free, List.mem_append] at hmem ⊢
      rw [← tokens_eq_none.1 htok]
      refine hmem.imp (fun hmem => ?_)
        (Expr.mem_freeAll_of_compare hname hsc rhs rhs' hlength' hrhs)
      split
      · next hdefine => simp [hdefine] at hmem
      · next hdefine =>
        rw [if_neg hdefine] at hmem
        exact Expr.mem_freeAll_of_compare hname hsc lhs lhs' hlength hlhs hmem
    | _ => exact absurd h (Option.some_ne_none _)
  | .goCall x =>
    cases t with
    | goCall y =>
      rw [Stmt.free] at hmem ⊢
      exact Expr.mem_free_of_compare hname hsc x y h hmem
    | _ => exact absurd h (Option.some_ne_none _)
  | .deferCall x =>
    cases t with
    | deferCall y =>
      rw [Stmt.free] at hmem ⊢
      exact Expr.mem_free_of_compare hname hsc x y h hmem
    | _ => exact absurd h (Option.some_ne_none _)
  | .ret results =>
    cases t with
    | ret results' =>
      have h : lists "return" results results' (Expr.compareFrom · 0 results results') = none := h
      obtain ⟨hlength, hresults⟩ := lists_eq_none.1 h
      rw [Stmt.free] at hmem ⊢
      exact Expr.mem_freeAll_of_compare hname hsc results results' hlength hresults hmem
    | _ => exact absurd h (Option.some_ne_none _)
  | .branch tok label => simp [Stmt.free] at hmem
  | .block list =>
    cases t with
    | block list' =>
      have h : lists "block" list list' (Stmt.compareFrom · 0 list list') = none := h
      obtain ⟨hlength, hlist⟩ := lists_eq_none.1 h
      rw [Stmt.free] at hmem ⊢
      exact Stmt.mem_freeAll_of_compare hname hsc.enter list list' hlength hlist hmem
    | _ => exact absurd h (Option.some_ne_none _)
  | .ifElse init cond body orElse =>
    cases t with
    | ifElse init' cond' body' orElse' =>
      obtain ⟨hinit, h⟩ := orElse_eq_none.1 h
      obtain ⟨hcond, h⟩ := orElse_eq_none.1 h
      obtain ⟨hbody, helse⟩ := orElse_eq_none.1 h
      obtain ⟨hlength, hbody⟩ := lists_eq_none.1 (within_eq_none.1 hbody)
      have hinner := hsc.enter.bind_eq (Stmt.bindsOpt_eq_of_compare (within_eq_none.1 hinit))
      simp only [Stmt.free, List.mem_append] at hmem ⊢
      exact hmem.imp (Or.imp (Or.imp
        (Stmt.mem_freeOpt_of_compare hname hsc.enter init init' (within_eq_none.1 hinit))
        (Expr.mem_free_of_compare hname hinner cond cond' (within_eq_none.1 hcond)))
        (Stmt.mem_freeAll_of_compare hname hinner.enter body body' hlength hbody))
        (Stmt.mem_freeOpt_of_compare hname hinner orElse orElse' (within_eq_none.1 helse))
    | _ => exact absurd h (Option.some_ne_none _)
  | .switch init tag body =>
    cases t with
    | switch init' tag' body' =>
      obtain ⟨hinit, h⟩ := orElse_eq_none.1 h
      obtain ⟨htag, hbody⟩ := orElse_eq_none.1 h
      obtain ⟨hlength, hbody⟩ := lists_eq_none.1 hbody
      have hinner := hsc.enter.bind_eq (Stmt.bindsOpt_eq_of_compare (within_eq_none.1 hinit))
      simp only [Stmt.free, List.mem_append] at hmem ⊢
      exact hmem.imp (Or.imp
        (Stmt.mem_freeOpt_of_compare hname hsc.enter init init' (within_eq_none.1 hinit))
        (Expr.mem_freeOpt_of_compare hname hinner tag tag' (within_eq_none.1 htag)))
        (Clause.mem_freeAll_of_compare hname hinner [] body body' hlength hbody)
    | _ => exact absurd h (Option.some_ne_none _)
  | .typeSwitch init guard body =>
    cases t with
    | typeSwitch init' guard' body' =>
      obtain ⟨hinit, h⟩ := orElse_eq_none.1 h
      obtain ⟨hguard, hbody⟩ := orElse_eq_none.1 h
      obtain ⟨hlength, hbody⟩ := lists_eq_none.1 hbody
      have hguard := within_eq_none.1 hguard
      obtain ⟨hbinds, hbound⟩ := Stmt.guard_eq_of_compare hguard
      have hinner := hsc.enter.bind_eq (Stmt.bindsOpt_eq_of_compare (within_eq_none.1 hinit))
      have hfree := Stmt.mem_free_of_compare hname hinner guard guard' hguard
      rw [Stmt.free_typeSwitch] at hmem ⊢
      simp only [List.mem_append] at hmem ⊢
      rw [← hbound]
      refine hmem.imp (Or.imp
        (Stmt.mem_freeOpt_of_compare hname hsc.enter init init' (within_eq_none.1 hinit))
        fun hmem => ?_)
        (Clause.mem_freeAll_of_compare hname (hinner.bind_eq hbinds) _ body body' hlength hbody)
      cases guard with
      | assign lhs tok rhs =>
        cases guard' with
        | assign lhs' tok' rhs' =>
          obtain ⟨hlength', hrhs⟩ :=
            lists_eq_none.1 (orElse_eq_none.1 (orElse_eq_none.1 hguard).2).2
          exact Expr.mem_freeAll_of_compare hname hinner rhs rhs' hlength' hrhs hmem
        | _ => exact absurd hguard (Option.some_ne_none _)
      | _ =>
        cases guard' with
        | assign lhs' tok' rhs' => exact absurd hguard (Option.some_ne_none _)
        | _ => exact hfree hmem
    | _ => exact absurd h (Option.some_ne_none _)
  | .loop init cond post body =>
    cases t with
    | loop init' cond' post' body' =>
      obtain ⟨hinit, h⟩ := orElse_eq_none.1 h
      obtain ⟨hcond, h⟩ := orElse_eq_none.1 h
      obtain ⟨hpost, hbody⟩ := orElse_eq_none.1 h
      obtain ⟨hlength, hbody⟩ := lists_eq_none.1 (within_eq_none.1 hbody)
      have hinner := hsc.enter.bind_eq (Stmt.bindsOpt_eq_of_compare (within_eq_none.1 hinit))
      have hafter := hinner.bind_eq (Stmt.bindsOpt_eq_of_compare (within_eq_none.1 hpost))
      simp only [Stmt.free, List.mem_append] at hmem ⊢
      exact hmem.imp (Or.imp (Or.imp
        (Stmt.mem_freeOpt_of_compare hname hsc.enter init init' (within_eq_none.1 hinit))
        (Expr.mem_freeOpt_of_compare hname hinner cond cond' (within_eq_none.1 hcond)))
        (Stmt.mem_freeOpt_of_compare hname hinner post post' (within_eq_none.1 hpost)))
        (Stmt.mem_freeAll_of_compare hname hafter.enter body body' hlength hbody)
    | _ => exact absurd h (Option.some_ne_none _)
  | .range key value tok x body =>
    cases t with
    | range key' value' tok' y body' =>
      obtain ⟨htok, h⟩ := orElse_eq_none.1 h
      obtain ⟨hkey, h⟩ := orElse_eq_none.1 h
      obtain ⟨hvalue, h⟩ := orElse_eq_none.1 h
      obtain ⟨hx, hbody⟩ := orElse_eq_none.1 h
      obtain ⟨hlength, hbody⟩ := lists_eq_none.1 (within_eq_none.1 hbody)
      have htok : tok = tok' := by simpa using require_eq_none.1 htok
      subst htok
      have hkeyed := hsc.enter.bind_eq (Expr.rangeBinds_eq_of_compare tok (within_eq_none.1 hkey))
      have hinner := hkeyed.bind_eq (Expr.rangeBinds_eq_of_compare tok (within_eq_none.1 hvalue))
      simp only [Stmt.free, List.mem_append] at hmem ⊢
      exact hmem.imp (Or.imp (Or.imp
        (Expr.mem_free_of_compare hname hsc x y (within_eq_none.1 hx))
        (Expr.mem_freeRangeVar_of_compare hname hsc.enter tok key key' (within_eq_none.1 hkey)))
        (Expr.mem_freeRangeVar_of_compare hname hkeyed tok value value' (within_eq_none.1 hvalue)))
        (Stmt.mem_freeAll_of_compare hname hinner.enter body body' hlength hbody)
    | _ => exact absurd h (Option.some_ne_none _)
termination_by structural s

theorem Stmt.mem_freeOpt_of_compare {name : String} (hname : Ordinary name) {sc sc' : Scope}
    (hsc : sc.Agree name sc') (s t : Option Stmt) (h : Stmt.compareOpt s t = none)
    (hmem : name ∈ Stmt.freeOpt sc s) : name ∈ Stmt.freeOpt sc' t := by
  match s with
  | none => simp [Stmt.freeOpt] at hmem
  | some s =>
    cases t with
    | none => exact absurd h (Option.some_ne_none _)
    | some t =>
      rw [Stmt.freeOpt] at hmem ⊢
      exact Stmt.mem_free_of_compare hname hsc s t h hmem
termination_by structural s

theorem Stmt.mem_freeAll_of_compare {name : String} (hname : Ordinary name) {sc sc' : Scope}
    (hsc : sc.Agree name sc') {what : String} {i : Nat} (ss ts : List Stmt)
    (hlength : ss.length = ts.length) (h : Stmt.compareFrom what i ss ts = none)
    (hmem : name ∈ Stmt.freeAll sc ss) : name ∈ Stmt.freeAll sc' ts := by
  match ss with
  | [] => simp [Stmt.freeAll] at hmem
  | s :: ss =>
    cases ts with
    | nil => simp at hlength
    | cons t ts =>
      obtain ⟨hs, hss⟩ := orElse_eq_none.1 h
      have hs := within_eq_none.1 hs
      simp only [Stmt.freeAll, List.mem_append] at hmem ⊢
      exact hmem.imp (Stmt.mem_free_of_compare hname hsc s t hs)
        (Stmt.mem_freeAll_of_compare hname (hsc.bind_eq (Stmt.binds_eq_of_compare hs)) ss ts
          (by simpa using hlength) hss)
termination_by structural ss

theorem Clause.mem_free_of_compare {name : String} (hname : Ordinary name) {sc sc' : Scope}
    (hsc : sc.Agree name sc') (bound : List String) (c d : Clause) (h : c.compare d = none)
    (hmem : name ∈ c.free sc bound) : name ∈ d.free sc' bound := by
  match c with
  | .matching list body =>
    cases d with
    | matching list' body' =>
      obtain ⟨hlist, hbody⟩ := orElse_eq_none.1 h
      obtain ⟨hlength, hlist⟩ := lists_eq_none.1 hlist
      obtain ⟨hlength', hbody⟩ := lists_eq_none.1 hbody
      simp only [Clause.free, List.mem_append] at hmem ⊢
      exact hmem.imp (Expr.mem_freeAll_of_compare hname hsc.enter list list' hlength hlist)
        (Stmt.mem_freeAll_of_compare hname (hsc.enter.bind_eq rfl) body body' hlength' hbody)
    | otherwise body' => exact absurd h (Option.some_ne_none _)
  | .otherwise body =>
    cases d with
    | matching list' body' => exact absurd h (Option.some_ne_none _)
    | otherwise body' =>
      have h : lists "case body" body body' (Stmt.compareFrom · 0 body body') = none := h
      obtain ⟨hlength, hbody⟩ := lists_eq_none.1 h
      rw [Clause.free] at hmem ⊢
      exact Stmt.mem_freeAll_of_compare hname (hsc.enter.bind_eq rfl) body body' hlength hbody hmem
termination_by structural c

theorem Clause.mem_freeAll_of_compare {name : String} (hname : Ordinary name) {sc sc' : Scope}
    (hsc : sc.Agree name sc') (bound : List String) {what : String} {i : Nat} (cs ds : List Clause)
    (hlength : cs.length = ds.length) (h : Clause.compareFrom what i cs ds = none)
    (hmem : name ∈ Clause.freeAll sc bound cs) : name ∈ Clause.freeAll sc' bound ds := by
  match cs with
  | [] => simp [Clause.freeAll] at hmem
  | c :: cs =>
    cases ds with
    | nil => simp at hlength
    | cons d ds =>
      obtain ⟨hc, hcs⟩ := orElse_eq_none.1 h
      simp only [Clause.freeAll, List.mem_append] at hmem ⊢
      exact hmem.imp (Clause.mem_free_of_compare hname hsc bound c d (within_eq_none.1 hc))
        (Clause.mem_freeAll_of_compare hname hsc bound cs ds (by simpa using hlength) hcs)
termination_by structural cs

theorem Spec.mem_freeLocal_of_compare {name : String} (hname : Ordinary name) {sc sc' : Scope}
    (hsc : sc.Agree name sc') {what : String} {i : Nat} (ss ts : List Spec)
    (hlength : ss.length = ts.length) (h : Spec.compareFrom what i ss ts = none)
    (hmem : name ∈ Spec.freeLocal sc ss) : name ∈ Spec.freeLocal sc' ts := by
  match ss with
  | [] => simp [Spec.freeLocal] at hmem
  | s :: ss =>
    cases ts with
    | nil => simp at hlength
    | cons t ts =>
      obtain ⟨hs, hss⟩ := orElse_eq_none.1 h
      have hs := within_eq_none.1 hs
      have hdeclared := Spec.declared_eq_of_compare hs
      have hrest : ss.length = ts.length := by simpa using hlength
      match s with
      | .imported spec =>
        cases t with
        | imported spec' =>
          rw [Spec.freeLocal] at hmem ⊢
          exact Spec.mem_freeLocal_of_compare hname hsc ss ts hrest hss hmem
        | _ => exact absurd hs (Option.some_ne_none _)
      | .value ⟨names, ty, values⟩ =>
        cases t with
        | value v =>
          cases v with
          | mk names' ty' values' =>
            obtain ⟨hty, hs⟩ := orElse_eq_none.1 hs
            obtain ⟨hvlength, hvalues⟩ := lists_eq_none.1 (orElse_eq_none.1 hs).2
            simp only [Spec.freeLocal, List.mem_append] at hmem ⊢
            exact hmem.imp (Or.imp
              (Expr.mem_freeOpt_of_compare hname hsc ty ty' (within_eq_none.1 hty))
              (Expr.mem_freeAll_of_compare hname hsc values values' hvlength hvalues))
              (Spec.mem_freeLocal_of_compare hname (hsc.bind_eq hdeclared) ss ts hrest hss)
        | _ => exact absurd hs (Option.some_ne_none _)
      | .type ⟨typeName, typeParams, isAlias, ty⟩ =>
        cases t with
        | type v =>
          cases v with
          | mk typeName' typeParams' isAlias' ty' =>
            obtain ⟨-, hs⟩ := orElse_eq_none.1 (within_eq_none.1 hs)
            obtain ⟨-, hs⟩ := orElse_eq_none.1 hs
            obtain ⟨hparams, hty⟩ := orElse_eq_none.1 hs
            have hinner := hsc.bind_eq hdeclared
            simp only [Spec.freeLocal, List.mem_append] at hmem ⊢
            rw [Field.freeOpt_eq _ typeParams']
            refine hmem.imp (Or.imp (fun hmem => ?_)
              (Expr.mem_free_of_compare hname hinner ty ty' hty))
              (Spec.mem_freeLocal_of_compare hname hinner ss ts hrest hss)
            exact mem_freeAll_of_fieldSets (within_eq_none.1 hparams) fun other hshared hkeys =>
              Field.exists_entry_of_compareAllOpt hname hinner .param other typeParams hshared
                hkeys hmem
        | _ => exact absurd hs (Option.some_ne_none _)
termination_by structural ss

end

end GoWeave
