import GoWeave.Merge
import GoWeave.Proofs.Declaration.Heads
import GoWeave.Proofs.Equivalence.References
import GoWeave.Proofs.Scope.Untouched

/-!
# Copies under renamings

A copy that is equal to a tree is renamed, by renamings each of which makes a name longer. It stays
equal exactly if no renaming touches what it refers to: otherwise the shortest of the touched names
is missing from the renamed copy, while the tree still refers to it.
-/
namespace GoWeave

open Comparison

/-! ## Declarations -/

theorem Field.mem_freeAll_of_compare {name : String} (hname : Ordinary name) {sc sc' : Scope}
    (hsc : sc.Agree name sc') {role : FieldRole} {a b : List Field}
    (h : fieldSets role a b (fun other => Field.compareAll role 0 other a) = none)
    (hmem : name ∈ Field.freeAll sc a) : name ∈ Field.freeAll sc' b :=
  mem_freeAll_of_fieldSets h fun other hshared hkeys =>
    Field.exists_entry_of_compareAll hname hsc role 0 other a hshared hkeys hmem

theorem Field.mem_freeOpt_of_compare {name : String} (hname : Ordinary name) {sc sc' : Scope}
    (hsc : sc.Agree name sc') {role : FieldRole} {a b : Option (List Field)}
    (h : fieldSets role (a.getD []) (b.getD []) (fun other => Field.compareAllOpt role other a) =
      none)
    (hmem : name ∈ Field.freeOpt sc a) : name ∈ Field.freeOpt sc' b := by
  rw [Field.freeOpt_eq sc' b]
  exact mem_freeAll_of_fieldSets h fun other hshared hkeys =>
    Field.exists_entry_of_compareAllOpt hname hsc role other a hshared hkeys hmem

theorem ValueSpec.mem_free_of_compare {name : String} (hname : Ordinary name) {a b : ValueSpec}
    (h : a.compare b = none) (hmem : name ∈ a.free .root) : name ∈ b.free .root := by
  cases a with
  | mk names ty values =>
    cases b with
    | mk names' ty' values' =>
      obtain ⟨hty, h⟩ := orElse_eq_none.1 h
      obtain ⟨hnames, hvalues⟩ := orElse_eq_none.1 h
      obtain ⟨hlength, hnames⟩ := lists_eq_none.1 hnames
      obtain ⟨hvlength, hvalues⟩ := lists_eq_none.1 hvalues
      have hsc := Scope.Agree.refl name .root
      simp only [ValueSpec.free, List.mem_append] at hmem ⊢
      rw [← nameLists_eq_none hlength hnames]
      exact hmem.imp (Or.imp id
        (Expr.mem_freeOpt_of_compare hname hsc ty ty' (within_eq_none.1 hty)))
        (Expr.mem_freeAll_of_compare hname hsc values values' hvlength hvalues)

/-- The scope of the members of a type, with its type parameters bound. -/
def TypeSpec.memberScope (spec : TypeSpec) : Scope :=
  Scope.root.enter.bind (Field.declared (spec.typeParams.getD []))

/-- Types whose parameters do not differ bind the same names. -/
theorem TypeSpec.agree_of_compare {name : String} (hname : Ordinary name) {a b : TypeSpec}
    {shared : FieldSet → Comparison}
    (h : fieldSets .param (a.typeParams.getD []) (b.typeParams.getD []) shared = none) :
    a.memberScope.Agree name b.memberScope :=
  (Scope.Agree.refl name .root).enter.bind (mem_declared_iff hname h)

theorem TypeSpec.mem_free_of_compare {name : String} (hname : Ordinary name) {a b : TypeSpec}
    (h : a.compare b = none) (hmem : name ∈ a.free .root) : name ∈ b.free .root := by
  cases a with
  | mk typeName typeParams isAlias ty =>
    cases b with
    | mk typeName' typeParams' isAlias' ty' =>
      obtain ⟨htypeName, h⟩ := orElse_eq_none.1 h
      obtain ⟨-, h⟩ := orElse_eq_none.1 h
      obtain ⟨hparams, hty⟩ := orElse_eq_none.1 h
      have hparams := within_eq_none.1 hparams
      have hsc := TypeSpec.agree_of_compare hname (a := ⟨typeName, typeParams, isAlias, ty⟩)
        (b := ⟨typeName', typeParams', isAlias', ty'⟩) hparams
      simp only [TypeSpec.free, List.mem_append] at hmem ⊢
      exact hmem.imp (Or.imp
        ((Scope.Agree.refl name .root).mem_reference (names_eq_none.1 htypeName))
        (Field.mem_freeOpt_of_compare hname hsc hparams))
        (Expr.mem_free_of_compare hname hsc ty ty' hty)

theorem Expr.receiverParams_eq_of_compare {x y : Expr} (h : x.compare y = none) :
    x.receiverParams = y.receiverParams := by
  -- The pointer aside, the parameters are the type arguments of the receiver.
  have hindex : ∀ {z z' arg arg' : Expr}, (Expr.index z arg).compare (.index z' arg') = none →
      arg.ident?.toList = arg'.ident?.toList := by
    intro z z' arg arg' h
    rw [Expr.ident?_eq_of_compare (within_eq_none.1 (orElse_eq_none.1 h).1)]
  have hindexList : ∀ {z z' : Expr} {args args' : List Expr},
      (Expr.indexList z args).compare (.indexList z' args') = none →
        Expr.targets args = Expr.targets args' := by
    intro z z' args args' h
    obtain ⟨hlength, hargs⟩ := lists_eq_none.1 (orElse_eq_none.1 h).1
    exact Expr.targets_eq_of_compare hlength hargs
  cases x with
  | index z arg =>
    cases y with
    | index z' arg' => exact hindex h
    | _ => exact absurd h (Option.some_ne_none _)
  | indexList z args =>
    cases y with
    | indexList z' args' => exact hindexList h
    | _ => exact absurd h (Option.some_ne_none _)
  | star z =>
    cases y with
    | star z' =>
      have h := within_eq_none.1 h
      cases z with
      | index w arg =>
        cases z' with
        | index w' arg' => exact hindex h
        | _ => exact absurd h (Option.some_ne_none _)
      | indexList w args =>
        cases z' with
        | indexList w' args' => exact hindexList h
        | _ => exact absurd h (Option.some_ne_none _)
      | _ =>
        cases z' with
        | index w' arg' => exact absurd h (Option.some_ne_none _)
        | indexList w' args' => exact absurd h (Option.some_ne_none _)
        | _ => rfl
    | _ => exact absurd h (Option.some_ne_none _)
  | _ =>
    cases y with
    | index z' arg' => exact absurd h (Option.some_ne_none _)
    | indexList z' args' => exact absurd h (Option.some_ne_none _)
    | star z' => exact absurd h (Option.some_ne_none _)
    | _ => rfl

theorem Field.exists_mem_entriesFrom (role : FieldRole) {fields : List Field} {f : Field}
    (hf : f ∈ fields) (position : Nat) :
    ∃ e ∈ Field.entriesFrom role position fields, e.ty = f.ty := by
  induction fields generalizing position with
  | nil => simp at hf
  | cons g fs ih =>
    rw [Field.entriesFrom]
    rcases List.mem_cons.1 hf with rfl | hf
    · obtain ⟨e, he, hty⟩ := Field.exists_mem_entries role position f
      exact ⟨e, List.mem_append_left _ he, hty⟩
    · obtain ⟨e, he, hty⟩ := ih hf (position + g.width)
      exact ⟨e, List.mem_append_right _ he, hty⟩

namespace FuncDecl

variable {name : String} {f g : FuncDecl}

theorem mem_signatureNames_of_compare (hname : Ordinary name) (h : f.compare g = none)
    (hmem : name ∈ f.signatureNames) : name ∈ g.signatureNames := by
  obtain ⟨-, h⟩ := orElse_eq_none.1 h
  obtain ⟨hrecv, h⟩ := orElse_eq_none.1 h
  obtain ⟨hsig, -⟩ := orElse_eq_none.1 h
  rw [signatureNames, List.mem_append] at hmem ⊢
  refine hmem.imp (fun hmem => ?_)
    (Signature.names_iff_of_compare hname (within_eq_none.1 hsig)).1.1
  obtain ⟨field, hfield, hparam⟩ := List.mem_flatMap.1 hmem
  obtain ⟨left, right, hagree⟩ := exists_fieldsAgree (within_eq_none.1 hrecv)
  obtain ⟨e, he, hty⟩ := Field.exists_mem_entriesFrom .param hfield 0
  have hkey : e.key ∈ right.keys := by
    rw [← hagree.keys_iff, FieldSet.keys, FieldSet.entries_of_ofFields hagree.left_eq]
    exact List.mem_map_of_mem he
  obtain ⟨e', he', hget, -⟩ := FieldSet.exists_get? hkey
  have hcompare : e.ty.compare e'.ty = none := by
    have hshared := hagree.shared_eq
    cases hf : f.recv with
    | none => simp [hf] at hfield
    | some fields =>
      rw [hf] at hshared he
      exact (Field.compareAll_eq_none_iff.1 hshared _ he _ hget).2.2
  rw [FieldSet.entries_of_ofFields hagree.right_eq] at he'
  obtain ⟨field', hfield', hty'⟩ := Field.exists_field_of_mem_entriesFrom he'
  refine List.mem_flatMap.2 ⟨field', hfield', ?_⟩
  rwa [← hty', ← Expr.receiverParams_eq_of_compare hcompare, hty]

/-- Functions without a difference, both methods or neither, and with the same names bound in their
signatures. -/
theorem mem_free_of_compare (hname : Ordinary name) (h : f.compare g = none)
    (hisSome : f.recv.isSome = g.recv.isSome)
    (hnames : name ∈ f.signatureNames ↔ name ∈ g.signatureNames) (hmem : name ∈ f.free .root) :
    name ∈ g.free .root := by
  obtain ⟨hfname, h⟩ := orElse_eq_none.1 h
  obtain ⟨hrecv, h⟩ := orElse_eq_none.1 h
  obtain ⟨hsig, hbody⟩ := orElse_eq_none.1 h
  have hrecv := within_eq_none.1 hrecv
  have hsig := within_eq_none.1 hsig
  obtain ⟨htype, hbound⟩ := Signature.names_iff_of_compare hname hsig
  have hparam : (f.paramScope .root).Agree name (g.paramScope .root) :=
    (Scope.Agree.refl name .root).enter.bind htype
  have hsignature : (f.signatureScope .root).Agree name (g.signatureScope .root) := by
    refine ⟨by rw [signatureScope_root, signatureScope_root], ?_⟩
    rw [isFree_signatureScope, isFree_signatureScope, Bool.eq_iff_iff]
    simpa using not_congr hnames
  have hscope : (f.bodyScope .root).Agree name (g.bodyScope .root) := by
    refine hsignature.bind ?_
    rw [List.mem_append, List.mem_append]
    exact or_congr (mem_declared_iff hname hrecv) hbound
  obtain ⟨htypeParams, hparams, hresults⟩ := Signature.fieldSets_of_compare hsig
  simp only [FuncDecl.free, List.mem_append] at hmem ⊢
  refine hmem.imp (Or.imp (Or.imp (Or.imp (Or.imp (fun hmem => ?_)
    (Field.mem_freeOpt_of_compare hname hparam htypeParams))
    (Field.mem_freeOpt_of_compare hname hsignature hrecv))
    (Field.mem_freeAll_of_compare hname hsignature hparams))
    (Field.mem_freeOpt_of_compare hname hsignature hresults)) fun hmem => ?_
  · rw [← hisSome]
    split
    · next hsome => simp [hsome] at hmem
    · next hnone =>
      rw [if_neg hnone] at hmem
      exact (Scope.Agree.refl name .root).mem_reference (names_eq_none.1 hfname) hmem
  · rcases optional_eq_none (within_eq_none.1 hbody) with ⟨hf, -⟩ | ⟨body, body', hf, hg, hlists⟩
    · simp [hf] at hmem
    · obtain ⟨hlength, hlists⟩ := lists_eq_none.1 hlists
      rw [hf] at hmem
      rw [hg]
      exact Stmt.mem_freeAll_of_compare hname hscope body body' hlength hlists hmem

end FuncDecl

/-! ## Several renamings -/

namespace Renaming

/-- Renamings that touch none of some references. -/
def Spare (rs : List Renaming) (references : List String) : Prop :=
  ∀ r ∈ rs, r.old ∉ references

/-- Renamings each of which makes a name longer. -/
def Lengthen (rs : List Renaming) : Prop :=
  ∀ r ∈ rs, r.old.length < r.new.length

variable {α : Type}

/-- A tree under several renamings, one after the other. -/
def along (rename : Renaming → α → α) (rs : List Renaming) (x : α) : α :=
  rs.foldl (fun x r => rename r x) x

/-- The references of a tree tell what a renaming does to it. -/
structure Tracked (rename : Renaming → α → α) (free : α → List String) : Prop where
  passes : ∀ (r : Renaming) (x : α), r.Passes (free x) (free (rename r x))
  rename_eq : ∀ (r : Renaming) (x : α), r.old ∉ free x → rename r x = x

namespace Tracked

variable {rename : Renaming → α → α} {free : α → List String} {rs : List Renaming} {x : α}

theorem along_eq (h : Tracked rename free) (hspare : Spare rs (free x)) :
    along rename rs x = x := by
  induction rs with
  | nil => rfl
  | cons r rs ih =>
    obtain ⟨hr, hrs⟩ := List.forall_mem_cons.1 hspare
    rw [along, List.foldl_cons, h.rename_eq r x hr]
    exact ih hrs

/-- A reference in the end was there from the start and is never touched, or a shorter name was
there and is touched. -/
theorem mem_or_exists (h : Tracked rename free) (hrs : Lengthen rs) {name : String}
    (hname : name ∈ free (along rename rs x)) :
    (name ∈ free x ∧ ∀ r ∈ rs, r.old ≠ name) ∨
      ∃ r ∈ rs, r.old ∈ free x ∧ r.old.length < name.length := by
  induction rs generalizing x with
  | nil => exact .inl ⟨hname, by simp⟩
  | cons r rs ih =>
    obtain ⟨hr, hrs⟩ := List.forall_mem_cons.1 hrs
    rcases ih hrs hname with ⟨hmid, hne⟩ | ⟨s, hs, hmid, hlength⟩
    · rcases h.passes r x name hmid with ⟨hfree, hold⟩ | ⟨rfl, hold⟩
      · exact .inl ⟨hfree, List.forall_mem_cons.2 ⟨Ne.symm hold, hne⟩⟩
      · exact .inr ⟨r, List.mem_cons_self, hold, hr⟩
    · rcases h.passes r x s.old hmid with ⟨hfree, -⟩ | ⟨hnew, hold⟩
      · exact .inr ⟨s, List.mem_cons_of_mem r hs, hfree, hlength⟩
      · refine .inr ⟨r, List.mem_cons_self, hold, ?_⟩
        rw [hnew] at hlength
        omega

/-- If every touched name is there in the end, then none is touched. -/
theorem spare (h : Tracked rename free) (hrs : Lengthen rs)
    (hback : ∀ r ∈ rs, r.old ∈ free x → r.old ∈ free (along rename rs x)) : Spare rs (free x) := by
  -- Induction on the length: a touched name that is there in the end comes from a shorter one.
  have hlength : ∀ n, ∀ r ∈ rs, r.old.length = n → r.old ∉ free x := by
    intro n
    induction n using Nat.strongRecOn with
    | _ n ih =>
      intro r hr hn hold
      rcases h.mem_or_exists hrs (hback r hr hold) with ⟨-, hne⟩ | ⟨s, hs, hfree, hlt⟩
      · exact hne r hr rfl
      · exact ih _ (hn ▸ hlt) s hs rfl hfree
  exact fun r hr => hlength _ r hr rfl

end Tracked

end Renaming

/-! ## Copies that stay equal -/

/-- Two trees are equal, and they stay so under renamings of the right one if these touch none of
its references. If the trees are equal in either order and the old names are ordinary, then only if.
-/
structure StaysEqual {α : Type} (cmp : α → α → Comparison) (rename : Renaming → α → α)
    (free : α → List String) (rs : List Renaming) (a b : α) : Prop where
  equal : cmp a b = none
  of_spare : Renaming.Spare rs (free b) → cmp a (Renaming.along rename rs b) = none
  spare : cmp b a = none → (∀ r ∈ rs, Ordinary r.old) →
    cmp a (Renaming.along rename rs b) = none → Renaming.Spare rs (free b)

/-- If a renamed copy that is equal again has the references of the copy, no renaming touched it. -/
theorem Renaming.Tracked.staysEqual {α : Type} {cmp : α → α → Comparison}
    {rename : Renaming → α → α} {free : α → List String} {rs : List Renaming} {a b : α}
    (h : Renaming.Tracked rename free) (hrs : Renaming.Lengthen rs) (hequal : cmp a b = none)
    (hback : ∀ name, Ordinary name → cmp b a = none → cmp a (Renaming.along rename rs b) = none →
      name ∈ free b → name ∈ free (Renaming.along rename rs b)) :
    StaysEqual cmp rename free rs a b := by
  refine ⟨hequal, fun hspare => ?_, fun hsymm hordinary hrenamed => ?_⟩
  · rwa [h.along_eq hspare]
  · exact h.spare hrs fun r hr => hback r.old (hordinary r hr) hsymm hrenamed

theorem Expr.tracked (sc : Scope) : Renaming.Tracked (fun r => Expr.rename r sc) (Expr.free sc) :=
  ⟨fun r x => Expr.passes r sc x, fun r x => Expr.rename_of_not_mem r sc x⟩

theorem Expr.staysEqual {sc sc' : Scope} (hsc : ∀ name, Ordinary name → sc.Agree name sc')
    {rs : List Renaming} (hrs : Renaming.Lengthen rs) {x y : Expr} (h : x.compare y = none) :
    StaysEqual Expr.compare (fun r => Expr.rename r sc') (Expr.free sc') rs x y := by
  refine (Expr.tracked sc').staysEqual hrs h fun name hname hsymm hrenamed hmem => ?_
  have hagree := hsc name hname
  have hx : name ∈ x.free sc := Expr.mem_free_of_compare hname hagree.symm y x hsymm hmem
  exact Expr.mem_free_of_compare hname hagree x _ hrenamed hx

namespace Declared

/-- A declaration under a renaming. -/
def rename (r : Renaming) : Declared → Declared
  | func f => .func (f.rename r .root)
  | type spec => .type (spec.rename r .root)
  | value tok spec iota => .value tok (spec.rename r .root) iota

/-- The names that a declaration refers to, its own included unless it is a method. -/
def free : Declared → List String
  | func f => f.free .root
  | type spec => spec.free .root
  | value _ spec _ => spec.free .root

theorem tracked : Renaming.Tracked rename free := by
  constructor
  · intro r d
    cases d with
    | func f => exact f.passes r
    | type spec => exact spec.passes r
    | value tok spec iota => exact spec.passes r
  · intro r d h
    cases d with
    | func f => exact congrArg func (FuncDecl.rename_of_not_mem h)
    | type spec => exact congrArg type (TypeSpec.rename_of_not_mem h)
    | value tok spec iota => exact congrArg (value tok · iota) (ValueSpec.rename_of_not_mem h)

/-- Declarations with the same names bound in their signatures, and both methods or neither. -/
def Alike (name : String) : Declared → Declared → Prop
  | func f, func g =>
    f.recv.isSome = g.recv.isSome ∧ (name ∈ f.signatureNames ↔ name ∈ g.signatureNames)
  | _, _ => True

theorem Alike.symm {name : String} {a b : Declared} (h : Alike name a b) : Alike name b a := by
  cases a <;> cases b <;> first | exact trivial | exact ⟨h.1.symm, h.2.symm⟩

theorem Alike.along {name : String} {a b : Declared} (h : Alike name a b) (rs : List Renaming) :
    Alike name a (Renaming.along rename rs b) := by
  induction rs generalizing b with
  | nil => exact h
  | cons r rs ih =>
    refine ih ?_
    cases a with
    | func f =>
      cases b with
      | func g =>
        refine ⟨?_, ?_⟩
        · rw [h.1]
          cases hrecv : g.recv <;> simp [FuncDecl.rename, hrecv, Field.renameOpt]
        · rw [h.2, FuncDecl.signatureNames_rename]
      | type spec => exact trivial
      | value tok spec iota => exact trivial
    | type spec => cases b <;> exact trivial
    | value tok spec iota => cases b <;> exact trivial

theorem mem_free_of_compare {name : String} (hname : Ordinary name) {a b : Declared}
    (h : Merger.compare a b = none) (halike : Alike name a b) (hmem : name ∈ a.free) :
    name ∈ b.free := by
  cases a with
  | func f =>
    cases b with
    | func g => exact FuncDecl.mem_free_of_compare hname h halike.1 halike.2 hmem
    | type spec => exact absurd h (Option.some_ne_none _)
    | value tok spec iota => exact absurd h (Option.some_ne_none _)
  | type spec =>
    cases b with
    | func g => exact absurd h (Option.some_ne_none _)
    | type spec' => exact TypeSpec.mem_free_of_compare hname h hmem
    | value tok spec' iota => exact absurd h (Option.some_ne_none _)
  | value tok spec iota =>
    cases b with
    | func g => exact absurd h (Option.some_ne_none _)
    | type spec' => exact absurd h (Option.some_ne_none _)
    | value tok' spec' iota' =>
      simp only [Merger.compare] at h
      split at h
      · simp at h
      · split at h
        · simp at h
        · exact ValueSpec.mem_free_of_compare hname h hmem

theorem alike_of_compare {name : String} (hname : Ordinary name) {a b : Declared}
    (hmethod : a.head.isMethod = b.head.isMethod) (h : Merger.compare a b = none)
    (hsymm : Merger.compare b a = none) : Alike name a b := by
  cases a with
  | func f =>
    cases b with
    | func g =>
      rw [Declared.head, Declared.head, FuncDecl.isMethod_head, FuncDecl.isMethod_head] at hmethod
      exact ⟨hmethod, FuncDecl.mem_signatureNames_of_compare hname h,
        FuncDecl.mem_signatureNames_of_compare hname hsymm⟩
    | type spec => exact trivial
    | value tok spec iota => exact trivial
  | type spec => cases b <;> exact trivial
  | value tok spec iota => cases b <;> exact trivial

theorem staysEqual {a b : Declared} (hmethod : a.head.isMethod = b.head.isMethod)
    {rs : List Renaming} (hrs : Renaming.Lengthen rs) (h : Merger.compare a b = none) :
    StaysEqual Merger.compare rename free rs a b := by
  refine tracked.staysEqual hrs h fun name hname hsymm hrenamed hmem => ?_
  have halike := alike_of_compare hname hmethod h hsymm
  have ha : name ∈ a.free := mem_free_of_compare hname hsymm halike.symm hmem
  exact mem_free_of_compare hname hrenamed (halike.along rs) ha

end Declared

/-! ## Structs with more members -/

namespace Comparison

/-- A comparison whose outcome is not that members are added. -/
def Plain (c : Comparison) : Prop :=
  ∀ missing added, c ≠ some (.additional missing added)

theorem plain_require (same : Bool) (description : String) : Plain (require same description) := by
  cases same <;> simp [Plain, require]

theorem plain_within (what : String) (c : Comparison) : Plain (c.within what) := by
  rcases c with _ | ⟨_ | _ | _⟩ <;> simp [Plain, within, Difference.within]

theorem Plain.orElse {c d : Comparison} (hc : Plain c) (hd : Plain d) : Plain (c <|> d) := by
  cases c with
  | none => exact hd
  | some difference => exact hc

/-- Members that are added come from the part of a comparison that can say so. -/
theorem Plain.eq_of_orElse {c d : Comparison} {missing added : List String} (hc : Plain c)
    (h : (c <|> d) = some (.additional missing added)) :
    c = none ∧ d = some (.additional missing added) := by
  cases c with
  | none => exact ⟨rfl, h⟩
  | some difference => exact absurd h (hc missing added)

theorem plain_fieldIn (other : FieldSet) (position : Nat) (tag : Option Literal)
    (same : Expr → Comparison) (members : List (String × Bool)) :
    Plain (fieldIn other position tag same members) := by
  induction members generalizing position with
  | nil => simp [Plain, fieldIn]
  | cons m ms ih =>
    refine Plain.orElse ?_ (ih (position + 1))
    unfold memberIn
    split
    · simp [Plain]
    · exact (plain_require _ _).orElse ((plain_within _ _).orElse (plain_within _ _))

theorem plain_compareAll (role : FieldRole) (position : Nat) (other : FieldSet)
    (fields : List Field) : Plain (Field.compareAll role position other fields) := by
  induction fields generalizing position with
  | nil => simp [Plain, Field.compareAll]
  | cons f fs ih =>
    rw [Field.compareAll]
    refine Plain.orElse ?_ (ih (position + f.width))
    cases f with
    | mk names ty tag =>
      rw [Field.compareMembers]
      exact plain_fieldIn _ _ _ _ _

/-- If only members are added, then all that are shared agree and none is missing. -/
theorem exists_of_fieldSets {role : FieldRole} {a b : List Field}
    {shared : FieldSet → Comparison} (hshared : ∀ other, Plain (shared other))
    {missing added : List String}
    (h : fieldSets role a b shared = some (.additional missing added)) :
    ∃ left right, FieldSet.ofFields role a = .ok left ∧ FieldSet.ofFields role b = .ok right ∧
      shared right = none ∧ added = right.keys.filter (!left.contains ·) ∧
      ∀ key ∈ left.keys, key ∈ right.keys := by
  unfold fieldSets at h
  split at h
  · simp at h
  · next left hleft =>
    split at h
    · simp at h
    · next right hright =>
      obtain ⟨hnone, h⟩ := (hshared right).eq_of_orElse h
      dsimp only at h
      split at h
      · simp at h
      · next hmissing =>
        split at h
        · simp only [Option.some.injEq, Difference.additional.injEq] at h
          refine ⟨left, right, hleft, hright, hnone, h.2.symm, fun key hkey => ?_⟩
          have hall : ∀ key ∈ left.keys, right.contains key = true := by simpa using hmissing
          simpa using hall key hkey
        · simp at h

end Comparison

namespace TypeSpec

/-- The struct `b` has the members of the struct `a` and some more, and each that is shared stays
equal under renamings of `b`. -/
structure Widens (rs : List Renaming) (added : List String) (a b : TypeSpec)
    (left right : FieldSet) : Prop where
  left_eq : ∃ fields, a.ty = .structType fields false ∧
    FieldSet.ofFields .member fields = .ok left
  right_eq : ∃ fields, b.ty = .structType fields false ∧
    FieldSet.ofFields .member fields = .ok right
  added_eq : added = right.keys.filter (!left.contains ·)
  shared : ∀ key ∈ left.keys, ∃ e e', left.get? key = some e ∧ right.get? key = some e' ∧
    e.embedded = e'.embedded ∧ e.tag = e'.tag ∧
      StaysEqual Expr.compare (fun r => Expr.rename r b.memberScope) (Expr.free b.memberScope) rs
        e.ty e'.ty

theorem exists_widens {a b : TypeSpec} {missing added : List String} {rs : List Renaming}
    (hrs : Renaming.Lengthen rs) (ha : a.ty.isStructType = true)
    (hb : b.ty.isStructType = true) (h : a.compare b = some (.additional missing added)) :
    ∃ left right, Widens rs added a b left right := by
  cases a with
  | mk name typeParams isAlias ty =>
    cases b with
    | mk name' typeParams' isAlias' ty' =>
      obtain ⟨-, h⟩ := (plain_require _ _).eq_of_orElse h
      obtain ⟨-, h⟩ := (plain_require _ _).eq_of_orElse h
      obtain ⟨hparams, h⟩ := (plain_within _ _).eq_of_orElse h
      have hparams := within_eq_none.1 hparams
      cases ty with
      | structType fields incomplete =>
        cases ty' with
        | structType fields' incomplete' =>
          obtain ⟨hcomplete, h⟩ := (plain_require _ _).eq_of_orElse h
          have hcomplete : incomplete = false ∧ incomplete' = false := by
            simpa [require] using hcomplete
          obtain ⟨rfl, rfl⟩ := hcomplete
          obtain ⟨left, right, hleft, hright, hshared, hadded, hkeys⟩ :=
            exists_of_fieldSets (fun other => plain_compareAll .member 0 other fields) h
          refine ⟨left, right, ⟨fields, rfl, hleft⟩, ⟨fields', rfl, hright⟩, hadded,
            fun key hkey => ?_⟩
          obtain ⟨e, he, hget, rfl⟩ := FieldSet.exists_get? hkey
          obtain ⟨e', -, hget', -⟩ := FieldSet.exists_get? (hkeys e.key hkey)
          rw [FieldSet.entries_of_ofFields hleft] at he
          obtain ⟨hembedded, htag, hty⟩ := Field.compareAll_eq_none_iff.1 hshared _ he _ hget'
          exact ⟨e, e', hget, hget', hembedded, htag, Expr.staysEqual
            (fun _ hname => agree_of_compare hname
              (a := ⟨name, typeParams, isAlias, .structType fields false⟩) hparams) hrs hty⟩
        | _ => simp [Expr.isStructType] at hb
      | _ => simp [Expr.isStructType] at ha

end TypeSpec

end GoWeave
