import GoWeave.Proofs.Equivalence.Normal

/-!
# What a comparison decides

Two trees compare as equal exactly if both are clean and have the same normal form. A comparison is
put together from the comparisons of the parts, and so is what it decides: the sites of a tree are
those of its parts, and its normal form is made of theirs. At a field list the parts are the
members, which are matched by their keys.
-/
namespace GoWeave

/-! ## Deciding a comparison -/

/-- A condition that holds of two subtrees exactly if the sites of both are clean and the subtrees
are the same in some respect, as long as no name can be taken for the key of a position. -/
def Decides (p : Prop) (left right : List Site) (same : Prop) : Prop :=
  (∀ s ∈ left, s.Unhashed) → (∀ s ∈ right, s.Unhashed) →
    (p ↔ (∀ s ∈ left, s.Clean) ∧ (∀ s ∈ right, s.Clean) ∧ same)

namespace Decides

open Comparison

variable {p p' same same' : Prop} {left left' right right' : List Site} {c d : Comparison}

theorem of_iff (h : p ↔ same) : Decides p [] [] same := by
  intro _ _
  simp [h]

theorem never (hp : ¬p) (hsame : ¬same) : Decides p left right same := by
  intro _ _
  exact iff_of_false hp fun h => hsame h.2.2

theorem congr (h : Decides p left right same) (hp : p' ↔ p) (hsame : same' ↔ same) :
    Decides p' left right same' := by
  intro hleft hright
  rw [hp, h hleft hright, hsame]

/-- Two trees of one constructor are the same if their parts are. -/
theorem inj {parts : Prop} (hinj : same' = parts) (hparts : parts ↔ same)
    (h : Decides p left right same) : Decides p left right same' := by
  rw [hinj]
  exact h.congr .rfl hparts

theorem and (h : Decides p left right same) (h' : Decides p' left' right' same') :
    Decides (p ∧ p') (left ++ left') (right ++ right') (same ∧ same') := by
  intro hleft hright
  rw [List.forall_mem_append] at hleft hright
  rw [h hleft.1 hright.1, h' hleft.2 hright.2, List.forall_mem_append, List.forall_mem_append]
  constructor
  · rintro ⟨⟨hl, hr, hs⟩, hl', hr', hs'⟩
    exact ⟨⟨hl, hl'⟩, ⟨hr, hr'⟩, hs, hs'⟩
  · rintro ⟨⟨hl, hl'⟩, ⟨hr, hr'⟩, hs, hs'⟩
    exact ⟨⟨hl, hr, hs⟩, hl', hr', hs'⟩

theorem within {what : String} (h : Decides (c = none) left right same) :
    Decides (c.within what = none) left right same :=
  h.congr within_eq_none .rfl

theorem orElse (h : Decides (c = none) left right same)
    (h' : Decides (d = none) left' right' same') :
    Decides ((c <|> d) = none) (left ++ left') (right ++ right') (same ∧ same') :=
  (h.and h').congr orElse_eq_none .rfl

/-- The part that is compared first stands last. -/
theorem orElse_swap (h : Decides (c = none) left right same)
    (h' : Decides (d = none) left' right' same') :
    Decides ((c <|> d) = none) (left' ++ left) (right' ++ right) (same' ∧ same) :=
  (h'.and h).congr (orElse_eq_none.trans and_comm) .rfl

theorem beq {α : Type} [BEq α] [LawfulBEq α] {what : String} (x y : α) :
    Decides (require (x == y) what = none) [] [] (x = y) :=
  of_iff (require_eq_none.trans beq_iff_eq)

theorem flags {what : String} (incomplete incomplete' : Bool) :
    Decides (require (!incomplete && !incomplete') what = none) (Site.flag incomplete)
      (Site.flag incomplete') (incomplete = incomplete') := by
  intro _ _
  cases incomplete <;> cases incomplete' <;> simp [Site.flag, Site.Clean]

theorem lists {α : Type} {what : String} {a b : List α} {pairwise : String → Comparison}
    (h : ∀ what, Decides (a.length = b.length ∧ pairwise what = none) left right same) :
    Decides (lists what a b pairwise = none) left right same :=
  (h what).congr lists_eq_none .rfl

theorem cons {α β : Type} {what : String} {x y : α} {xs ys : List α} {n n' : β} {ns ns' : List β}
    (h : Decides (c = none) left right (n = n'))
    (h' : Decides (xs.length = ys.length ∧ d = none) left' right' (ns = ns')) :
    Decides ((x :: xs).length = (y :: ys).length ∧ (c.within what <|> d) = none)
      (left ++ left') (right ++ right') (n :: ns = n' :: ns') := by
  apply (h.and h').congr
  · simp [and_left_comm]
  · rw [List.cons.injEq]

end Decides

/-! ## Field lists -/

/-- The sites in the types of some fields are those in the types of their entries. -/
theorem Field.forall_mem_sitesAll {P : Site → Prop} (role : FieldRole) (position : Nat)
    (fields : List Field) :
    (∀ s ∈ Field.sitesAll fields, P s) ↔
      ∀ e ∈ Field.entriesFrom role position fields, ∀ s ∈ e.ty.sites, P s := by
  induction fields generalizing position with
  | nil => simp [Field.sitesAll, Field.entriesFrom]
  | cons f fs ih =>
    have hfield : (∀ s ∈ f.ty.sites, P s) ↔
        ∀ e ∈ f.entries role position, ∀ s ∈ e.ty.sites, P s := by
      constructor
      · intro h e he
        obtain ⟨i, m, -, rfl⟩ := mem_entries.1 he
        exact h
      · intro h
        obtain ⟨e, he, hty⟩ := Field.exists_mem_entries role position f
        rw [← hty]
        exact h e he
    obtain ⟨names, ty, tag⟩ := f
    rw [Field.sitesAll, Field.entriesFrom, List.forall_mem_append, List.forall_mem_append,
      ih (position + Field.width ⟨names, ty, tag⟩), ← hfield]

/-- Two field lists are compared by their members if the types of the left one are compared by their
normal forms. -/
theorem Field.decides_fieldSets {role : FieldRole} {a b : List Field}
    (h : ∀ f ∈ a, ∀ y : Expr, Decides (f.ty.compare y = none) f.ty.sites y.sites
      (f.ty.normal = y.normal)) :
    Decides (Comparison.fieldSets role a b (fun other => Field.compareAll role 0 other a) = none)
      (.fields role a :: Field.sitesAll a) (.fields role b :: Field.sitesAll b)
      (Field.arrange (Field.normalMembers role 0 a) =
        Field.arrange (Field.normalMembers role 0 b)) := by
  intro hleft hright
  obtain ⟨hasha, hleft⟩ := List.forall_mem_cons.1 hleft
  obtain ⟨hashb, hright⟩ := List.forall_mem_cons.1 hright
  rw [Field.forall_mem_sitesAll role 0] at hleft hright
  have hagrees : ∀ e ∈ Field.entriesFrom role 0 a, ∀ e' ∈ Field.entriesFrom role 0 b,
      e.key = e'.key → (e.Agrees e' ↔ (∀ s ∈ e.ty.sites, s.Clean) ∧
        (∀ s ∈ e'.ty.sites, s.Clean) ∧ e.normal = e'.normal) := by
    intro e he e' he' hkey
    obtain ⟨f, hf, hty⟩ := Field.exists_field_of_mem_entriesFrom he
    have hcompare := h f hf e'.ty (hty ▸ hleft e he) (hright e' he')
    rw [← hty] at hcompare
    rw [FieldEntry.Agrees, hcompare]
    simp only [FieldEntry.normal, Field.Member.mk.injEq, hkey, true_and]
    tauto
  rw [Comparison.fieldSets_eq_none_iff hasha hashb, Field.compareAll_eq_none_iff,
    List.forall_mem_cons, List.forall_mem_cons, Field.forall_mem_sitesAll role 0,
    Field.forall_mem_sitesAll role 0, Field.normalMembers_eq, Field.normalMembers_eq]
  have hnodup := @FieldSet.nodup_keys role
  have hget (hdb : Field.Distinct role b) (key : String) (e : FieldEntry) :
      (FieldSet.ofEntries (Field.entriesFrom role 0 b)).get? key = some e ↔
        e ∈ Field.entriesFrom role 0 b ∧ key = e.key :=
    FieldSet.get?_eq_some_iff (s := .ofEntries _) (hnodup hdb hashb 0)
  constructor
  · rintro ⟨hda, hdb, hshared, hkeys⟩
    have hpairs : ∀ e ∈ Field.entriesFrom role 0 a, ∀ e' ∈ Field.entriesFrom role 0 b,
        e.key = e'.key → (∀ s ∈ e.ty.sites, s.Clean) ∧ (∀ s ∈ e'.ty.sites, s.Clean) ∧
          e.normal = e'.normal := by
      intro e he e' he' hkey
      apply (hagrees e he e' he' hkey).1
      apply hshared e he e'
      exact (hget hdb e.key e').2 ⟨he', hkey⟩
    obtain ⟨hca, hcb⟩ := FieldEntry.forall_of_matched hkeys fun e he e' he' hkey =>
      ⟨(hpairs e he e' he' hkey).1, (hpairs e he e' he' hkey).2.1⟩
    refine ⟨⟨hda, hca⟩, ⟨hdb, hcb⟩, ?_⟩
    rw [FieldEntry.arrange_eq_iff (hnodup hda hasha 0) (hnodup hdb hashb 0)]
    exact ⟨hkeys, fun e he e' he' hkey => (hpairs e he e' he' hkey).2.2⟩
  · rintro ⟨⟨hda, hca⟩, ⟨hdb, hcb⟩, harrange⟩
    rw [FieldEntry.arrange_eq_iff (hnodup hda hasha 0) (hnodup hdb hashb 0)] at harrange
    obtain ⟨hkeys, hsame⟩ := harrange
    refine ⟨hda, hdb, ?_, hkeys⟩
    intro e he e' hentry
    obtain ⟨he', hkey⟩ := (hget hdb e.key e').1 hentry
    exact (hagrees e he e' he' hkey).2 ⟨hca e he, hcb e' he', hsame e he e' he' hkey⟩

/-- An absent list of parameters is compared like an empty one. -/
theorem Field.decides_fieldSetsOpt {a b : Option (List Field)}
    (h : ∀ f ∈ a.getD [], ∀ y : Expr, Decides (f.ty.compare y = none) f.ty.sites y.sites
      (f.ty.normal = y.normal)) :
    Decides (Comparison.fieldSets .param (a.getD []) (b.getD [])
        (fun other => Field.compareAllOpt .param other a) = none)
      (Field.sitesOpt a) (Field.sitesOpt b)
      (some (Field.arrange (Field.normalMembersOpt a)) =
        some (Field.arrange (Field.normalMembersOpt b))) := by
  have hsites : ∀ (list : Option (List Field)) (P : Site → Prop), P (.fields .param []) →
      ((∀ s ∈ Field.sitesOpt list, P s) ↔
        ∀ s ∈ .fields .param (list.getD []) :: Field.sitesAll (list.getD []), P s) := by
    intro list P hempty
    cases list with
    | none => simpa [Field.sitesOpt, Field.sitesAll] using hempty
    | some list => exact .rfl
  have hmembers : ∀ list : Option (List Field),
      Field.normalMembersOpt list = Field.normalMembers .param 0 (list.getD []) := by
    intro list
    cases list <;> rfl
  have hshared : (fun other => Field.compareAllOpt .param other a) =
      fun other => Field.compareAll .param 0 other (a.getD []) := by
    cases a <;> rfl
  intro hleft hright
  have hclean : Site.Clean (.fields .param []) := List.nodup_nil
  have hunhashed : Site.Unhashed (.fields .param []) := by
    intro name hname
    cases hname
  rw [hsites _ _ hunhashed] at hleft hright
  rw [hsites _ _ hclean, hsites _ _ hclean, hmembers, hmembers, hshared, Option.some.injEq]
  exact Field.decides_fieldSets h hleft hright

/-! ## Trees -/

open Comparison Decides

mutual

/-- A comparison of two trees is decided by their normal forms. -/
theorem Expr.decides_compare (a b : Expr) :
    Decides (a.compare b = none) a.sites b.sites (a.normal = b.normal) := by
  match a with
  | .bad node =>
    intro _ _
    exact iff_of_false (Option.some_ne_none _) fun h => h.1 _ List.mem_cons_self
  | .ident x =>
    cases b with
    | ident y =>
      apply inj (Expr.ident.injEq ..) .rfl
      exact of_iff names_eq_none
    -- Another constructor is a difference, and it stays one in the normal form.
    | _ => exact .never (Option.some_ne_none _) nofun
  | .ellipsis x =>
    cases b with
    | ellipsis y =>
      apply inj (Expr.ellipsis.injEq ..) .rfl
      exact (Expr.decides_compareOpt x y).within
    | _ => exact .never (Option.some_ne_none _) nofun
  | .literal x =>
    cases b with
    | literal y =>
      apply inj (Expr.literal.injEq ..) .rfl
      exact of_iff literals_eq_none
    | _ => exact .never (Option.some_ne_none _) nofun
  | .funcLit sig body =>
    cases b with
    | funcLit sig' body' =>
      apply inj (Expr.funcLit.injEq ..) .rfl
      exact (Signature.decides_compare sig sig').within.orElse
        (lists (Stmt.decides_compareFrom · 0 body body')).within
    | _ => exact .never (Option.some_ne_none _) nofun
  | .composite ty elts incomplete =>
    cases b with
    | composite ty' elts' incomplete' =>
      -- The flag is compared first and comes last in the tree.
      apply inj (Expr.composite.injEq ..) and_rotate.symm
      exact (flags incomplete incomplete').orElse
        ((Expr.decides_compareOpt ty ty').within.orElse
          (lists (Expr.decides_compareFrom · 0 elts elts')))
    | _ => exact .never (Option.some_ne_none _) nofun
  | .paren x =>
    cases b with
    | paren y =>
      apply inj (Expr.paren.injEq ..) .rfl
      exact (Expr.decides_compare x y).within
    | _ => exact .never (Option.some_ne_none _) nofun
  | .selector x sel =>
    cases b with
    | selector y sel' =>
      apply inj (Expr.selector.injEq ..) and_comm
      exact (of_iff names_eq_none).within.orElse (Expr.decides_compare x y).within
    | _ => exact .never (Option.some_ne_none _) nofun
  | .index x arg =>
    cases b with
    | index y arg' =>
      apply inj (Expr.index.injEq ..) .rfl
      exact (Expr.decides_compare arg arg').within.orElse_swap (Expr.decides_compare x y).within
    | _ => exact .never (Option.some_ne_none _) nofun
  | .indexList x args =>
    cases b with
    | indexList y args' =>
      apply inj (Expr.indexList.injEq ..) .rfl
      exact (lists (Expr.decides_compareFrom · 0 args args')).orElse_swap
        (Expr.decides_compare x y).within
    | _ => exact .never (Option.some_ne_none _) nofun
  | .slice x low high max three =>
    cases b with
    | slice y low' high' max' three' =>
      exact inj (Expr.slice.injEq ..) (by tauto) ((beq _ _).orElse
        ((Expr.decides_compare x y).within.orElse
          ((Expr.decides_compareOpt low low').within.orElse
            ((Expr.decides_compareOpt high high').within.orElse
              (Expr.decides_compareOpt max max').within))))
    | _ => exact .never (Option.some_ne_none _) nofun
  | .typeAssert x ty =>
    cases b with
    | typeAssert y ty' =>
      apply inj (Expr.typeAssert.injEq ..) .rfl
      exact (Expr.decides_compare x y).within.orElse (Expr.decides_compareOpt ty ty').within
    | _ => exact .never (Option.some_ne_none _) nofun
  | .call fn args spread =>
    cases b with
    | call fn' args' spread' =>
      apply inj (Expr.call.injEq ..) and_rotate.symm
      exact (beq _ _).orElse
        ((Expr.decides_compare fn fn').within.orElse
          (lists (Expr.decides_compareFrom · 0 args args')))
    | _ => exact .never (Option.some_ne_none _) nofun
  | .star x =>
    cases b with
    | star y =>
      apply inj (Expr.star.injEq ..) .rfl
      exact (Expr.decides_compare x y).within
    | _ => exact .never (Option.some_ne_none _) nofun
  | .unary op x =>
    cases b with
    | unary op' y =>
      apply inj (Expr.unary.injEq ..) .rfl
      exact (of_iff tokens_eq_none).orElse (Expr.decides_compare x y).within
    | _ => exact .never (Option.some_ne_none _) nofun
  | .binary op x₁ x₂ =>
    cases b with
    | binary op' y₁ y₂ =>
      apply inj (Expr.binary.injEq ..) .rfl
      exact (of_iff tokens_eq_none).orElse
        ((Expr.decides_compare x₁ y₁).within.orElse (Expr.decides_compare x₂ y₂).within)
    | _ => exact .never (Option.some_ne_none _) nofun
  | .keyValue key value =>
    cases b with
    | keyValue key' value' =>
      apply inj (Expr.keyValue.injEq ..) .rfl
      exact (Expr.decides_compare key key').within.orElse
        (Expr.decides_compare value value').within
    | _ => exact .never (Option.some_ne_none _) nofun
  | .arrayType len elt =>
    cases b with
    | arrayType len' elt' =>
      apply inj (Expr.arrayType.injEq ..) .rfl
      exact (Expr.decides_compareOpt len len').within.orElse
        (Expr.decides_compare elt elt').within
    | _ => exact .never (Option.some_ne_none _) nofun
  | .structType fields incomplete =>
    cases b with
    | structType fields' incomplete' =>
      apply inj (Expr.structType.injEq ..) and_comm
      exact (flags incomplete incomplete').orElse
        (Field.decides_fieldSets (Field.decides_types fields))
    | _ => exact .never (Option.some_ne_none _) nofun
  | .funcType sig =>
    cases b with
    | funcType sig' =>
      apply inj (Expr.funcType.injEq ..) .rfl
      exact Signature.decides_compare sig sig'
    | _ => exact .never (Option.some_ne_none _) nofun
  | .interfaceType methods incomplete =>
    cases b with
    | interfaceType methods' incomplete' =>
      apply inj (Expr.interfaceType.injEq ..) and_comm
      exact (flags incomplete incomplete').orElse
        (Field.decides_fieldSets (Field.decides_types methods))
    | _ => exact .never (Option.some_ne_none _) nofun
  | .mapType key value =>
    cases b with
    | mapType key' value' =>
      apply inj (Expr.mapType.injEq ..) .rfl
      exact (Expr.decides_compare key key').within.orElse
        (Expr.decides_compare value value').within
    | _ => exact .never (Option.some_ne_none _) nofun
  | .chanType dir value =>
    cases b with
    | chanType dir' value' =>
      apply inj (Expr.chanType.injEq ..) .rfl
      exact (beq _ _).orElse
        (Expr.decides_compare value value').within
    | _ => exact .never (Option.some_ne_none _) nofun
termination_by structural a

theorem Expr.decides_compareOpt (a b : Option Expr) :
    Decides (Expr.compareOpt a b = none) (Expr.sitesOpt a) (Expr.sitesOpt b)
      (Expr.normalOpt a = Expr.normalOpt b) := by
  match a with
  | none =>
    cases b with
    | none => exact of_iff (iff_of_true rfl rfl)
    | some y => exact .never (Option.some_ne_none _) nofun
  | some x =>
    cases b with
    | none => exact .never (Option.some_ne_none _) nofun
    | some y => exact inj (Option.some.injEq ..) .rfl (Expr.decides_compare x y)
termination_by structural a

theorem Expr.decides_compareFrom (what : String) (i : Nat) (a b : List Expr) :
    Decides (a.length = b.length ∧ Expr.compareFrom what i a b = none) (Expr.sitesAll a)
      (Expr.sitesAll b) (Expr.normalAll a = Expr.normalAll b) := by
  match a with
  | [] =>
    cases b with
    | nil => exact of_iff (iff_of_true ⟨rfl, rfl⟩ rfl)
    | cons y ys => exact .never nofun nofun
  | x :: xs =>
    cases b with
    | nil => exact .never nofun nofun
    | cons y ys =>
      exact (Expr.decides_compare x y).cons (Expr.decides_compareFrom what (i + 1) xs ys)
termination_by structural a

theorem Field.decides_types (fields : List Field) :
    ∀ f ∈ fields, ∀ y : Expr, Decides (f.ty.compare y = none) f.ty.sites y.sites
      (f.ty.normal = y.normal) := by
  match fields with
  | [] => exact List.forall_mem_nil _
  | ⟨_, ty, _⟩ :: fs =>
    exact List.forall_mem_cons.2 ⟨fun y => Expr.decides_compare ty y, Field.decides_types fs⟩
termination_by structural fields

theorem Field.decides_typesOpt (fields : Option (List Field)) :
    ∀ f ∈ fields.getD [], ∀ y : Expr, Decides (f.ty.compare y = none) f.ty.sites y.sites
      (f.ty.normal = y.normal) := by
  match fields with
  | none => exact List.forall_mem_nil _
  | some fields => exact Field.decides_types fields
termination_by structural fields

theorem Signature.decides_compare (a b : Signature) :
    Decides (a.compare b = none) a.sites b.sites (a.normal = b.normal) := by
  match a with
  | ⟨typeParams, params, results⟩ =>
    obtain ⟨typeParams', params', results'⟩ := b
    apply inj (Signature.mk.injEq ..) .rfl
    exact (Field.decides_fieldSetsOpt (Field.decides_typesOpt typeParams)).within.orElse
      ((Field.decides_fieldSets (Field.decides_types params)).within.orElse
        (Field.decides_fieldSetsOpt (Field.decides_typesOpt results)).within)
termination_by structural a

theorem Stmt.decides_compare (a b : Stmt) :
    Decides (a.compare b = none) a.sites b.sites (a.normal = b.normal) := by
  match a with
  | .bad node =>
    intro _ _
    exact iff_of_false (Option.some_ne_none _) fun h => h.1 _ List.mem_cons_self
  | .decl group =>
    cases b with
    | decl group' =>
      apply inj (Stmt.decl.injEq ..) .rfl
      exact DeclGroup.decides_compare group group'
    | _ => exact .never (Option.some_ne_none _) nofun
  | .empty =>
    cases b with
    | empty => exact of_iff (iff_of_true rfl rfl)
    | _ => exact .never (Option.some_ne_none _) nofun
  | .labeled label s =>
    cases b with
    | labeled label' s' =>
      apply inj (Stmt.labeled.injEq ..) .rfl
      exact (of_iff names_eq_none).within.orElse (Stmt.decides_compare s s')
    | _ => exact .never (Option.some_ne_none _) nofun
  | .expr x =>
    cases b with
    | expr y =>
      apply inj (Stmt.expr.injEq ..) .rfl
      exact Expr.decides_compare x y
    | _ => exact .never (Option.some_ne_none _) nofun
  | .send chan value =>
    cases b with
    | send chan' value' =>
      apply inj (Stmt.send.injEq ..) .rfl
      exact (Expr.decides_compare chan chan').within.orElse
        (Expr.decides_compare value value').within
    | _ => exact .never (Option.some_ne_none _) nofun
  | .incDec x tok =>
    cases b with
    | incDec y tok' =>
      apply inj (Stmt.incDec.injEq ..) and_comm
      exact (of_iff tokens_eq_none).orElse (Expr.decides_compare x y)
    | _ => exact .never (Option.some_ne_none _) nofun
  | .assign lhs tok rhs =>
    cases b with
    | assign lhs' tok' rhs' =>
      apply inj (Stmt.assign.injEq ..) and_left_comm
      exact (of_iff tokens_eq_none).orElse
        ((lists (Expr.decides_compareFrom · 0 lhs lhs')).orElse
          (lists (Expr.decides_compareFrom · 0 rhs rhs')))
    | _ => exact .never (Option.some_ne_none _) nofun
  | .goCall x =>
    cases b with
    | goCall y =>
      apply inj (Stmt.goCall.injEq ..) .rfl
      exact Expr.decides_compare x y
    | _ => exact .never (Option.some_ne_none _) nofun
  | .deferCall x =>
    cases b with
    | deferCall y =>
      apply inj (Stmt.deferCall.injEq ..) .rfl
      exact Expr.decides_compare x y
    | _ => exact .never (Option.some_ne_none _) nofun
  | .ret results =>
    cases b with
    | ret results' =>
      apply inj (Stmt.ret.injEq ..) .rfl
      exact lists (Expr.decides_compareFrom · 0 results results')
    | _ => exact .never (Option.some_ne_none _) nofun
  | .branch tok label =>
    cases b with
    | branch tok' label' =>
      apply inj (Stmt.branch.injEq ..) .rfl
      exact (of_iff tokens_eq_none).orElse
        (of_iff (optional_eq_none_iff fun _ _ => names_eq_none)).within
    | _ => exact .never (Option.some_ne_none _) nofun
  | .block list =>
    cases b with
    | block list' =>
      apply inj (Stmt.block.injEq ..) .rfl
      exact lists (Stmt.decides_compareFrom · 0 list list')
    | _ => exact .never (Option.some_ne_none _) nofun
  | .ifElse init cond body orElse =>
    cases b with
    | ifElse init' cond' body' orElse' =>
      apply inj (Stmt.ifElse.injEq ..) .rfl
      exact (Stmt.decides_compareOpt init init').within.orElse
        ((Expr.decides_compare cond cond').within.orElse
          ((lists (Stmt.decides_compareFrom · 0 body body')).within.orElse
            (Stmt.decides_compareOpt orElse orElse').within))
    | _ => exact .never (Option.some_ne_none _) nofun
  | .switch init tag body =>
    cases b with
    | switch init' tag' body' =>
      apply inj (Stmt.switch.injEq ..) .rfl
      exact (Stmt.decides_compareOpt init init').within.orElse
        ((Expr.decides_compareOpt tag tag').within.orElse
          (lists (Clause.decides_compareFrom · 0 body body')))
    | _ => exact .never (Option.some_ne_none _) nofun
  | .typeSwitch init guard body =>
    cases b with
    | typeSwitch init' guard' body' =>
      apply inj (Stmt.typeSwitch.injEq ..) .rfl
      exact (Stmt.decides_compareOpt init init').within.orElse
        ((Stmt.decides_compare guard guard').within.orElse
          (lists (Clause.decides_compareFrom · 0 body body')))
    | _ => exact .never (Option.some_ne_none _) nofun
  | .loop init cond post body =>
    cases b with
    | loop init' cond' post' body' =>
      apply inj (Stmt.loop.injEq ..) .rfl
      exact (Stmt.decides_compareOpt init init').within.orElse
        ((Expr.decides_compareOpt cond cond').within.orElse
          ((Stmt.decides_compareOpt post post').within.orElse
            (lists (Stmt.decides_compareFrom · 0 body body')).within))
    | _ => exact .never (Option.some_ne_none _) nofun
  | .range key value tok x body =>
    cases b with
    | range key' value' tok' y body' =>
      exact inj (Stmt.range.injEq ..) (by tauto) ((beq _ _).orElse
        ((Expr.decides_compareOpt key key').within.orElse
          ((Expr.decides_compareOpt value value').within.orElse
            ((Expr.decides_compare x y).within.orElse
              (lists (Stmt.decides_compareFrom · 0 body body')).within))))
    | _ => exact .never (Option.some_ne_none _) nofun
termination_by structural a

theorem Stmt.decides_compareOpt (a b : Option Stmt) :
    Decides (Stmt.compareOpt a b = none) (Stmt.sitesOpt a) (Stmt.sitesOpt b)
      (Stmt.normalOpt a = Stmt.normalOpt b) := by
  match a with
  | none =>
    cases b with
    | none => exact of_iff (iff_of_true rfl rfl)
    | some y => exact .never (Option.some_ne_none _) nofun
  | some x =>
    cases b with
    | none => exact .never (Option.some_ne_none _) nofun
    | some y => exact inj (Option.some.injEq ..) .rfl (Stmt.decides_compare x y)
termination_by structural a

theorem Stmt.decides_compareFrom (what : String) (i : Nat) (a b : List Stmt) :
    Decides (a.length = b.length ∧ Stmt.compareFrom what i a b = none) (Stmt.sitesAll a)
      (Stmt.sitesAll b) (Stmt.normalAll a = Stmt.normalAll b) := by
  match a with
  | [] =>
    cases b with
    | nil => exact of_iff (iff_of_true ⟨rfl, rfl⟩ rfl)
    | cons y ys => exact .never nofun nofun
  | x :: xs =>
    cases b with
    | nil => exact .never nofun nofun
    | cons y ys =>
      exact (Stmt.decides_compare x y).cons (Stmt.decides_compareFrom what (i + 1) xs ys)
termination_by structural a

theorem Clause.decides_compare (a b : Clause) :
    Decides (a.compare b = none) a.sites b.sites (a.normal = b.normal) := by
  match a with
  | .matching list body =>
    cases b with
    | matching list' body' =>
      apply inj (Clause.matching.injEq ..) .rfl
      exact (lists (Expr.decides_compareFrom · 0 list list')).orElse
        (lists (Stmt.decides_compareFrom · 0 body body'))
    | otherwise body' => exact .never (Option.some_ne_none _) nofun
  | .otherwise body =>
    cases b with
    | matching list' body' => exact .never (Option.some_ne_none _) nofun
    | otherwise body' =>
      apply inj (Clause.otherwise.injEq ..) .rfl
      exact lists (Stmt.decides_compareFrom · 0 body body')
termination_by structural a

theorem Clause.decides_compareFrom (what : String) (i : Nat) (a b : List Clause) :
    Decides (a.length = b.length ∧ Clause.compareFrom what i a b = none) (Clause.sitesAll a)
      (Clause.sitesAll b) (Clause.normalAll a = Clause.normalAll b) := by
  match a with
  | [] =>
    cases b with
    | nil => exact of_iff (iff_of_true ⟨rfl, rfl⟩ rfl)
    | cons y ys => exact .never nofun nofun
  | x :: xs =>
    cases b with
    | nil => exact .never nofun nofun
    | cons y ys =>
      exact (Clause.decides_compare x y).cons (Clause.decides_compareFrom what (i + 1) xs ys)
termination_by structural a

theorem ValueSpec.decides_compare (a b : ValueSpec) :
    Decides (a.compare b = none) a.sites b.sites (a.normal = b.normal) := by
  match a with
  | ⟨names, ty, values⟩ =>
    obtain ⟨names', ty', values'⟩ := b
    apply inj (ValueSpec.mk.injEq ..) and_left_comm
    exact (Expr.decides_compareOpt ty ty').within.orElse
      ((lists fun _ => of_iff nameLists_eq_none_iff).orElse
        (lists (Expr.decides_compareFrom · 0 values values')))
termination_by structural a

theorem TypeSpec.decides_compare (a b : TypeSpec) :
    Decides (a.compare b = none) a.sites b.sites (a.normal = b.normal) := by
  match a with
  | ⟨name, typeParams, isAlias, ty⟩ =>
    obtain ⟨name', typeParams', isAlias', ty'⟩ := b
    apply inj (TypeSpec.mk.injEq ..) (and_congr_right' and_left_comm)
    exact (of_iff names_eq_none).orElse ((beq _ _).orElse
      ((Field.decides_fieldSetsOpt (Field.decides_typesOpt typeParams)).within.orElse
        (Expr.decides_compare ty ty')))
termination_by structural a

theorem Spec.decides_compare (a b : Spec) :
    Decides (a.compare b = none) a.sites b.sites (a.normal = b.normal) := by
  match a with
  | .imported spec =>
    cases b with
    | imported spec' =>
      apply inj ((Spec.imported.injEq ..).trans (ImportSpec.mk.injEq ..)) .rfl
      exact (of_iff (optional_eq_none_iff fun _ _ => names_eq_none)).within.orElse
        (of_iff literals_eq_none)
    | _ => exact .never (Option.some_ne_none _) nofun
  | .value spec =>
    cases b with
    | value spec' => exact inj (Spec.value.injEq ..) .rfl (ValueSpec.decides_compare spec spec')
    | _ => exact .never (Option.some_ne_none _) nofun
  | .type spec =>
    cases b with
    | type spec' => exact inj (Spec.type.injEq ..) .rfl (TypeSpec.decides_compare spec spec').within
    | _ => exact .never (Option.some_ne_none _) nofun
termination_by structural a

theorem Spec.decides_compareFrom (what : String) (i : Nat) (a b : List Spec) :
    Decides (a.length = b.length ∧ Spec.compareFrom what i a b = none) (Spec.sitesAll a)
      (Spec.sitesAll b) (Spec.normalAll a = Spec.normalAll b) := by
  match a with
  | [] =>
    cases b with
    | nil => exact of_iff (iff_of_true ⟨rfl, rfl⟩ rfl)
    | cons y ys => exact .never nofun nofun
  | x :: xs =>
    cases b with
    | nil => exact .never nofun nofun
    | cons y ys =>
      exact (Spec.decides_compare x y).cons (Spec.decides_compareFrom what (i + 1) xs ys)
termination_by structural a

theorem DeclGroup.decides_compare (a b : DeclGroup) :
    Decides (a.compare b = none) a.sites b.sites (a.normal = b.normal) := by
  match a with
  | ⟨tok, specs, _⟩ =>
    obtain ⟨tok', specs', _⟩ := b
    apply inj (DeclGroup.mk.injEq ..) (and_congr_right' (and_iff_left rfl))
    exact (of_iff tokens_eq_none).orElse (lists (Spec.decides_compareFrom · 0 specs specs'))
termination_by structural a

end

theorem FuncDecl.decides_compare (a b : FuncDecl) :
    Decides (a.compare b = none) a.sites b.sites (a.normal = b.normal) := by
  have hbody : ∀ a b : Option (List Stmt),
      Decides (optional (fun x y => Comparison.lists "block" x y (Stmt.compareFrom · 0 x y)) a b =
        none) (Stmt.sitesAll (a.getD [])) (Stmt.sitesAll (b.getD []))
        (a.map Stmt.normalAll = b.map Stmt.normalAll) := by
    intro a b
    cases a with
    | none =>
      cases b with
      | none => exact of_iff (iff_of_true rfl rfl)
      | some y => exact .never (Option.some_ne_none _) nofun
    | some x =>
      cases b with
      | none => exact .never (Option.some_ne_none _) nofun
      | some y =>
        exact inj (Option.some.injEq ..) .rfl (lists (Stmt.decides_compareFrom · 0 x y))
  apply inj (FuncDecl.mk.injEq ..) and_left_comm
  exact (of_iff names_eq_none).orElse
    ((Field.decides_fieldSetsOpt (Field.decides_typesOpt a.recv)).within.orElse
      ((Signature.decides_compare a.sig b.sig).within.orElse (hbody a.body b.body).within))

/-! ## Nodes -/

namespace Node

def sites : Node → List Site
  | expr x => x.sites
  | stmt s => s.sites
  | block list => Stmt.sitesAll list
  | func f => f.sites
  | group g => g.sites
  | typeSpec spec => spec.sites
  | valueSpec spec => spec.sites
  | fields list => .fields .member list :: Field.sitesAll list

/-- Nothing in the tree is bad or incomplete, and no field list has a name twice. -/
def Clean (a : Node) : Prop :=
  ∀ s ∈ a.sites, s.Clean

/-- No name in a field list of the tree can be taken for the key of a position. -/
def Unhashed (a : Node) : Prop :=
  ∀ s ∈ a.sites, s.Unhashed

instance (a : Node) : Decidable a.Clean :=
  inferInstanceAs (Decidable (∀ s ∈ a.sites, s.Clean))

instance (a : Node) : Decidable a.Unhashed :=
  inferInstanceAs (Decidable (∀ s ∈ a.sites, s.Unhashed))

theorem decides_compare (a b : Node) :
    Decides (a.compare b = none) a.sites b.sites (a.normal = b.normal) := by
  cases a with
  | expr x =>
    cases b with
    | expr y => exact inj (Node.expr.injEq ..) .rfl (Expr.decides_compare x y)
    | _ => exact .never (Option.some_ne_none _) nofun
  | stmt x =>
    cases b with
    | stmt y => exact inj (Node.stmt.injEq ..) .rfl (Stmt.decides_compare x y)
    | _ => exact .never (Option.some_ne_none _) nofun
  | block x =>
    cases b with
    | block y => exact inj (Node.block.injEq ..) .rfl (lists (Stmt.decides_compareFrom · 0 x y))
    | _ => exact .never (Option.some_ne_none _) nofun
  | func x =>
    cases b with
    | func y => exact inj (Node.func.injEq ..) .rfl (FuncDecl.decides_compare x y)
    | _ => exact .never (Option.some_ne_none _) nofun
  | group x =>
    cases b with
    | group y => exact inj (Node.group.injEq ..) .rfl (DeclGroup.decides_compare x y)
    | _ => exact .never (Option.some_ne_none _) nofun
  | typeSpec x =>
    cases b with
    | typeSpec y => exact inj (Node.typeSpec.injEq ..) .rfl (TypeSpec.decides_compare x y)
    | _ => exact .never (Option.some_ne_none _) nofun
  | valueSpec x =>
    cases b with
    | valueSpec y => exact inj (Node.valueSpec.injEq ..) .rfl (ValueSpec.decides_compare x y)
    | _ => exact .never (Option.some_ne_none _) nofun
  | fields x =>
    cases b with
    | fields y =>
      exact inj (Node.fields.injEq ..) .rfl (Field.decides_fieldSets (Field.decides_types x))
    | _ => exact .never (Option.some_ne_none _) nofun

/-- Two trees compare as equal exactly if both are clean and have one normal form. So the comparison
is an equivalence on clean trees. -/
theorem compare_eq_none_iff {a b c : Node} (ha : a.Unhashed) (hb : b.Unhashed) (hc : c.Unhashed) :
    (a.compare b = none ↔ a.Clean ∧ b.Clean ∧ a.normal = b.normal) ∧
      (a.Clean → a.compare a = none) ∧
      (a.compare b = none → b.compare a = none) ∧
      (a.compare b = none → b.compare c = none → a.compare c = none) := by
  have hiff : ∀ {a b : Node}, a.Unhashed → b.Unhashed →
      (a.compare b = none ↔ a.Clean ∧ b.Clean ∧ a.normal = b.normal) :=
    fun {a b} ha hb => decides_compare a b ha hb
  refine ⟨hiff ha hb, ?_, ?_, ?_⟩
  · intro hclean
    exact (hiff ha ha).2 ⟨hclean, hclean, rfl⟩
  · intro hab
    obtain ⟨hleft, hright, hsame⟩ := (hiff ha hb).1 hab
    exact (hiff hb ha).2 ⟨hright, hleft, hsame.symm⟩
  · intro hab hbc
    obtain ⟨hleft, -, hsame⟩ := (hiff ha hb).1 hab
    obtain ⟨-, hright, hsame'⟩ := (hiff hb hc).1 hbc
    exact (hiff ha hc).2 ⟨hleft, hright, hsame.trans hsame'⟩

/-- Three ways to write a struct type with a blank, an embedded and a function member. -/
theorem compare_eq_none_iff_struct :
    let int := Expr.ident "int"
    let embedded : Field := ⟨[], .star (.ident "T"), none⟩
    let a := Node.expr (.structType [⟨["x", "_"], int, none⟩, embedded,
      ⟨["f"], .funcType ⟨none, [⟨["p", "q"], int, none⟩], none⟩, none⟩] false)
    let b := Node.expr (.structType [embedded, ⟨["_", "x"], int, none⟩,
      ⟨["f"], .funcType ⟨some [], [⟨["q"], int, none⟩, ⟨["p"], int, none⟩], some []⟩, none⟩] false)
    let c := Node.expr (.structType [
      ⟨["f"], .funcType ⟨none, [⟨["q", "p"], int, none⟩], some []⟩, none⟩,
      ⟨["_"], int, none⟩, embedded, ⟨["x"], int, none⟩] false)
    (a.Unhashed ∧ b.Unhashed ∧ c.Unhashed) ∧ (a.compare b = none ∧ b.compare c = none) ∧
      (a.Clean ∧ b.Clean ∧ a.normal = b.normal) ∧ a.compare a = none ∧ b.compare a = none ∧
      a.compare c = none := by
  intro int embedded a b c
  have ha : a.Unhashed := by decide
  have hb : b.Unhashed := by decide
  have hc : c.Unhashed := by decide
  have hab : a.compare b = none := by decide +kernel
  have hbc : b.compare c = none := by decide +kernel
  obtain ⟨hiff, hself, hsymm, htrans⟩ := compare_eq_none_iff ha hb hc
  have hclean := hiff.1 hab
  exact ⟨⟨ha, hb, hc⟩, ⟨hab, hbc⟩, hclean, hself hclean.1, hsymm hab, htrans hab hbc⟩

end Node

/-! ## Reflexivity -/

/-- What comparable sites leave of a decision about a tree and itself. -/
theorem Decides.of_comparable {p same : Prop} {sites : List Site} (h : Decides p sites sites same)
    (hsites : ∀ s ∈ sites, s.Comparable) (hsame : same) : p := by
  have hclean : ∀ s ∈ sites, s.Clean := fun s hs => (Site.comparable_iff.1 (hsites s hs)).1
  have hunhashed : ∀ s ∈ sites, s.Unhashed := fun s hs => (Site.comparable_iff.1 (hsites s hs)).2
  exact (h hunhashed hunhashed).2 ⟨hclean, hclean, hsame⟩

theorem ValueSpec.compare_self (v : ValueSpec) (h : ∀ t ∈ v.sites, t.Comparable) :
    v.compare v = none :=
  (v.decides_compare v).of_comparable h rfl

theorem TypeSpec.compare_self (t : TypeSpec) (h : ∀ s ∈ t.sites, s.Comparable) :
    t.compare t = none :=
  (t.decides_compare t).of_comparable h rfl

theorem FuncDecl.compare_self (f : FuncDecl) (h : ∀ s ∈ f.sites, s.Comparable) :
    f.compare f = none :=
  (f.decides_compare f).of_comparable h rfl

end GoWeave
