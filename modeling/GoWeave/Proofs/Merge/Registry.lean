import GoWeave.Proofs.Declaration.Descent
import GoWeave.Proofs.Equivalence.Fields
import GoWeave.Proofs.Merge.Outcome

/-!
# The registry

The registry of a merger is the index of its declarations: it knows exactly the keys they bear, each
with the first slot of the key. Imports and widenings change declarations in place and move no slot,
and what a unit leaves is registered as it is appended, so this holds after any units, also after
units that fail.
-/
namespace GoWeave

/-! ## Changes that move no slot -/

namespace Decl

theorem slotsFrom_modify {f : Decl → Decl} (hf : ∀ d i, (f d).slots i = d.slots i) (n i : Nat)
    (decls : List Decl) : slotsFrom n (decls.modify i f) = slotsFrom n decls := by
  induction decls generalizing n i with
  | nil => cases i <;> rfl
  | cons d ds ih =>
    cases i with
    | zero => simp only [List.modify_zero_cons, slotsFrom, hf]
    | succ i => simp only [List.modify_succ_cons, slotsFrom, ih]

theorem headsAll_modify {f : Decl → Decl} (hf : ∀ d, (f d).heads = d.heads) (i : Nat)
    (decls : List Decl) : headsAll (decls.modify i f) = headsAll decls := by
  induction decls generalizing i with
  | nil => cases i <;> rfl
  | cons d ds ih =>
    cases i with
    | zero => simp only [List.modify_zero_cons, headsAll_cons, hf]
    | succ i => simp only [List.modify_succ_cons, headsAll_cons, ih]

theorem slots_group_append_import (g : DeclGroup) (spec : ImportSpec) (i : Nat) :
    slots i (.group { g with specs := g.specs ++ [.imported spec] }) = slots i (.group g) := by
  simp only [slots]
  split
  · rfl
  · simp [List.zipIdx_append, Spec.slots]

theorem heads_group_append_import (g : DeclGroup) (spec : ImportSpec) :
    heads (.group { g with specs := g.specs ++ [.imported spec] }) = heads (.group g) := by
  simp only [heads]
  split
  · rfl
  · simp [Spec.heads]

theorem heads_group_modify {f : Spec → Spec} (hf : ∀ s, (f s).heads = s.heads)
    (g : DeclGroup) (j : Nat) :
    heads (.group { g with specs := g.specs.modify j f }) = heads (.group g) := by
  have h : ∀ (j : Nat) (specs : List Spec),
      (specs.modify j f).flatMap Spec.heads = specs.flatMap Spec.heads := by
    intro j specs
    induction specs generalizing j with
    | nil => cases j <;> rfl
    | cons s ss ih =>
      cases j with
      | zero => simp only [List.modify_zero_cons, List.flatMap_cons, hf]
      | succ j => simp only [List.modify_succ_cons, List.flatMap_cons, ih]
  simp only [heads, h]

theorem slots_group_modify {f : Spec → Spec} (hf : ∀ s i j, (f s).slots i j = s.slots i j)
    (g : DeclGroup) (i j : Nat) :
    slots i (.group { g with specs := g.specs.modify j f }) = slots i (.group g) := by
  have h : ∀ (n j : Nat) (specs : List Spec),
      ((specs.modify j f).zipIdx n).flatMap (fun (p : Spec × Nat) => p.1.slots i p.2) =
        (specs.zipIdx n).flatMap fun (p : Spec × Nat) => p.1.slots i p.2 := by
    intro n j specs
    induction specs generalizing n j with
    | nil => cases j <;> rfl
    | cons s ss ih =>
      cases j with
      | zero => simp only [List.modify_zero_cons, List.zipIdx_cons, List.flatMap_cons, hf]
      | succ j => simp only [List.modify_succ_cons, List.zipIdx_cons, List.flatMap_cons, ih]
  simp only [slots]
  split
  · rfl
  · exact h 0 j g.specs

theorem slotsFrom_modifyTypeSpec {f : TypeSpec → TypeSpec} (hf : ∀ t, (f t).name = t.name)
    (n : Nat) (decls : List Decl) (slot : Slot) :
    slotsFrom n (modifyTypeSpec decls slot f) = slotsFrom n decls := by
  cases slot with
  | func i => rfl
  | value i j k => rfl
  | type i j =>
    refine slotsFrom_modify (fun d i => ?_) n i decls
    cases d with
    | bad node => rfl
    | func f => rfl
    | group g =>
      refine slots_group_modify (fun s i j => ?_) g i j
      cases s with
      | imported spec => rfl
      | value v => rfl
      | type t => simp only [Spec.slots, hf]

theorem headsAll_modifyTypeSpec {f : TypeSpec → TypeSpec}
    (hf : ∀ t, (Spec.type (f t)).heads = (Spec.type t).heads) (decls : List Decl) (slot : Slot) :
    headsAll (modifyTypeSpec decls slot f) = headsAll decls := by
  cases slot with
  | func i => rfl
  | value i j k => rfl
  | type i j =>
    refine headsAll_modify (fun d => ?_) i decls
    cases d with
    | bad node => rfl
    | func f => rfl
    | group g =>
      refine heads_group_modify (fun s => ?_) g j
      cases s with
      | imported spec => rfl
      | value v => rfl
      | type t => exact hf t

end Decl

theorem TypeSpec.addFields_name (fields : List Field) (t : TypeSpec) :
    (t.addFields fields).name = t.name := by
  unfold addFields
  split <;> rfl

theorem TypeSpec.heads_addFields (fields : List Field) (t : TypeSpec) :
    (Spec.type (t.addFields fields)).heads = (Spec.type t).heads := by
  unfold addFields
  split
  · next h => simp [Spec.heads, h, Expr.isStructType]
  · rfl

/-! ## Functions of one key -/

namespace FuncDecl

variable {f g : FuncDecl} {key : String}

theorem name_eq_of_compare (h : f.compare g = none) : f.name = g.name :=
  Comparison.names_eq_none.1 (Comparison.orElse_eq_none.1 h).1

theorem eq_name_or_qualified (hkey : f.head.key? = some key) :
    f.head.isMethod = false ∧ key = f.name ∨
      f.head.isMethod = true ∧ ∃ recv, key = recv ++ "." ++ f.name := by
  cases hm : f.head.isMethod with
  | false =>
    have hplain := (Head.plain?_of_key? hkey hm).1
    rw [isMethod_head] at hm
    rw [FuncDecl.head, hm] at hplain
    exact .inl ⟨rfl, (Option.some.inj hplain).symm⟩
  | true =>
    obtain ⟨recv, name, hhead, -, rfl⟩ := Head.method_of_key? hkey hm
    obtain ⟨-, rfl⟩ := Head.method.inj ((head_of_method hm f.name).1.symm.trans hhead)
    exact .inr ⟨rfl, recv, rfl⟩

/-- Of two functions of one name and one key both are methods, or neither is: the key of a method is
longer than its name. -/
theorem isMethod_head_eq (hname : f.name = g.name) (hf : f.head.key? = some key)
    (hg : g.head.key? = some key) : f.head.isMethod = g.head.isMethod := by
  have hlonger : ∀ recv name : String, name ≠ recv ++ "." ++ name := by
    intro recv name h
    have hlength := congrArg String.length h
    have hdot : ".".length = 1 := rfl
    simp only [String.length_append] at hlength
    omega
  rcases eq_name_or_qualified hf with ⟨hmf, hkf⟩ | ⟨hmf, recv, hkf⟩
  · rcases eq_name_or_qualified hg with ⟨hmg, -⟩ | ⟨-, recv', hkg⟩
    · rw [hmf, hmg]
    · rw [hkf, hname] at hkg
      exact absurd hkg (hlonger recv' g.name)
  · rcases eq_name_or_qualified hg with ⟨-, hkg⟩ | ⟨hmg, -⟩
    · rw [hkf, hname] at hkg
      exact absurd hkg.symm (hlonger recv g.name)
    · rw [hmf, hmg]

end FuncDecl

namespace Merger

/-- Two mergers with the same keys at the same slots. -/
structure SameSlots (m m' : Merger) : Prop where
  registry : m'.registry = m.registry
  slots : Decl.slotsFrom 0 m'.decls = Decl.slotsFrom 0 m.decls
  heads : Decl.headsAll m'.decls = Decl.headsAll m.decls

theorem SameSlots.refl (m : Merger) : SameSlots m m :=
  ⟨rfl, rfl, rfl⟩

theorem SameSlots.trans {m m' m'' : Merger} (h : SameSlots m m') (h' : SameSlots m' m'') :
    SameSlots m m'' :=
  ⟨h'.registry.trans h.registry, h'.slots.trans h.slots, h'.heads.trans h.heads⟩

theorem sameSlots_addImport (m : Merger) (spec : ImportSpec) : SameSlots m (m.addImport spec) := by
  unfold addImport
  split
  · refine ⟨rfl, Decl.slotsFrom_modify (fun d i => ?_) _ _ _,
      Decl.headsAll_modify (fun d => ?_) _ _⟩
    · cases d with
      | bad node => rfl
      | func f => rfl
      | group g => exact Decl.slots_group_append_import g spec i
    · cases d with
      | bad node => rfl
      | func f => rfl
      | group g => exact Decl.heads_group_append_import g spec
  · refine ⟨rfl, ?_, ?_⟩
    · simp [Decl.slotsFrom_append, Decl.slotsFrom, Decl.slots]
    · simp [Decl.headsAll, Decl.heads]

theorem Accepts.sameSlots {m next : Merger} (h : Accepts m next) : SameSlots m next := by
  cases h with
  | same => exact .refl m
  | added imports spec =>
    have h := sameSlots_addImport { m with imports } spec
    exact ⟨h.registry, h.slots, h.heads⟩

theorem TakesImport.sameSlots {m m' : Merger} {u : UnitTag} {decls decls' : List Decl}
    {b : Import.Binding} (h : TakesImport m u decls b m' decls') : SameSlots m m' := by
  cases h with
  | present => exact .refl m
  | added next h => exact ⟨h.sameSlots.registry, h.sameSlots.slots, h.sameSlots.heads⟩
  | renamed next h n hb => exact ⟨h.sameSlots.registry, h.sameSlots.slots, h.sameSlots.heads⟩

theorem sameSlots_takeImports (m : Merger) (u : UnitTag) (decls : List Decl)
    (bs : List Import.Binding) : SameSlots m (m.takeImports u decls bs).1 :=
  takeImports_run (P := fun m' _ => SameSlots m m') (.refl m) fun _ _ _ _ _ _ h hstep =>
    h.trans hstep.sameSlots

theorem Widens.sameSlots {m m' : Merger} {u : UnitTag} {res res' : Resolution} {w : Widening}
    (h : Widens m u res w m' res') : SameSlots m m' := by
  cases h with
  | skip h => exact .refl m
  | merge fields source target hfields hsource htarget hstruct =>
    exact ⟨rfl, Decl.slotsFrom_modifyTypeSpec (TypeSpec.addFields_name _) 0 _ _,
      Decl.headsAll_modifyTypeSpec (TypeSpec.heads_addFields _) _ _⟩

theorem sameSlots_widenAll {u : UnitTag} {ws : List Widening} {m m' : Merger}
    {res res' : Resolution} (h : widenAll u ws m res = .ok (m', res')) : SameSlots m m' :=
  widenAll_run (P := fun _ n _ => SameSlots m n)
    (fun _ _ _ _ _ _ h hstep => h.trans hstep.sameSlots) (.refl m) h

theorem UnitPasses.sameSlots_imported {m : Merger} {u : UnitTag} {file : SourceFile}
    (p : UnitPasses m u file) : SameSlots m p.imported := by
  have h := sameSlots_takeImports m u file.decls p.bindings
  rwa [p.imported_eq] at h

/-! ## Agreement -/

/-- The registry knows the keys of the declarations, each with its first slot. -/
def Agrees (m : Merger) : Prop :=
  ∀ key, m.slot? key = (Decl.slotsFrom 0 m.decls).lookup key

theorem SameSlots.agrees {m m' : Merger} (h : SameSlots m m') (hm : m.Agrees) : m'.Agrees := by
  intro key
  rw [slot?, h.registry, h.slots]
  exact hm key

theorem lookup_register (registry slots : List (String × Slot)) (key : String) :
    (register registry slots).lookup key = (registry.lookup key).or (slots.lookup key) := by
  induction slots generalizing registry with
  | nil => simp [register]
  | cons p slots ih =>
    obtain ⟨k, slot⟩ := p
    rw [register]
    by_cases hkey : k = key
    · subst hkey
      split
      · next hk => simp [ih, hk]
      · next hk => simp [ih, hk, List.lookup_append]
    · split
      · rw [ih, List.lookup_cons_of_ne hkey]
      · rw [ih, List.lookup_append, List.lookup_cons_of_ne hkey, List.lookup_cons_of_ne hkey]
        simp

theorem Agrees.append {m : Merger} (h : m.Agrees) (decls : List Decl) :
    (m.append decls).Agrees := by
  intro key
  have hslots : Decl.slotsFrom 0 (m.append decls).decls =
      Decl.slotsFrom 0 m.decls ++ Decl.slotsFrom m.decls.length decls := by
    simp [Merger.append, Decl.slotsFrom_append]
  rw [hslots, List.lookup_append, ← h key]
  simp only [slot?, Merger.append, Decl.slotsIn_tail]
  exact lookup_register _ _ key

theorem Agrees.merge {m : Merger} (h : m.Agrees) (file : SourceFile) (tag : String) :
    (m.merge file tag).1.Agrees := by
  refine merge_invariant (P := Agrees) h ?_ ?_ ?_ ?_
  · intro _ bindings _ b _ n decls hn
    exact (takeImport_cases n ⟨m.units, tag⟩ decls b).sameSlots.agrees hn
  · intro n res w n' res' hstep hn
    exact hstep.sameSlots.agrees hn
  · intro n decisions hn
    exact hn
  · intro n decls _ hn
    exact hn.append decls

theorem Reachable.agrees {m : Merger} (h : m.Reachable) : m.Agrees := by
  induction h with
  | start package => intro key; rfl
  | merge file tag _ ih => exact ih.merge file tag

theorem Agrees.registered_iff {m : Merger} (h : m.Agrees) (key : String) :
    (∃ slot, m.slot? key = some slot) ↔ key ∈ Decl.keys m.decls := by
  rw [← Option.isSome_iff_exists, h key, Decl.keys, Decl.slotsIn_all]
  simp [List.lookup_isSome_iff]

theorem Agrees.snapshot? {m : Merger} (h : m.Agrees) {key : String} {slot : Slot}
    (hslot : m.slot? key = some slot) :
    ∃ found, Decl.snapshot? m.decls slot = some found ∧ found.Bears key := by
  rw [h key] at hslot
  obtain ⟨before, after, hsplit, -⟩ := List.lookup_eq_some_iff.1 hslot
  exact Decl.snapshot?_of_mem_slotsFrom (by simp [hsplit])

theorem Agrees.exists_head {m : Merger} (h : m.Agrees) {key : String} {slot : Slot}
    (hslot : m.slot? key = some slot) : ∃ b ∈ Decl.headsAll m.decls, b.key? = some key :=
  Decl.mem_keys_iff.1 ((h.registered_iff key).1 ⟨slot, hslot⟩)

theorem Agrees.isBlank_eq {m : Merger} (h : m.Agrees) {key : String} {slot : Slot}
    (hslot : m.slot? key = some slot) : isBlank key = false := by
  obtain ⟨b, -, hb⟩ := h.exists_head hslot
  exact Head.isBlank_of_key? hb

/-- The registered declaration of a key is the first that bears it. -/
theorem Agrees.first?_eq {m : Merger} (h : m.Agrees) {key : String} {slot : Slot}
    (hslot : m.slot? key = some slot) {found : Declared}
    (hfound : Decl.snapshot? m.decls slot = some found) :
    Head.first? key (Decl.headsAll m.decls) = some found.head := by
  have hkey := h.isBlank_eq hslot
  refine Decl.first?_of_locate? hkey ?_ hfound
  rw [Decl.locate?_eq_lookup hkey, ← h key, hslot]

/-! ## Meetings -/

/-- A registered key that a unit bears leads to a meeting. -/
theorem Agrees.exists_meeting {m : Merger} (h : m.Agrees) {key : String} {slot : Slot}
    (hslot : m.slot? key = some slot) {decls : List Decl} (hkey : key ∈ Decl.keys decls) :
    Nonempty (Meeting m decls key) := by
  have hblank := h.isBlank_eq hslot
  obtain ⟨canonical, hcanonical, -⟩ := h.snapshot? hslot
  cases hlocate : Decl.locate? decls key with
  | none => exact absurd hkey ((Decl.locate?_eq_none_iff hblank decls).1 hlocate)
  | some incomingSlot =>
    have hrel := Decl.rel_locate? hblank decls
    rw [hlocate] at hrel
    generalize Head.first? key (Decl.headsAll decls) = first at hrel
    cases hrel with
    | some hshows =>
      obtain ⟨incoming, hincoming, -⟩ := hshows
      exact ⟨⟨slot, canonical, incomingSlot, incoming, hslot, hcanonical, hlocate, hincoming⟩⟩

namespace Meeting

variable {m : Merger} {decls : List Decl} {key : String}

theorem first?_canonical (meet : Meeting m decls key) (h : m.Agrees) :
    Head.first? key (Decl.headsAll m.decls) = some meet.canonical.head :=
  h.first?_eq meet.slot?_eq meet.canonical_eq

theorem first?_incoming (meet : Meeting m decls key) (h : m.Agrees) :
    Head.first? key (Decl.headsAll decls) = some meet.incoming.head :=
  Decl.first?_of_locate? (h.isBlank_eq meet.slot?_eq) meet.locate?_eq meet.incoming_eq

theorem func_of_slot (meet : Meeting m decls key) {i : Nat} (hslot : meet.slot = .func i) :
    ∃ f, decls[i]? = some (.func f) ∧ meet.incoming = .func f := by
  have hincoming := meet.incoming_eq
  rw [hslot] at hincoming
  simp only [Decl.snapshot?] at hincoming
  split at hincoming
  · next f hf => exact ⟨f, hf, (Option.some.inj hincoming).symm⟩
  · simp at hincoming

/-- A unit's method stands at the slot of a function. -/
theorem exists_func (meet : Meeting m decls key) (hmethod : meet.incoming.head.isMethod = true) :
    ∃ i f, meet.slot = .func i ∧ decls[i]? = some (.func f) ∧ meet.incoming = .func f := by
  have hincoming := meet.incoming_eq
  cases hslot : meet.slot with
  | func i =>
    obtain ⟨f, hf, heq⟩ := meet.func_of_slot hslot
    exact ⟨i, f, rfl, hf, heq⟩
  | type i j =>
    rw [hslot] at hincoming
    obtain ⟨spec, -, heq⟩ := Option.map_eq_some_iff.1 hincoming
    simp [← heq, Declared.head, Head.isMethod] at hmethod
  | value i j k =>
    rw [hslot] at hincoming
    simp only [Decl.snapshot?] at hincoming
    split at hincoming
    · split at hincoming
      · obtain ⟨name, -, heq⟩ := Option.map_eq_some_iff.1 hincoming
        simp [← heq, DeclGroup.declaredValue, Declared.head, Head.isMethod] at hmethod
      · simp at hincoming
    · simp at hincoming

end Meeting

theorem renameMethod_eq {u : UnitTag} {reason : String} {i : Nat} {res : Resolution} {f : FuncDecl}
    (hi : res.decls[i]? = some (.func f)) :
    renameMethod u reason (.func i) res =
      { res with
        decls := res.decls.set i (.func { f with name := f.name ++ u.tag })
        decisions := res.decisions ++ [u.decide
          (.methodRenamed (f.receiverName?.getD "") f.name (f.name ++ u.tag) reason)] } := by
  simp only [renameMethod, hi]

theorem judge_drop {canonical incoming : Declared} (h : judge canonical incoming = .ok .drop) :
    compare canonical incoming = none := by
  unfold judge at h
  split at h
  · next hcompare => exact hcompare
  · simp at h
  · simp at h
  · split at h
    · simp at h
    · split at h <;> simp at h

theorem judge_widen {canonical incoming : Declared} {added : List String}
    (h : judge canonical incoming = .ok (.widen added)) :
    canonical.isStruct = true ∧ incoming.isStruct = true ∧
      ∃ missing, compare canonical incoming = some (.additional missing added) := by
  unfold judge at h
  split at h
  · simp at h
  · simp at h
  · simp at h
  · next missing added' hcompare =>
    split at h
    · next hcond =>
      simp only [Bool.and_eq_true] at hcond
      simp only [Except.ok.injEq, Verdict.widen.injEq] at h
      exact ⟨hcond.1.2, hcond.2, missing, h ▸ hcompare⟩
    · split at h <;> simp at h

theorem exists_type_of_isStruct {found : Declared} (h : found.isStruct = true) :
    ∃ spec : TypeSpec, found = .type spec ∧ spec.ty.isStructType = true := by
  cases found with
  | func f => simp [Declared.isStruct] at h
  | type spec => exact ⟨spec, rfl, h⟩
  | value tok spec iota => simp [Declared.isStruct] at h

theorem head_of_isStruct {found : Declared} {key : String} (h : found.isStruct = true)
    (hkey : found.head.key? = some key) : found.head = .type key true := by
  obtain ⟨spec, rfl, hstruct⟩ := exists_type_of_isStruct h
  have hname := (Head.plain?_of_key? hkey rfl).1
  simp only [Declared.head, Head.plain?, Option.some.injEq] at hname ⊢
  rw [hname, hstruct]

/-- Of two equal declarations of one key both are methods, or neither is. -/
theorem isMethod_eq_of_compare {canonical incoming : Declared} {key : String}
    (h : compare canonical incoming = none) (hcanonical : canonical.head.key? = some key)
    (hincoming : incoming.head.key? = some key) :
    canonical.head.isMethod = incoming.head.isMethod := by
  cases canonical with
  | type spec =>
    cases incoming with
    | type spec' => rfl
    | value tok spec' iota => rfl
    | func g => simp [compare, Declared.node, Node.compare] at h
  | value tok spec iota =>
    cases incoming with
    | type spec' => rfl
    | value tok' spec' iota' => rfl
    | func g => simp [compare, Declared.node, Node.compare] at h
  | func f =>
    cases incoming with
    | type spec' => simp [compare, Declared.node, Node.compare] at h
    | value tok' spec' iota' => simp [compare, Declared.node, Node.compare] at h
    | func g => exact FuncDecl.isMethod_head_eq (FuncDecl.name_eq_of_compare h) hcanonical hincoming

/-! ## Fresh tags -/

/-- What is fixed while a unit with the heads `os` is merged under a tag that is new to the names on
either side. -/
structure Footing (m : Merger) (tag : String) (os : List Head) : Prop where
  agrees : m.Agrees
  freshOutput : ∀ h ∈ Decl.headsAll m.decls, h.Fresh tag
  freshUnit : ∀ h ∈ os, h.Fresh tag
  nodup : (os.filterMap Head.key?).Nodup

/-- A registered key is a fresh name, or two fresh names with a dot in between. -/
theorem Footing.registered_cases {m : Merger} {tag : String} {os : List Head} (g : Footing m tag os)
    {key : String} {slot : Slot} (hslot : m.slot? key = some slot) :
    (¬EndsWith tag key ∧ ¬Dotted key) ∨
      ∃ recv name, key = recv ++ "." ++ name ∧ (¬EndsWith tag recv ∧ ¬Dotted recv) ∧
        (¬EndsWith tag name ∧ ¬Dotted name) := by
  obtain ⟨h, hh, hkey⟩ := g.agrees.exists_head hslot
  cases hm : h.isMethod with
  | false =>
    exact .inl (g.freshOutput h hh key (Head.mem_parts_of_plain? (Head.plain?_of_key? hkey hm).1))
  | true =>
    obtain ⟨recv, name, rfl, -, rfl⟩ := Head.method_of_key? hkey hm
    exact .inr ⟨recv, name, rfl, g.freshOutput _ hh recv (by simp [Head.parts]),
      g.freshOutput _ hh name (by simp [Head.parts])⟩

/-- No method that got the tag is registered. -/
theorem Footing.slot?_method_append_tag {m : Merger} {tag : String} {os : List Head}
    (g : Footing m tag os) (recv name : String) :
    m.slot? (recv ++ "." ++ (name ++ tag)) = none := by
  rw [← Option.not_isSome_iff_eq_none, Option.isSome_iff_exists]
  rintro ⟨slot, hslot⟩
  rcases g.registered_cases hslot with ⟨-, hdot⟩ | ⟨recv', name', heq, ⟨-, hrecv⟩, hends, hname⟩
  · exact hdot (by simp [dotted_append, dotted_dot])
  · obtain ⟨-, rfl⟩ := qualified_inj hrecv hname heq
    exact hends (endsWith_append tag name)

theorem descends_renameSeq {tag : String} {P : Prop} {rs : List Renaming}
    (hrs : ∀ r ∈ rs, r.Tags tag) (hinit : "init" ∈ rs.map (·.old) → P) (decls : List Decl) :
    Head.Descends tag P (Decl.headsAll decls) (Decl.headsAll (Decl.renameSeq rs decls)) := by
  induction rs generalizing decls with
  | nil => exact Head.Descends.refl tag P _
  | cons r rs ih =>
    obtain ⟨hold, n, hnew⟩ := hrs r List.mem_cons_self
    have hfirst := Head.descends_of_renames hnew hold (fun h => hinit (by simp [h]))
      (Decl.renames_headsAll r decls)
    exact hfirst.trans (ih (fun s hs => hrs s (List.mem_cons_of_mem r hs))
      (fun h => hinit (List.mem_cons_of_mem _ h)) (Decl.renameAll r decls))

/-! ## Structs -/

theorem exists_struct_of_head {found : Declared} {key : String}
    (h : found.head = .type key true) :
    ∃ spec fields incomplete, found = .type spec ∧ spec.ty = .structType fields incomplete := by
  cases found with
  | func f =>
    have hmethod := congrArg Head.isMethod h
    rw [Declared.head, FuncDecl.head] at h
    split at h <;> simp at h
  | value tok spec iota => simp [Declared.head] at h
  | type spec =>
    simp only [Declared.head, Head.type.injEq] at h
    cases hty : spec.ty <;> simp [hty, Expr.isStructType] at h
    exact ⟨spec, _, _, rfl, hty⟩

theorem typeSpec?_of_snapshot? {decls : List Decl} {slot : Slot} {spec : TypeSpec}
    (h : Decl.snapshot? decls slot = some (.type spec)) :
    Decl.typeSpec? decls slot = some spec := by
  cases slot with
  | func i =>
    simp only [Decl.snapshot?] at h
    split at h <;> simp at h
  | type i j => simpa [Decl.snapshot?, Decl.typeSpec?] using h
  | value i j k =>
    simp only [Decl.snapshot?] at h
    split at h
    · split at h
      · simp [DeclGroup.declaredValue] at h
      · simp at h
    · simp at h

/-! ## The invariant -/

/-- After any units, failing or not, the registry holds exactly the keys listed over all
declarations, each with the first slot listed for it, and at that slot stands a declaration that
bears the key. -/
theorem Reachable.registry_index {m : Merger} (h : m.Reachable) (key : String) :
    ((∃ slot, m.slot? key = some slot) ↔ key ∈ Decl.keys m.decls) ∧
      ∀ slot, m.slot? key = some slot →
        (Decl.slotsIn m.decls 0 m.decls.length).lookup key = some slot ∧
          ∃ found, Decl.snapshot? m.decls slot = some found ∧ found.Bears key := by
  refine ⟨h.agrees.registered_iff key, fun slot hslot => ⟨?_, h.agrees.snapshot? hslot⟩⟩
  rw [Decl.slotsIn_all, ← h.agrees key, hslot]

/-- A unit with one function and one that fails for want of a tag. -/
theorem registry_index_two_units :
    let f : FuncDecl := ⟨none, "F", ⟨none, [], none⟩, none⟩
    let m := (((start "out").merge ⟨"a", [.func f]⟩ "A").1.merge ⟨"b", [.func f]⟩ "").1
    m.slot? "F" = some (.func 0) ∧
      (Decl.slotsIn m.decls 0 m.decls.length).lookup "F" = some (.func 0) := by
  intro f m
  have hslot : m.slot? "F" = some (.func 0) := by decide
  have hm : m.Reachable := .merge _ _ (.merge _ _ (.start "out"))
  exact ⟨hslot, ((Reachable.registry_index hm "F").2 _ hslot).1⟩

end Merger

end GoWeave
