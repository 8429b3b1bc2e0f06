import GoWeave.Proofs.Declaration.Types
import GoWeave.Proofs.Equivalence.Additions
import GoWeave.Proofs.Merge.Duplicates
import GoWeave.Proofs.Merge.Frame
import Mathlib.Data.List.Induction

/-!
# Folded structs

A struct that only adds members is folded into the registered struct at the end of its unit, when
all renamings are made. The members to be added are known by the keys that they had when the two
structs were compared, and they are taken from the unit's copy as it is in the end. So the
registered struct gets exactly those members whose keys the copy still has, each with the type and
the tag that it has there.

A named member keeps its key. An embedded member has the key that its type implies, and it is lost
if that type is given another name in between.
-/
namespace GoWeave

/-! ## Members with other types -/

/-- The field with its type changed. -/
def Field.mapType (φ : Expr → Expr) (f : Field) : Field :=
  ⟨f.names, φ f.ty, f.tag⟩

/-- A member before and after the types of its list are changed. An embedded member is called by its
new type. -/
structure FieldEntry.Retyped (φ : Expr → Expr) (e e' : FieldEntry) : Prop where
  name_eq : e'.name = if e.embedded then (φ e.ty).impliedName else e.name
  key_eq : e'.name = e.name → e'.key = e.key
  embedded_eq : e'.embedded = e.embedded
  ty_eq : e'.ty = φ e.ty
  tag_eq : e'.tag = e.tag

/-- A member that keeps its name is the same but for its type. -/
theorem FieldEntry.Retyped.eq {φ : Expr → Expr} {e e' : FieldEntry} (h : Retyped φ e e')
    (hname : e.embedded = true → (φ e.ty).impliedName = e.name) : e' = { e with ty := φ e.ty } := by
  have hsame : e'.name = e.name := by
    rw [h.name_eq]
    split
    · next hembedded => exact hname hembedded
    · rfl
  have hkey := h.key_eq hsame
  obtain ⟨key, name, embedded, ty, tag⟩ := e'
  obtain ⟨-, -, hembedded, hty, htag⟩ := h
  dsimp only at hsame hkey hembedded hty htag
  rw [hsame, hkey, hembedded, hty, htag]

theorem Field.exists_retyped (φ : Expr → Expr) {position : Nat} {fields : List Field}
    {e : FieldEntry} (he : e ∈ entriesFrom .member position fields) :
    ∃ e' ∈ entriesFrom .member position (fields.map (mapType φ)), e.Retyped φ e' := by
  induction fields generalizing position with
  | nil => simp [entriesFrom] at he
  | cons f fs ih =>
    rw [List.map_cons, entriesFrom]
    rw [entriesFrom, List.mem_append] at he
    rcases he with he | he
    · suffices hfield : ∃ e' ∈ (f.mapType φ).entries .member position, e.Retyped φ e' by
        obtain ⟨e', he', hretyped⟩ := hfield
        exact ⟨e', List.mem_append_left _ he', hretyped⟩
      obtain ⟨i, m, hm, rfl⟩ := mem_entries.1 he
      by_cases hnames : f.names.isEmpty = true
      · rw [members, if_pos hnames, List.getElem?_singleton] at hm
        obtain ⟨rfl, rfl⟩ : i = 0 ∧ FieldEntry.unnamed .member position f.ty = m := by
          simpa using hm
        refine ⟨_, mem_entries.2 ⟨0, ((φ f.ty).impliedName, true), ?_, rfl⟩, rfl, ?_, rfl, rfl, rfl⟩
        · rw [members, mapType, if_pos hnames]
          rfl
        · exact congrArg (FieldEntry.keyAt _)
      · rw [members, if_neg hnames] at hm
        have hm' : ((f.mapType φ).members .member position)[i]? = some m := by
          rw [members, mapType, if_neg hnames]
          exact hm
        obtain ⟨name, -, rfl⟩ := List.mem_map.1 (List.mem_of_getElem? hm)
        exact ⟨_, mem_entries.2 ⟨i, (name, false), hm', rfl⟩, rfl, fun _ => rfl, rfl, rfl, rfl⟩
    · obtain ⟨e', he', hretyped⟩ := ih he
      exact ⟨e', List.mem_append_right _ he', hretyped⟩

theorem Field.renameAll_eq_map (r : Renaming) (sc : Scope) (fields : List Field) :
    Field.renameAll r sc fields = fields.map (mapType (Expr.rename r sc)) := by
  induction fields with
  | nil => rfl
  | cons f fs ih =>
    obtain ⟨names, ty, tag⟩ := f
    simp [Field.renameAll, Field.rename, mapType, ih]

namespace Renaming

/-- A type under several renamings, one after the other. -/
abbrev alongType (rs : List Renaming) (sc : Scope) : Expr → Expr :=
  along (fun r => Expr.rename r sc) rs

theorem alongType_structType (rs : List Renaming) (sc : Scope) (fields : List Field)
    (incomplete : Bool) :
    alongType rs sc (.structType fields incomplete) =
      .structType (fields.map (Field.mapType (alongType rs sc))) incomplete := by
  induction rs generalizing fields with
  | nil =>
    have hid : ∀ f : Field, f.mapType (alongType [] sc) = f := by
      rintro ⟨names, ty, tag⟩
      rfl
    rw [List.map_id'' hid]
    rfl
  | cons r rs ih =>
    calc alongType (r :: rs) sc (.structType fields incomplete)
        = alongType rs sc (.structType (Field.renameAll r sc fields) incomplete) := rfl
      _ = _ := by
          rw [ih, Field.renameAll_eq_map, List.map_map]
          rfl

end Renaming

/-- The member with its type renamed. -/
def FieldEntry.renamed (rs : List Renaming) (sc : Scope) (e : FieldEntry) : FieldEntry :=
  { e with ty := Renaming.alongType rs sc e.ty }

namespace TypeSpec

theorem addFields_of_structType {spec : TypeSpec} {old : List Field} {incomplete : Bool}
    (h : spec.ty = .structType old incomplete) (fields : List Field) :
    spec.addFields fields = { spec with ty := .structType (old ++ fields) incomplete } := by
  simp only [addFields, h]

theorem memberScope_rename (r : Renaming) (spec : TypeSpec) :
    (spec.rename r .root).memberScope = spec.memberScope := by
  simp [memberScope, TypeSpec.rename]

theorem ty_along_rename (rs : List Renaming) (spec : TypeSpec) :
    (Renaming.along (fun r => TypeSpec.rename r .root) rs spec).ty =
      Renaming.alongType rs spec.memberScope spec.ty := by
  induction rs generalizing spec with
  | nil => rfl
  | cons r rs ih =>
    calc (Renaming.along (fun r => TypeSpec.rename r .root) rs (spec.rename r .root)).ty
        = Renaming.alongType rs (spec.rename r .root).memberScope (spec.rename r .root).ty := ih _
      _ = Renaming.alongType rs spec.memberScope (spec.ty.rename r spec.memberScope) := by
          rw [memberScope_rename]
          rfl

end TypeSpec

/-! ## The fields that are added -/

namespace Merger

theorem forall₂_addedFields (source : FieldSet) (listed : List String) :
    List.Forall₂ (fun key f => ∃ e, source.get? key = some e ∧ f = e.toField)
      (listed.filter (· ∈ source.keys)) (addedFields source listed) := by
  induction listed with
  | nil => exact .nil
  | cons key listed ih =>
    rw [addedFields, List.filter_cons, List.filterMap_cons]
    by_cases hkey : key ∈ source.keys
    · obtain ⟨e, -, hget, -⟩ := FieldSet.exists_get? hkey
      rw [if_pos (by simpa using hkey), hget]
      exact .cons ⟨e, hget, rfl⟩ ih
    · rw [if_neg (by simpa using hkey), FieldSet.get?_eq_none_iff.2 hkey]
      exact ih

/-- A field is lost exactly if its key is. -/
theorem length_addedFields (source : FieldSet) (listed : List String) :
    (addedFields source listed).length = listed.length ↔ ∀ key ∈ listed, key ∈ source.keys := by
  rw [← (forall₂_addedFields source listed).length_eq, List.length_filter_eq_length_iff]
  simp

/-- Members that keep their names are added with their new types. -/
theorem addedFields_beyond {φ : Expr → Expr} {fields : List Field} {left right source : FieldSet}
    (hright : right.entries = Field.entriesFrom .member 0 fields)
    (hsource : source.entries = Field.entriesFrom .member 0 (fields.map (Field.mapType φ)))
    (hnodup : source.keys.Nodup)
    (hnames : ∀ e ∈ left.beyond right, e.embedded = true → (φ e.ty).impliedName = e.name) :
    addedFields source ((left.beyond right).map (·.key)) =
      (left.beyond right).map fun e => FieldEntry.toField { e with ty := φ e.ty } := by
  have hget : ∀ e ∈ left.beyond right, source.get? e.key = some { e with ty := φ e.ty } := by
    intro e he
    have hmem : e ∈ Field.entriesFrom .member 0 fields := hright ▸ List.mem_of_mem_filter he
    obtain ⟨e', he', hretyped⟩ := Field.exists_retyped φ hmem
    rw [← hsource] at he'
    rw [hretyped.eq (hnames e he)] at he'
    exact FieldSet.get?_key hnodup he'
  rw [addedFields, List.filterMap_map, ← List.filterMap_eq_map]
  refine List.filterMap_congr fun e he => ?_
  simp only [Function.comp_apply, hget e he, Option.map_some]

end Merger

/-! ## The copy of a unit -/

/-- Whether an action goes by the declarations it is taken on: keys that are removed are not blank,
and what is called a method is not a function that bears the key first. -/
def Action.Fits (decls : List Decl) : Action → Prop
  | duplicateDropped key => isBlank key = false
  | fieldsMerged key _ => isBlank key = false
  | methodRenamed recv old _ _ =>
    ∀ name, Head.first? (recv ++ "." ++ old) (Decl.headsAll decls) ≠ some (.func name)
  | _ => True

theorem Action.fits_of_isImport {a : Action} (h : a.isImport = true) (decls : List Decl) :
    a.Fits decls := by
  cases a with
  | importAdded name path => trivial
  | importRenamed old new path => trivial
  | duplicateDropped key => simp [isImport] at h
  | fieldsMerged key listed => simp [isImport] at h
  | renamed old new reason => simp [isImport] at h
  | methodRenamed recv old new reason => simp [isImport] at h

/-- A type is found under a key, or no type is called by it. -/
def Decl.Carries (key : String) (spec : TypeSpec) (decls : List Decl) : Prop :=
  declared? decls key = some (.type spec) ∨ Untyped key decls

section Carries

variable {key : String} {spec : TypeSpec} {decls : List Decl}

theorem Decl.Carries.remove (hkey : isBlank key = false) (h : Carries key spec decls) {k : String}
    (hk : isBlank k = false) : Carries key spec (remove k decls) := by
  rcases h with h | h
  · by_cases hne : key = k
    · exact .inr (hne ▸ untyped_remove key decls)
    · exact .inl (declared?_type_remove hkey hk hne h)
  · exact .inr (h.remove k)

theorem Decl.Carries.renameAll (hkey : isBlank key = false) (hdot : ¬Dotted key) {r : Renaming}
    (hnew : key ≠ r.new) (h : Carries key spec decls) :
    Carries key (spec.rename r .root) (renameAll r decls) := by
  rcases h with h | h
  · by_cases hold : key = r.old
    · exact .inr (untyped_renameAll hnew (.inl hold))
    · exact .inl (declared?_renameAll hkey hdot hold hnew h)
  · exact .inr (untyped_renameAll hnew (.inr h))

theorem Decl.Carries.renameFunc (hkey : isBlank key = false) (hdot : ¬Dotted key)
    (h : Carries key spec decls) {k : String} (new : String) (hk : isBlank k = false)
    (hmethod : ∀ name, Head.first? k (headsAll decls) ≠ some (.func name)) :
    Carries key spec (renameFunc k new decls) := by
  unfold Decl.renameFunc
  split
  · next i hslot =>
    split
    · next f hi =>
      -- The function that bears the key first is a method, and its key has a dot.
      have hf : f.head.isMethod = true := by
        have hfound : snapshot? decls (.func i) = some (.func f) := by simp [snapshot?, hi]
        have hfirst := first?_of_locate? hk hslot hfound
        rw [FuncDecl.isMethod_head]
        by_contra hrecv
        refine hmethod f.name (hfirst.trans ?_)
        rw [Declared.head, FuncDecl.head, if_neg hrecv]
      have hf' : ({ f with name := new } : FuncDecl).head.isMethod = true := by
        rw [FuncDecl.isMethod_head] at hf ⊢
        exact hf
      rcases h with h | h
      · exact .inl (declared?_type_set hkey hdot hi hf hf' h)
      · exact .inr (h.set hi _)
    · exact h
  · exact h

theorem Action.carries_carryOut (hkey : isBlank key = false) (hdot : ¬Dotted key) {a : Action}
    (hfits : a.Fits decls) (hnew : ∀ r ∈ a.renaming?, key ≠ r.new)
    (h : Decl.Carries key spec decls) :
    Decl.Carries key
      (Renaming.along (fun r => TypeSpec.rename r .root) a.renaming?.toList spec)
      (a.carryOut decls) := by
  cases a with
  | importAdded name path => exact h
  | importRenamed old new path => exact h.renameAll hkey hdot (hnew _ rfl)
  | duplicateDropped k => exact h.remove hkey hfits
  | fieldsMerged k listed => exact h.remove hkey hfits
  | renamed old new reason => exact h.renameAll hkey hdot (hnew _ rfl)
  | methodRenamed recv old new reason =>
    refine h.renameFunc hkey hdot new ?_ hfits
    have hdotted : Dotted (recv ++ "." ++ old) := by simp [dotted_append, dotted_dot]
    have hne : recv ++ "." ++ old ≠ "_" := fun heq => absurd (heq ▸ hdotted) (by decide)
    simpa [isBlank] using hne

/-- Along decisions none of which gives its name to another declaration, a type is renamed as they
say or is gone. -/
theorem Decl.carries_follow {unit : List Decl} {earlier since after : List Decision}
    (hkey : isBlank key = false) (hdot : ¬Dotted key)
    (hfits : Decision.Each (fun before a => a.Fits (follow before unit))
      (earlier ++ since ++ after))
    (hnew : ∀ r ∈ Decision.renamings since, key ≠ r.new)
    (h : declared? (follow earlier unit) key = some (.type spec)) :
    Carries key
      (Renaming.along (fun r => TypeSpec.rename r .root) (Decision.renamings since) spec)
      (follow (earlier ++ since) unit) := by
  induction since using List.reverseRecOn generalizing after with
  | nil =>
    rw [List.append_nil]
    exact .inl h
  | append_singleton since d ih =>
    rw [Decision.renamings_append, Decision.renamings_singleton] at hnew ⊢
    have hstep := hfits (earlier ++ since) d after (by simp)
    have hfits' : Decision.Each (fun before a => a.Fits (follow before unit))
        (earlier ++ since ++ d :: after) := by
      simpa using hfits
    have hcarries := ih hfits' fun r hr => hnew r (List.mem_append_left _ hr)
    rw [← List.append_assoc, follow_concat, Renaming.along, List.foldl_append]
    refine Action.carries_carryOut hkey hdot hstep (fun r hr => ?_) hcarries
    exact hnew r (List.mem_append_right _ (by simpa using hr))

end Carries

/-! ## Decisions that fit -/

namespace Merger

variable {m n n' : Merger} {u : UnitTag} {unit : List Decl} {key : String} {kind : DeclKind}
  {taken : List Decision} {entries : List (String × DeclKind)} {res res' : Resolution}

/-- Resolving a type, a value or a function leads to decisions that fit anywhere. -/
theorem Resolves.forall_fits (hm : m.Agrees) (hkind : kind ≠ .method)
    (hstep : Resolves m u key kind res res')
    (h : ∀ d ∈ res.decisions, ∀ decls, d.action.Fits decls) :
    ∀ d ∈ res'.decisions, ∀ decls, d.action.Fits decls := by
  cases hstep with
  | keep hkeep => exact h
  | drop meet hj =>
    rw [List.forall_mem_append]
    refine ⟨h, fun d hd decls => ?_⟩
    rw [List.mem_singleton.1 hd]
    exact hm.isBlank_eq meet.slot?_eq
  | widen meet fields hj => exact h
  | rename meet reason hj hkind' =>
    rw [List.forall_mem_append]
    refine ⟨h, fun d hd decls => ?_⟩
    rw [List.mem_singleton.1 hd]
    trivial
  | renameMethod meet reason hj hkind' => exact absurd hkind' hkind

/-- The decisions so far fit the declarations that each is taken on. -/
abbrev EachFits (unit : List Decl) (decisions : List Decision) : Prop :=
  Decision.Each (fun before a => a.Fits (Decl.follow before unit)) decisions

theorem MethodPass.eachFits_step (hm : m.Agrees)
    (p : MethodPass m unit taken ((key, kind) :: entries) res)
    (hstep : Resolves m u key kind res res') (h : EachFits unit (taken ++ res.decisions)) :
    EachFits unit (taken ++ res'.decisions) := by
  obtain ⟨hkind, -⟩ := List.forall_mem_cons.1 p.kinds
  obtain ⟨hfirst, -⟩ := List.forall_mem_cons.1 p.first
  cases hstep with
  | keep hkeep => exact h
  | drop meet hj =>
    rw [← List.append_assoc]
    exact h.concat (hm.isBlank_eq meet.slot?_eq)
  | widen meet fields hj => exact h
  | rename meet reason hj hkind' => exact absurd hkind hkind'
  | renameMethod meet reason hj hkind' =>
    rcases meet.renameMethod_cases (u := u) reason with heq | ⟨i, f, hslot, hi, hincoming⟩
    · rwa [heq]
    · obtain ⟨-, -, recv, hrecv, rfl⟩ := meet.exists_receiver hm hincoming hfirst
      rw [hslot, renameMethod_eq hi, hrecv, Option.getD_some]
      dsimp only
      rw [← List.append_assoc]
      refine h.concat ?_
      rw [← p.follows.decls_eq]
      exact hfirst

/-! ## One fold -/

/-- The struct of a key among some declarations is folded into the registered struct, with the
fields that it has under the listed keys. -/
structure Folds (m n : Merger) (decls : List Decl) (key : String) (listed : List String)
    (target : TypeSpec) (copy : List Field) (source : FieldSet) : Prop where
  registered : m.declared? key = some (.type target)
  copy_eq : structFields? decls key = some copy
  source_eq : FieldSet.ofFields .member copy = .ok source
  folded : n.declared? key = some (.type (target.addFields (addedFields source listed)))

end Merger

namespace Decl

variable {decls : List Decl} {slot slot' : Slot} {spec : TypeSpec}

theorem typeSpec?_eq_some_iff :
    typeSpec? decls slot = some spec ↔ ∃ i j g, slot = .type i j ∧
      decls[i]? = some (.group g) ∧ g.specs[j]? = some (.type spec) := by
  constructor
  · intro h
    cases slot with
    | func i => simp [typeSpec?] at h
    | value i j k => simp [typeSpec?] at h
    | type i j =>
      simp only [typeSpec?, typeSpecAt?] at h
      split at h
      · next g hg =>
        split at h
        · next t ht => exact ⟨i, j, g, rfl, hg, Option.some.inj h ▸ ht⟩
        · simp at h
      · simp at h
  · rintro ⟨i, j, g, rfl, hg, hs⟩
    simp [typeSpec?, typeSpecAt?, hg, hs]

theorem snapshot?_of_typeSpec? (h : typeSpec? decls slot = some spec) :
    snapshot? decls slot = some (.type spec) := by
  obtain ⟨i, j, g, rfl, -⟩ := typeSpec?_eq_some_iff.1 h
  exact congrArg (Option.map Declared.type) h

theorem typeSpec?_modifyTypeSpec (h : typeSpec? decls slot = some spec) (f : TypeSpec → TypeSpec) :
    typeSpec? (modifyTypeSpec decls slot f) slot = some (f spec) := by
  obtain ⟨i, j, g, rfl, hg, hs⟩ := typeSpec?_eq_some_iff.1 h
  simp [typeSpec?, typeSpecAt?, modifyTypeSpec, hg, hs]

theorem typeSpec?_modifyTypeSpec_of_ne (h : typeSpec? decls slot' = some spec)
    (hne : slot' ≠ slot) (f : TypeSpec → TypeSpec) :
    typeSpec? (modifyTypeSpec decls slot f) slot' = some spec := by
  obtain ⟨i', j', g, rfl, hg, hs⟩ := typeSpec?_eq_some_iff.1 h
  cases slot with
  | func i => exact h
  | value i j k => exact h
  | type i j =>
    by_cases hi : i = i'
    · subst hi
      have hj : j ≠ j' := fun hj => hne (by rw [hj])
      simp [typeSpec?, typeSpecAt?, modifyTypeSpec, hg, List.getElem?_modify_ne _ _ hj, hs]
    · simp [typeSpec?, typeSpecAt?, modifyTypeSpec, List.getElem?_modify_ne _ _ hi, hg, hs]

theorem typeSpec?_append (h : typeSpec? decls slot = some spec) (more : List Decl) :
    typeSpec? (decls ++ more) slot = some spec := by
  obtain ⟨i, j, g, rfl, hg, hs⟩ := typeSpec?_eq_some_iff.1 h
  have hi := (List.getElem?_eq_some_iff.1 hg).1
  refine typeSpec?_eq_some_iff.2 ⟨i, j, g, rfl, ?_, hs⟩
  rw [List.getElem?_append_left hi, hg]

end Decl

namespace Merger

variable {m n n' : Merger} {u : UnitTag} {unit : List Decl} {key : String}
  {taken : List Decision} {res res' : Resolution} {spec : TypeSpec}

theorem declared?_type_iff :
    m.declared? key = some (.type spec) ↔
      ∃ slot, m.slot? key = some slot ∧ Decl.typeSpec? m.decls slot = some spec := by
  rw [declared?, Option.bind_eq_some_iff]
  constructor
  · rintro ⟨slot, hslot, hspec⟩
    exact ⟨slot, hslot, typeSpec?_of_snapshot? hspec⟩
  · rintro ⟨slot, hslot, hspec⟩
    exact ⟨slot, hslot, Decl.snapshot?_of_typeSpec? hspec⟩

theorem Agrees.name_eq (h : m.Agrees) (hspec : m.declared? key = some (.type spec)) :
    spec.name = key := by
  obtain ⟨slot, hslot, hfound⟩ := Option.bind_eq_some_iff.1 hspec
  obtain ⟨found, hfound', hbears⟩ := h.snapshot? hslot
  rw [hfound, Option.some.injEq] at hfound'
  rwa [← hfound'] at hbears

/-- Changing the type of one key leaves the types of the others. -/
theorem Agrees.declared?_modify_of_ne (h : m.Agrees) {k : String} {slot : Slot} {target : TypeSpec}
    (hslot : m.slot? k = some slot) (htarget : Decl.typeSpec? m.decls slot = some target)
    (hne : key ≠ k) (f : TypeSpec → TypeSpec) (hspec : m.declared? key = some (.type spec)) :
    declared? { m with decls := Decl.modifyTypeSpec m.decls slot f } key = some (.type spec) := by
  obtain ⟨slot', hslot', hspec'⟩ := declared?_type_iff.1 hspec
  have hslots : slot' ≠ slot := by
    rintro rfl
    -- One slot holds one type, which has one name.
    rw [hspec', Option.some.injEq] at htarget
    have hk := h.name_eq (declared?_type_iff.2 ⟨slot', hslot, htarget ▸ hspec'⟩)
    exact hne ((h.name_eq hspec).symm.trans (htarget ▸ hk))
  exact declared?_type_iff.2 ⟨slot', hslot',
    Decl.typeSpec?_modifyTypeSpec_of_ne hspec' hslots f⟩

theorem declared?_append_type (h : m.declared? key = some (.type spec)) (decls : List Decl) :
    (m.append decls).declared? key = some (.type spec) := by
  obtain ⟨slot, hslot, hspec⟩ := declared?_type_iff.1 h
  have hslot' := (GrowsInto.append m decls).slots key slot hslot
  exact declared?_type_iff.2 ⟨slot, hslot', Decl.typeSpec?_append hspec decls⟩

/-! ## The pass over the widenings -/

theorem exists_of_structFields? {decls : List Decl} {fields : List Field}
    (h : structFields? decls key = some fields) :
    ∃ spec : TypeSpec, Decl.declared? decls key = some (.type spec) ∧
      ∃ incomplete, spec.ty = .structType fields incomplete := by
  unfold structFields? at h
  split at h
  · next spec hspec =>
    split at h
    · next list incomplete hty => exact ⟨spec, hspec, incomplete, Option.some.inj h ▸ hty⟩
    · simp at h
  · simp at h

/-- The state of a unit within the pass over its widenings. A struct that is not folded into yet is
as it was, and one that is has got its fields once. -/
structure FoldPass (m : Merger) (unit : List Decl) (taken : List Decision) (ws : List Widening)
    (n : Merger) (res : Resolution) : Prop where
  follows : Follows m unit (taken ++ res.decisions) ws res.decls
  fits : EachFits unit (taken ++ res.decisions)
  slots : ∀ w ∈ ws, m.slot? w.key = some w.canonical
  same : SameSlots m n
  untouched : ∀ key ∉ Decision.widened (taken ++ res.decisions), ∀ spec,
    m.declared? key = some (.type spec) → n.declared? key = some (.type spec)
  gone : ∀ key ∈ Decision.widened (taken ++ res.decisions), Decl.Untyped key res.decls
  folded : ∀ before d after key listed, taken ++ res.decisions = before ++ d :: after →
    d.action = .fieldsMerged key listed → Decision.renamings after = [] ∧
      ∃ target copy source, Folds m n (Decl.follow before unit) key listed target copy source

theorem FoldPass.step (hm : m.Agrees) {w : Widening} {ws : List Widening}
    (p : FoldPass m unit taken (w :: ws) n res) (hstep : Widens n u res w n' res') :
    FoldPass m unit taken ws n' res' := by
  obtain ⟨hw, hws⟩ := List.forall_mem_cons.1 p.follows.pending
  obtain ⟨hslot, hslots⟩ := List.forall_mem_cons.1 p.slots
  have hfollows := { p.follows with pending := hws }
  have hsame := p.same.trans hstep.sameSlots
  cases hstep with
  | skip hskip => exact { p with follows := hfollows, slots := hslots }
  | merge fields source target hfields hsource htarget hstruct =>
    have hagrees := p.same.agrees hm
    obtain ⟨spec, hspec, -⟩ := exists_of_structFields? hfields
    have hnew : w.key ∉ Decision.widened (taken ++ res.decisions) := fun hold =>
      (p.gone w.key hold).declared?_ne spec hspec
    have hslot' : n.slot? w.key = some w.canonical := by
      rw [slot?, p.same.registry]
      exact hslot
    -- The registered struct is still the one that the copy was compared with.
    have hregistered : m.declared? w.key = some (.type target) := by
      obtain ⟨-, -, -, canonical, -, hcanonical, -⟩ := hw
      have hnow := p.untouched w.key hnew canonical hcanonical
      have htarget' := declared?_type_iff.2 ⟨w.canonical, hslot', htarget⟩
      rwa [hcanonical, ← hnow]
    have hwidened : Decision.widened (taken ++ (res.decisions ++
        [u.decide (.fieldsMerged w.key w.fields)])) =
          Decision.widened (taken ++ res.decisions) ++ [w.key] := by
      rw [← List.append_assoc, Decision.widened_append]
      rfl
    have hothers : ∀ (f : TypeSpec → TypeSpec), ∀ key ≠ w.key, ∀ spec,
        n.declared? key = some (.type spec) →
          declared? { n with decls := Decl.modifyTypeSpec n.decls w.canonical f } key =
            some (.type spec) :=
      fun f key hne spec => hagrees.declared?_modify_of_ne hslot' htarget hne f
    refine ⟨?_, ?_, hslots, hsame, fun key hkey spec hspec => ?_, fun key hkey => ?_, ?_⟩
    · rw [← List.append_assoc]
      exact hfollows.concat (d := u.decide (.fieldsMerged w.key w.fields))
        (by simp [UnitTag.decide, Action.renaming?]) hw
    · rw [← List.append_assoc]
      exact p.fits.concat (hm.isBlank_eq hslot)
    · rw [hwidened, List.mem_append, not_or] at hkey
      exact hothers _ key (by simpa using hkey.2) spec (p.untouched key hkey.1 spec hspec)
    · rw [hwidened, List.mem_append] at hkey
      rcases hkey with hkey | hkey
      · exact (p.gone key hkey).remove w.key
      · rw [List.mem_singleton.1 hkey]
        exact Decl.untyped_remove w.key res.decls
    · intro before d after key listed hsplit haction
      rw [← List.append_assoc] at hsplit
      rcases Decision.eq_or_exists_of_concat hsplit with ⟨rfl, rfl, rfl⟩ | ⟨rest, rfl, hrest⟩
      · obtain ⟨rfl, rfl⟩ := Action.fieldsMerged.inj haction
        refine ⟨rfl, target, fields, source, hregistered, ?_, hsource, ?_⟩
        · rwa [← p.follows.decls_eq]
        · exact declared?_type_iff.2 ⟨w.canonical, hslot',
            Decl.typeSpec?_modifyTypeSpec htarget _⟩
      · obtain ⟨hrenamings, target', copy', source', hfolds⟩ :=
          p.folded before d rest key listed hrest haction
        have hmem : key ∈ Decision.widened (taken ++ res.decisions) := by
          rw [hrest]
          exact Decision.mem_widened haction (by simp)
        have hne : key ≠ w.key := fun heq => hnew (heq ▸ hmem)
        refine ⟨?_, target', copy', source', { hfolds with folded := ?_ }⟩
        · rw [Decision.renamings_append, hrenamings]
          rfl
        · exact hothers _ key hne _ hfolds.folded

/-! ## Units -/

variable {final : Merger} {file : SourceFile}

theorem UnitRun.exists_foldPass (run : UnitRun m u file final) (hm : m.Agrees)
    (htag : u.tag ≠ "") :
    ∃ taken, m.newDecisions final = taken ++ run.left.decisions ∧
      FoldPass run.imported (Decl.withoutImports file.decls) taken [] run.widened run.left := by
  obtain ⟨taken, htaken, himport, hpass⟩ := run.exists_methodPass hm htag
  have hagrees := run.sameSlots_imported.agrees hm
  have hfits : EachFits (Decl.withoutImports file.decls) (taken ++ run.plain.decisions) := by
    have hplain := resolveAll_run
      (P := fun entries res => (∀ e ∈ entries, e.2 ≠ .method) ∧
        ∀ d ∈ res.decisions, ∀ decls, d.action.Fits decls)
      (fun key kind entries res res' h hstep => by
        obtain ⟨hkind, hkinds⟩ := List.forall_mem_cons.1 h.1
        exact ⟨hkinds, hstep.forall_fits hagrees hkind h.2⟩)
      ⟨fun e he => by simpa using (List.mem_filter.1 he).2, by simp⟩ run.plain_eq
    intro before d after hsplit
    have hd : d ∈ taken ++ run.plain.decisions := by simp [hsplit]
    rcases List.mem_append.1 hd with hd | hd
    · exact Action.fits_of_isImport (himport d hd) _
    · exact hplain.2 d hd _
  obtain ⟨hmethods, hfits⟩ := resolveAll_run
    (P := fun entries res => MethodPass run.imported (Decl.withoutImports file.decls) taken
      entries res ∧ EachFits (Decl.withoutImports file.decls) (taken ++ res.decisions))
    (fun _ _ _ _ _ p hstep =>
      ⟨p.1.step hagrees htag hstep, p.1.eachFits_step hagrees hstep p.2⟩)
    ⟨hpass, hfits⟩ run.methods_eq
  have hnone : Decision.widened (taken ++ run.methods.decisions) = [] := by
    rw [Decision.widened_append, Decision.widened_of_isImport himport, run.resolving.widened_eq]
    rfl
  refine ⟨taken, run.newDecisions_eq htaken, widenAll_run (P := FoldPass run.imported _ taken)
    (fun _ _ _ _ _ _ p hstep => p.step hagrees hstep) ?_ run.widened_eq⟩
  refine ⟨hmethods.follows, hfits, run.resolving.slot?_of_mem (by simp), .refl _, fun _ _ _ h => h,
    by simp [hnone], fun before d after key listed hsplit haction => ?_⟩
  -- Nothing is folded before the pass.
  have hmem : key ∈ Decision.widened (taken ++ run.methods.decisions) := by
    rw [hsplit]
    exact Decision.mem_widened haction (by simp)
  simp [hnone] at hmem

/-- Whether the embedded ones of some members keep the names that their types imply. -/
def KeepsNames (rs : List Renaming) (sc : Scope) (es : List FieldEntry) : Prop :=
  ∀ e ∈ es, e.embedded = true → (Renaming.alongType rs sc e.ty).impliedName = e.name

instance (rs : List Renaming) (sc : Scope) (es : List FieldEntry) :
    Decidable (KeepsNames rs sc es) :=
  inferInstanceAs (Decidable (∀ e ∈ es, _ → _))

/-- A decision that fields are merged is made after all renamings of the unit. The registered struct
then has its former fields and, for each listed key that the unit's copy still has, in their order,
the field that the copy has under it. So a field is lost exactly if its key is. None is lost, and
the fields are those that were compared, with their types renamed, as long as no renaming gives the
name of the struct to another declaration and the types of embedded members keep their names. -/
theorem Reachable.merged_fields {tag : String} {before after : List Decision} {d : Decision}
    {listed : List String} (hm : m.Reachable) (hmerge : m.merge file tag = (final, none))
    (hd : m.newDecisions final = before ++ d :: after)
    (haction : d.action = .fieldsMerged key listed) :
    let unit := Decl.withoutImports file.decls
    Decision.renamings after = [] ∧
      ∃ target old copy source,
        (m.declared? key = some (.type target) ∧ target.ty = .structType old false) ∧
        (structFields? (Decl.follow before unit) key = some copy ∧
          FieldSet.ofFields .member copy = .ok source) ∧
        final.declared? key = some (.type { target with
          ty := .structType (old ++ addedFields source listed) false }) ∧
        List.Forall₂ (fun k f => ∃ e, source.get? k = some e ∧ f = e.toField)
          (listed.filter (· ∈ source.keys)) (addedFields source listed) ∧
        ((addedFields source listed).length = listed.length ↔
          ∀ k ∈ listed, k ∈ source.keys) ∧
        ∃ earlier since, before = earlier ++ since ∧
          ∃ incoming left right,
            Decl.declared? (Decl.follow earlier unit) key = some (.type incoming) ∧
            TypeSpec.Widens (Decision.renamings since) listed target incoming left right ∧
            (¬Dotted key → (∀ r ∈ Decision.renamings since, key ≠ r.new) → source.keys.Nodup →
              KeepsNames (Decision.renamings since) incoming.memberScope (left.beyond right) →
              addedFields source listed = (left.beyond right).map fun e =>
                (e.renamed (Decision.renamings since) incoming.memberScope).toField) := by
  intro unit
  obtain ⟨htag, ⟨run⟩⟩ := exists_run_of_merge hmerge
  have hagrees : Merger.Agrees { m with units := m.units + 1 } := hm.agrees
  obtain ⟨taken, hnew, hpass⟩ := run.exists_foldPass hagrees htag
  have hsplit : taken ++ run.left.decisions = before ++ d :: after := hnew.symm.trans hd
  obtain ⟨hrenamings, target, copy, source, hfolds⟩ :=
    hpass.folded before d after key listed hsplit haction
  have hjustified := hpass.follows.justified before d after hsplit
  rw [haction] at hjustified
  obtain ⟨earlier, since, rfl, canonical, incoming, hcanonical, hincoming, hstruct, hstruct',
    missing, hcompare⟩ := hjustified
  obtain rfl : canonical = target := by simpa using hcanonical.symm.trans hfolds.registered
  have hlengthen : Renaming.Lengthen (Decision.renamings since) := by
    intro r hr
    refine hpass.follows.lengthen r (List.filterMap_subset _ ?_ hr)
    simp [hsplit]
  obtain ⟨left, right, hwidens⟩ := TypeSpec.exists_widens hlengthen hstruct hstruct' hcompare
  obtain ⟨old, hold, -⟩ := hwidens.left_eq
  have hregistered : m.declared? key = some (.type canonical) := by
    rw [← hcanonical, run.declared?_imported]
    rfl
  have hfolded : final.declared? key = some (.type { canonical with
      ty := .structType (old ++ addedFields source listed) false }) := by
    rw [run.final_eq]
    refine declared?_append_type (m := run.widened.record run.left.decisions) ?_ _
    rw [← TypeSpec.addFields_of_structType hold]
    exact hfolds.folded
  refine ⟨hrenamings, canonical, old, copy, source, ⟨hregistered, hold⟩,
    ⟨hfolds.copy_eq, hfolds.source_eq⟩, hfolded, forall₂_addedFields source listed,
    length_addedFields source listed, earlier, since, rfl, incoming, left, right, hincoming,
    hwidens, fun hdot hothers hnodup hnames => ?_⟩
  have hkey : isBlank key = false := by
    obtain ⟨slot, hslot, -⟩ := declared?_type_iff.1 hcanonical
    exact (run.sameSlots_imported.agrees hagrees).isBlank_eq hslot
  obtain ⟨fields, hfields, hright⟩ := hwidens.right_eq
  obtain ⟨spec, hspec, incomplete, hty⟩ := exists_of_structFields? hfolds.copy_eq
  have hcarries := Decl.carries_follow hkey hdot (hsplit ▸ hpass.fits) hothers hincoming
  -- The copy that the fields are taken from is the one that was compared, renamed since.
  have hcopy : copy = fields.map (Field.mapType
      (Renaming.alongType (Decision.renamings since) incoming.memberScope)) := by
    rcases hcarries with hcarries | hgone
    · obtain rfl : spec = _ := Declared.type.inj (Option.some.inj (hspec.symm.trans hcarries))
      rw [TypeSpec.ty_along_rename, hfields, Renaming.alongType_structType] at hty
      exact (Expr.structType.inj hty).1.symm
    · exact absurd hspec (hgone.declared?_ne spec)
  have hsource := FieldSet.entries_of_ofFields hfolds.source_eq
  rw [hcopy] at hsource
  have hadded := addedFields_beyond (FieldSet.entries_of_ofFields hright) hsource hnodup hnames
  rwa [FieldSet.map_key_beyond, ← FieldSet.not_contains, ← hwidens.added_eq] at hadded

/-- The struct `S` gets a member of the type `T`, which is renamed after `S` is compared, and an
embedded one of the type `E`, which keeps its name. -/
theorem merged_fields_renamed :
    let shared : Field := ⟨["X"], .ident "int", none⟩
    let tag : Literal := ⟨.string, "`y`"⟩
    let m := ((start "out").merge
      ⟨"a", [.ofType "S" (.structType [shared] false), .ofType "T" (.ident "int")]⟩ "A").1
    let file : SourceFile :=
      ⟨"b", [.ofType "S" (.structType [⟨["Y"], .star (.ident "T"), some tag⟩, shared,
          ⟨[], .ident "E", none⟩] false),
        .ofType "T" (.ident "string"), .ofType "E" (.ident "int")]⟩
    let rename : Decision := ⟨1, "B", .renamed "T" "TB" "identifier `int` vs `string`"⟩
    let fold : Decision := ⟨1, "B", .fieldsMerged "S" ["Y", "E"]⟩
    m.newDecisions (m.merge file "B").1 = [rename, fold] ∧
      ∃ target : TypeSpec, m.declared? "S" = some (.type target) ∧
        target.ty = .structType [shared] false ∧
        (m.merge file "B").1.declared? "S" = some (.type { target with
          ty := .structType [shared, ⟨["Y"], .star (.ident "TB"), some tag⟩,
            ⟨[], .ident "E", none⟩] false }) := by
  intro shared tag m file rename fold
  have hm : m.Reachable := .merge _ _ (.start "out")
  have hnone : (m.merge file "B").2 = none := by decide +kernel
  have hmerge : m.merge file "B" = ((m.merge file "B").1, none) := by rw [← hnone]
  have hnew : m.newDecisions (m.merge file "B").1 = [rename] ++ fold :: [] := by decide +kernel
  obtain ⟨-, target, old, copy, source, ⟨htarget, hold⟩, ⟨hcopy, hsource⟩, hfinal, -, -, earlier,
    since, hsplit, incoming, left, right, hincoming, hwidens, hkept⟩ :=
    Reachable.merged_fields hm hmerge hnew rfl
  obtain rfl := Declared.type.inj (Option.some.inj htarget)
  obtain rfl := (Expr.structType.inj hold).1
  obtain rfl := Option.some.inj hcopy
  have hnodup : source.keys.Nodup := by
    rw [FieldSet.keys, FieldSet.entries_of_ofFields hsource]
    decide +kernel
  have hadded : addedFields source ["Y", "E"] =
      [⟨["Y"], .star (.ident "TB"), some tag⟩, ⟨[], .ident "E", none⟩] := by
    obtain ⟨_, hty, hleft⟩ := hwidens.left_eq
    obtain ⟨_, hty', hright⟩ := hwidens.right_eq
    obtain rfl := (Expr.structType.inj hty).1
    -- Whether the comparison comes before or after the renaming, the result is the same.
    rcases List.append_eq_singleton_iff.1 hsplit.symm with ⟨rfl, rfl⟩ | ⟨rfl, rfl⟩ <;>
    · obtain rfl := Declared.type.inj (Option.some.inj hincoming)
      obtain rfl := (Expr.structType.inj hty').1
      rw [FieldSet.ofFields_of_nodup (by decide)] at hleft hright
      obtain rfl := Except.ok.inj hleft
      obtain rfl := Except.ok.inj hright
      rw [hkept (by decide) (by decide) hnodup (by decide +kernel)]
      with_unfolding_all rfl
  rw [hadded] at hfinal
  exact ⟨hnew, _, htarget, hold, hfinal⟩

/-- The second unit's struct `S` embeds its own type `T`, which is renamed after `S` is compared.
The member is reported as merged, and the registered struct has as many fields as before. -/
theorem exists_lost_field :
    ∃ (m : Merger) (file : SourceFile) (tag : String), m.Reachable ∧ (m.merge file tag).2 = none ∧
      ∃ before d after key listed count,
        m.newDecisions (m.merge file tag).1 = before ++ d :: after ∧
        d.action = .fieldsMerged key listed ∧ listed ≠ [] ∧
        (structFields? m.decls key).map List.length = some count ∧
        (structFields? (m.merge file tag).1.decls key).map List.length = some count := by
  refine ⟨((start "out").merge
      ⟨"a", [.ofType "S" (.structType [] false), .ofType "T" (.ident "int")]⟩ "A").1,
    ⟨"b", [.ofType "S" (.structType [⟨[], .ident "T", none⟩] false),
      .ofType "T" (.ident "string")]⟩, "B", .merge _ _ (.start "out"), by decide +kernel,
    [⟨1, "B", .renamed "T" "TB" "identifier `int` vs `string`"⟩],
    ⟨1, "B", .fieldsMerged "S" ["T"]⟩, [], "S", ["T"], 0, ?_⟩
  decide +kernel

end Merger

end GoWeave
