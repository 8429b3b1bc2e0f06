import GoWeave.Merge
import GoWeave.Proofs.Declaration.Changes

/-!
# Steps of a merge

What each step of merging a unit can do, said once: an import, one keyed declaration against the
registry, one widening, and the whole unit if it succeeds. An invariant of a loop needs the cases of
one step only.
-/
namespace GoWeave

/-! ## Decisions -/

/-- The renaming throughout the unit that an action reports. -/
def Action.renaming? : Action → Option Renaming
  | importRenamed old new _ => some ⟨old, new⟩
  | renamed old new _ => some ⟨old, new⟩
  | _ => none

/-- Whether an action is about an import. -/
def Action.isImport : Action → Bool
  | importAdded .. => true
  | importRenamed .. => true
  | _ => false

/-- The renamings that decisions report, in their order. -/
def Decision.renamings (decisions : List Decision) : List Renaming :=
  decisions.filterMap (·.action.renaming?)

/-- The renaming of several names, one after the other. -/
def Decl.renameSeq (rs : List Renaming) (decls : List Decl) : List Decl :=
  rs.foldl (fun decls r => renameAll r decls) decls

@[simp] theorem Decision.renamings_nil : Decision.renamings [] = [] := rfl

@[simp] theorem Decision.renamings_append (ds es : List Decision) :
    Decision.renamings (ds ++ es) = Decision.renamings ds ++ Decision.renamings es :=
  List.filterMap_append

@[simp] theorem Decision.renamings_singleton (d : Decision) :
    Decision.renamings [d] = d.action.renaming?.toList := by
  rw [Decision.renamings, List.filterMap_cons]
  cases d.action.renaming? <;> rfl

theorem Decl.renameSeq_append (rs ss : List Renaming) (decls : List Decl) :
    renameSeq (rs ++ ss) decls = renameSeq ss (renameSeq rs decls) :=
  List.foldl_append

theorem Decl.regular_renameSeq {decls : List Decl} (h : ∀ d ∈ decls, d.Regular)
    (rs : List Renaming) : ∀ d ∈ renameSeq rs decls, d.Regular := by
  induction rs generalizing decls with
  | nil => exact h
  | cons r rs ih => exact ih (regular_renameAll h r)

theorem Decl.withoutImports_renameSeq (rs : List Renaming) (decls : List Decl) :
    withoutImports (renameSeq rs decls) = renameSeq rs (withoutImports decls) := by
  induction rs generalizing decls with
  | nil => rfl
  | cons r rs ih =>
    calc withoutImports (renameSeq rs (renameAll r decls))
        = renameSeq rs (withoutImports (renameAll r decls)) := ih _
      _ = renameSeq rs (renameAll r (withoutImports decls)) := by rw [withoutImports_renameAll]

/-- A renaming that appends a tag, once or several times, to a name that is not blank. -/
def Renaming.Tags (tag : String) (r : Renaming) : Prop :=
  r.old ≠ "_" ∧ ∃ n, r.new = tagged tag r.old (n + 1)

namespace Merger

/-! ## Imports -/

/-- The merger with room for an import: as it is, or with one more import spec. -/
inductive Accepts (m : Merger) : Merger → Prop
  | same : Accepts m m
  | added (imports : Import.Table) (spec : ImportSpec) :
    Accepts m (({ m with imports } : Merger).addImport spec)

/-- What an import of a unit does to the merger and to the unit's declarations. -/
inductive TakesImport (m : Merger) (u : UnitTag) (decls : List Decl) (b : Import.Binding) :
    Merger → List Decl → Prop
  | present : TakesImport m u decls b m decls
  | added (next : Merger) (h : Accepts m next) :
    TakesImport m u decls b (next.record [u.decide (.importAdded b.name b.path)]) decls
  | renamed (next : Merger) (h : Accepts m next) (n : Nat) (hb : b.isSpecial = false) :
    TakesImport m u decls b
      (next.record [u.decide (.importRenamed b.name (tagged u.tag b.name (n + 1)) b.path)])
      (Decl.renameAll ⟨b.name, tagged u.tag b.name (n + 1)⟩ decls)

theorem Accepts.decisions_eq {m next : Merger} (h : Accepts m next) :
    next.decisions = m.decisions := by
  cases h with
  | same => rfl
  | added imports spec =>
    unfold addImport
    split <;> rfl

/-- The search appends the tag as long as it meets names that stand for other paths. It ends at a
name that is free or stands for the path, or else when it has looked at as many as it may. -/
theorem exists_settle_eq (t : Import.Table) (path tag name : String) (limit n : Nat) :
    ∃ k, t.settle path tag limit (tagged tag name n) = tagged tag name (n + k) ∧
      (∀ j < k, ∃ p, t.path? (tagged tag name (n + j)) = some p ∧ p ≠ path) ∧
      (k = limit ∨ t.path? (tagged tag name (n + k)) = none ∨
        t.path? (tagged tag name (n + k)) = some path) := by
  induction limit generalizing n with
  | zero => exact ⟨0, rfl, by omega, .inl rfl⟩
  | succ limit ih =>
    rw [Import.Table.settle]
    split
    · next hfree => exact ⟨0, rfl, by omega, .inr (.inl hfree)⟩
    · next p hp =>
      split
      · next hpath => exact ⟨0, rfl, by omega, .inr (.inr (hpath ▸ hp))⟩
      · next hother =>
        obtain ⟨k, hk, htaken, hend⟩ := ih (n + 1)
        have hshift : ∀ j, n + 1 + j = n + (j + 1) := by omega
        rw [hshift] at hk hend
        refine ⟨k + 1, by rw [← tagged_succ, hk], fun j hj => ?_, hend.imp_left (by omega)⟩
        cases j with
        | zero => exact ⟨p, hp, hother⟩
        | succ j =>
          rw [← hshift]
          exact htaken j (by omega)

theorem exists_taggedName_eq (t : Import.Table) (name path tag : String) :
    ∃ n, t.taggedName name path tag = tagged tag name (n + 1) := by
  obtain ⟨k, hk, -⟩ := exists_settle_eq t path tag name t.names.length 1
  exact ⟨k, by rw [Nat.add_comm]; exact hk⟩

theorem reconcile_cases (t : Import.Table) (b : Import.Binding) (tag : String) :
    (∃ spec t', t.reconcile b tag = (.added spec, t')) ∨ t.reconcile b tag = (.present, t) ∨
      b.isSpecial = false ∧ ∃ n,
        t.reconcile b tag = (.renamed b.name (tagged tag b.name (n + 1)) none, t) ∨
        ∃ spec t', t.reconcile b tag =
          (.renamed b.name (tagged tag b.name (n + 1)) (some spec), t') := by
  unfold Import.Table.reconcile
  by_cases hb : b.isSpecial = true
  · rw [if_pos hb]
    split
    · exact .inr (.inl rfl)
    · exact .inl ⟨_, _, rfl⟩
  · rw [if_neg hb]
    split
    · exact .inl ⟨_, _, rfl⟩
    · split
      · exact .inr (.inl rfl)
      · obtain ⟨n, hn⟩ := exists_taggedName_eq t b.name b.path tag
        refine .inr (.inr ⟨by simpa using hb, n, ?_⟩)
        simp only [hn]
        split
        · exact .inl rfl
        · exact .inr ⟨_, _, rfl⟩

theorem takeImport_cases (m : Merger) (u : UnitTag) (decls : List Decl) (b : Import.Binding) :
    TakesImport m u decls b (m.takeImport u decls b).1 (m.takeImport u decls b).2 := by
  unfold takeImport
  rcases reconcile_cases m.imports b u.tag with ⟨spec, t, h⟩ | h | ⟨hb, n, h | ⟨spec, t, h⟩⟩
  · rw [h]
    exact .added _ (.added t spec)
  · rw [h]
    exact .present
  · rw [h]
    exact .renamed m .same n hb
  · rw [h]
    exact .renamed _ (.added t spec) n hb

/-- A property of the merger and the unit that every import keeps holds when all are taken. -/
theorem takeImports_run {P : Merger → List Decl → Prop} {u : UnitTag} {bs : List Import.Binding}
    {m : Merger} {decls : List Decl} (h : P m decls)
    (step : ∀ b ∈ bs, ∀ m decls m' decls', P m decls → TakesImport m u decls b m' decls' →
      P m' decls') :
    P (m.takeImports u decls bs).1 (m.takeImports u decls bs).2 := by
  induction bs generalizing m decls with
  | nil => exact h
  | cons b bs ih =>
    rw [takeImports]
    refine ih ?_ fun c hc => step c (List.mem_cons_of_mem b hc)
    exact step b List.mem_cons_self m decls _ _ h (takeImport_cases m u decls b)

/-- The imports rename some names throughout the unit and record each renaming. -/
theorem exists_takeImports_eq (m : Merger) (u : UnitTag) (decls : List Decl)
    (bs : List Import.Binding) :
    ∃ taken, (m.takeImports u decls bs).1.decisions = m.decisions ++ taken ∧
      (m.takeImports u decls bs).2 = Decl.renameSeq (Decision.renamings taken) decls ∧
      (∀ d ∈ taken, d.action.isImport = true) ∧
      ∀ r ∈ Decision.renamings taken, r.Tags u.tag := by
  refine takeImports_run (P := fun m' decls' => ∃ taken, m'.decisions = m.decisions ++ taken ∧
    decls' = Decl.renameSeq (Decision.renamings taken) decls ∧
      (∀ d ∈ taken, d.action.isImport = true) ∧
      ∀ r ∈ Decision.renamings taken, r.Tags u.tag) ⟨[], by simp, rfl, by simp, by simp⟩ ?_
  rintro b - m₁ decls₁ m₂ decls₂ ⟨taken, hm, rfl, himport, htags⟩ hstep
  have hconcat : ∀ d : Decision, d.action.isImport = true →
      ∀ e ∈ taken ++ [d], e.action.isImport = true := by
    intro d hd e he
    rcases List.mem_append.1 he with he | he
    · exact himport e he
    · rw [List.mem_singleton] at he
      rwa [he]
  cases hstep with
  | present => exact ⟨taken, hm, rfl, himport, htags⟩
  | added next h =>
    refine ⟨taken ++ [u.decide (.importAdded b.name b.path)], ?_, ?_, hconcat _ rfl, ?_⟩
    · rw [record, h.decisions_eq, hm, List.append_assoc]
    · simp [Action.renaming?, UnitTag.decide]
    · simpa [Action.renaming?, UnitTag.decide] using htags
  | renamed next h n hb =>
    refine ⟨taken ++ [u.decide (.importRenamed b.name (tagged u.tag b.name (n + 1)) b.path)],
      ?_, ?_, hconcat _ rfl, ?_⟩
    · rw [record, h.decisions_eq, hm, List.append_assoc]
    · simp [Action.renaming?, UnitTag.decide, Decl.renameSeq]
    · intro r hr
      rw [Decision.renamings_append, List.mem_append] at hr
      rcases hr with hr | hr
      · exact htags r hr
      · have hr : r = ⟨b.name, tagged u.tag b.name (n + 1)⟩ := by
          simpa [Action.renaming?, UnitTag.decide] using hr
        rw [hr]
        refine ⟨fun hname => ?_, n, rfl⟩
        have hname : b.name = "_" := hname
        simp [Import.Binding.isSpecial, hname] at hb

/-! ## Keyed declarations -/

/-- A key that the registry and the declarations of a unit have in common, with the declaration on
either side. -/
structure Meeting (m : Merger) (decls : List Decl) (key : String) where
  canonicalSlot : Slot
  canonical : Declared
  slot : Slot
  incoming : Declared
  slot?_eq : m.slot? key = some canonicalSlot
  canonical_eq : Decl.snapshot? m.decls canonicalSlot = some canonical
  locate?_eq : Decl.locate? decls key = some slot
  incoming_eq : Decl.snapshot? decls slot = some incoming

/-- What resolving one keyed declaration can do. -/
inductive Resolves (m : Merger) (u : UnitTag) (key : String) (kind : DeclKind) (res : Resolution) :
    Resolution → Prop
  | keep (h : IsEmpty (Meeting m res.decls key)) : Resolves m u key kind res res
  | drop (meet : Meeting m res.decls key) (h : judge meet.canonical meet.incoming = .ok .drop) :
    Resolves m u key kind res
      { res with
        decls := Decl.remove key res.decls
        decisions := res.decisions ++ [u.decide (.duplicateDropped key)] }
  | widen (meet : Meeting m res.decls key) (fields : List String)
      (h : judge meet.canonical meet.incoming = .ok (.widen fields)) :
    Resolves m u key kind res
      { res with widenings := res.widenings ++ [⟨key, meet.canonicalSlot, fields⟩] }
  | rename (meet : Meeting m res.decls key) (reason : String)
      (h : judge meet.canonical meet.incoming = .ok (.rename reason)) (hkind : kind ≠ .method) :
    Resolves m u key kind res
      { res with
        decls := Decl.renameAll ⟨key, key ++ u.tag⟩ res.decls
        decisions := res.decisions ++ [u.decide (.renamed key (key ++ u.tag) reason)] }
  | renameMethod (meet : Meeting m res.decls key) (reason : String)
      (h : judge meet.canonical meet.incoming = .ok (.rename reason)) (hkind : kind = .method) :
    Resolves m u key kind res (Merger.renameMethod u reason meet.slot res)

theorem resolve_cases {m : Merger} {u : UnitTag} {key : String} {kind : DeclKind}
    {res res' : Resolution} (h : m.resolve u key kind res = .ok res') :
    Resolves m u key kind res res' := by
  by_cases hmeet : Nonempty (Meeting m res.decls key)
  · obtain ⟨meet⟩ := hmeet
    simp only [resolve, meet.slot?_eq, meet.canonical_eq, meet.locate?_eq, meet.incoming_eq] at h
    cases hj : judge meet.canonical meet.incoming with
    | error fault => simp [hj] at h
    | ok verdict =>
      cases verdict with
      | drop =>
        simp only [hj, Except.ok.injEq] at h
        exact h ▸ .drop meet hj
      | widen fields =>
        simp only [hj, Except.ok.injEq] at h
        exact h ▸ .widen meet fields hj
      | rename reason =>
        simp only [hj] at h
        split at h
        · exact Except.ok.inj h ▸ .renameMethod meet reason hj ‹_›
        · exact Except.ok.inj h ▸ .rename meet reason hj ‹_›
  · -- Every way not to meet leaves the unit as it is.
    have hkeep : Resolves m u key kind res res := .keep ⟨fun meet => hmeet ⟨meet⟩⟩
    unfold resolve at h
    split at h
    · exact Except.ok.inj h ▸ hkeep
    · next canonicalSlot hslot =>
      split at h
      · next slot canonical hlocate hcanonical =>
        split at h
        · exact Except.ok.inj h ▸ hkeep
        · next incoming hincoming =>
          exact absurd ⟨⟨canonicalSlot, canonical, slot, incoming, hslot, hcanonical, hlocate,
            hincoming⟩⟩ hmeet
      · exact Except.ok.inj h ▸ hkeep

/-- A property of the pending entries and the state that resolving one entry keeps holds at the end
with none pending. -/
theorem resolveAll_run {P : List (String × DeclKind) → Resolution → Prop} {m : Merger} {u : UnitTag}
    (step : ∀ key kind entries res res', P ((key, kind) :: entries) res →
      Resolves m u key kind res res' → P entries res')
    {entries : List (String × DeclKind)} {res res' : Resolution} (h : P entries res)
    (hres : m.resolveAll u entries res = .ok res') : P [] res' := by
  induction entries generalizing res with
  | nil => exact Except.ok.inj hres ▸ h
  | cons e entries ih =>
    obtain ⟨key, kind⟩ := e
    rw [resolveAll] at hres
    split at hres
    · simp at hres
    · next next hnext => exact ih (step key kind entries res next h (resolve_cases hnext)) hres

/-- Resolving a declaration only adds to the decisions. -/
theorem Resolves.exists_decisions_eq {m : Merger} {u : UnitTag} {key : String} {kind : DeclKind}
    {res res' : Resolution} (h : Resolves m u key kind res res') :
    ∃ more, res'.decisions = res.decisions ++ more := by
  cases h with
  | keep h => exact ⟨[], by simp⟩
  | drop meet h => exact ⟨_, rfl⟩
  | widen meet fields h => exact ⟨[], by simp⟩
  | rename meet reason h hkind => exact ⟨_, rfl⟩
  | renameMethod meet reason h hkind =>
    unfold Merger.renameMethod
    split
    · split
      · exact ⟨_, rfl⟩
      · exact ⟨[], by simp⟩
    · exact ⟨[], by simp⟩

theorem Resolves.regular {m : Merger} {u : UnitTag} {key : String} {kind : DeclKind}
    {res res' : Resolution} (h : Resolves m u key kind res res')
    (hreg : ∀ d ∈ res.decls, d.Regular) : ∀ d ∈ res'.decls, d.Regular := by
  cases h with
  | keep h => exact hreg
  | drop meet h => exact Decl.regular_remove hreg key
  | widen meet fields h => exact hreg
  | rename meet reason h hkind => exact Decl.regular_renameAll hreg _
  | renameMethod meet reason h hkind =>
    unfold Merger.renameMethod
    split
    · split
      · exact Decl.regular_set hreg _ _
      · exact hreg
    · exact hreg

theorem regular_resolveAll {m : Merger} {u : UnitTag} {entries : List (String × DeclKind)}
    {res res' : Resolution} (hreg : ∀ d ∈ res.decls, d.Regular)
    (h : m.resolveAll u entries res = .ok res') : ∀ d ∈ res'.decls, d.Regular :=
  resolveAll_run (P := fun _ res => ∀ d ∈ res.decls, d.Regular)
    (fun _ _ _ _ _ hreg hstep => hstep.regular hreg) hreg h

/-! ## Widenings -/

/-- What one widening can do. -/
inductive Widens (m : Merger) (u : UnitTag) (res : Resolution) (w : Widening) :
    Merger → Resolution → Prop
  | skip (h : ∀ fields target, structFields? res.decls w.key = some fields →
      Decl.typeSpec? m.decls w.canonical = some target → target.ty.isStructType = false) :
    Widens m u res w m res
  | merge (fields : List Field) (source : FieldSet) (target : TypeSpec)
      (hfields : structFields? res.decls w.key = some fields)
      (hsource : FieldSet.ofFields .member fields = .ok source)
      (htarget : Decl.typeSpec? m.decls w.canonical = some target)
      (hstruct : target.ty.isStructType = true) :
    Widens m u res w
      { m with
        decls := Decl.modifyTypeSpec m.decls w.canonical
          (TypeSpec.addFields (addedFields source w.fields)) }
      { res with
        decls := Decl.remove w.key res.decls
        decisions := res.decisions ++ [u.decide (.fieldsMerged w.key w.fields)] }

theorem widen_cases {m m' : Merger} {u : UnitTag} {res res' : Resolution} {w : Widening}
    (h : m.widen u res w = .ok (m', res')) : Widens m u res w m' res' := by
  unfold widen at h
  split at h
  · next hfields =>
    cases h
    exact .skip fun fields target hf => by simp [hfields] at hf
  · next fields hfields =>
    split at h
    · simp at h
    · next source hsource =>
      split at h
      · next target htarget =>
        split at h
        · next hstruct =>
          cases h
          exact .merge fields source target hfields hsource htarget hstruct
        · next hstruct =>
          cases h
          refine .skip fun fields' target' _ ht => ?_
          rw [htarget, Option.some.injEq] at ht
          simpa [ht] using hstruct
      · next htarget =>
        cases h
        exact .skip fun fields' target' _ ht => by simp [htarget] at ht

/-- A property of the pending widenings, the merger and the unit that one widening keeps holds at
the end with none pending. -/
theorem widenAll_run {P : List Widening → Merger → Resolution → Prop} {u : UnitTag}
    (step : ∀ w ws m res m' res', P (w :: ws) m res → Widens m u res w m' res' → P ws m' res')
    {ws : List Widening} {m m' : Merger} {res res' : Resolution} (h : P ws m res)
    (hres : widenAll u ws m res = .ok (m', res')) : P [] m' res' := by
  induction ws generalizing m res with
  | nil =>
    cases hres
    exact h
  | cons w ws ih =>
    rw [widenAll] at hres
    split at hres
    · simp at hres
    · next next => exact ih (step w ws m res _ _ h (widen_cases next)) hres

/-! ## Units -/

/-- The types, values and functions of a unit, which are resolved before its methods. -/
def plainEntries (decls : List Decl) : List (String × DeclKind) :=
  (Decl.collect decls).filter (·.2 ≠ .method)

def methodEntries (decls : List Decl) : List (String × DeclKind) :=
  (Decl.collect decls).filter (·.2 = .method)

theorem nodup_plainEntries (decls : List Decl) : ((plainEntries decls).map (·.1)).Nodup :=
  (Decl.nodup_firstOfKey [] _).sublist (List.filter_sublist.map _)

theorem nodup_methodEntries (decls : List Decl) : ((methodEntries decls).map (·.1)).Nodup :=
  (Decl.nodup_firstOfKey [] _).sublist (List.filter_sublist.map _)

/-- The keys that are resolved first are those whose first head is no method. -/
theorem mem_plainEntries_iff {decls : List Decl} (hreg : ∀ d ∈ decls, d.Regular) {key : String} :
    key ∈ (plainEntries decls).map (·.1) ↔
      ∃ h, Head.first? key (Decl.headsAll decls) = some h ∧ h.isMethod = false := by
  rw [← Decl.exists_mem_collect_iff hreg]
  simp [plainEntries]

theorem mem_methodEntries_iff {decls : List Decl} (hreg : ∀ d ∈ decls, d.Regular) {key : String} :
    key ∈ (methodEntries decls).map (·.1) ↔
      ∃ h, Head.first? key (Decl.headsAll decls) = some h ∧ h.isMethod = true := by
  rw [← Decl.exists_mem_collect_iff hreg]
  simp [methodEntries]

/-- The stages of a unit until only its widenings are left to be made. -/
structure UnitPasses (m : Merger) (u : UnitTag) (file : SourceFile) where
  bindings : List Import.Binding
  /-- The merger and the unit's declarations once the imports are taken. -/
  imported : Merger
  decls : List Decl
  /-- The unit after its types, values and functions, and after its methods. -/
  plain : Resolution
  methods : Resolution
  bindings_eq : Import.Binding.collect file = .ok bindings
  imported_eq : m.takeImports u file.decls bindings = (imported, decls)
  plain_eq : imported.resolveAll u (plainEntries (Decl.withoutImports decls))
    ⟨Decl.withoutImports decls, [], []⟩ = .ok plain
  methods_eq : imported.resolveAll u (methodEntries plain.decls) plain = .ok methods

/-- The stages of a unit that is merged without an error. -/
structure UnitRun (m : Merger) (u : UnitTag) (file : SourceFile) (final : Merger) extends
    UnitPasses m u file where
  widened : Merger
  left : Resolution
  widened_eq : widenAll u methods.widenings imported methods = .ok (widened, left)
  final_eq : final = (widened.record left.decisions).append left.decls

theorem exists_run_of_mergeTagged {m final : Merger} {u : UnitTag} {file : SourceFile}
    (h : m.mergeTagged u file = (final, none)) : Nonempty (UnitRun m u file final) := by
  unfold mergeTagged at h
  split at h
  · simp at h
  · next bindings hbindings =>
    rcases himported : m.takeImports u file.decls bindings with ⟨imported, decls⟩
    simp only [himported] at h
    split at h
    · simp at h
    · next plain hplain =>
      split at h
      · simp at h
      · next methods hmethods =>
        split at h
        · simp at h
        · next widened left hwidened =>
          exact ⟨⟨⟨bindings, imported, decls, plain, methods, hbindings, himported, hplain,
            hmethods⟩, widened, left, hwidened, (congrArg Prod.fst h).symm⟩⟩

/-- A unit that is merged without an error has a tag and goes through all stages. -/
theorem exists_run_of_merge {m final : Merger} {file : SourceFile} {tag : String}
    (h : m.merge file tag = (final, none)) :
    tag ≠ "" ∧
      Nonempty (UnitRun { m with units := m.units + 1 } ⟨m.units, tag⟩ file final) := by
  unfold merge at h
  split at h
  · simp at h
  · next htag =>
    refine ⟨by simpa using htag, exists_run_of_mergeTagged ?_⟩
    simpa [Prod.ext_iff] using h

theorem Widens.exists_decisions_eq {m m' : Merger} {u : UnitTag} {res res' : Resolution}
    {w : Widening} (h : Widens m u res w m' res') :
    m'.decisions = m.decisions ∧ ∃ more, res'.decisions = res.decisions ++ more := by
  cases h with
  | skip h => exact ⟨rfl, [], by simp⟩
  | merge => exact ⟨rfl, _, rfl⟩

/-- The decisions that merging a unit adds. -/
def newDecisions (m final : Merger) : List Decision :=
  final.decisions.drop m.decisions.length

/-- The decisions about the imports of a unit, which rename names throughout. -/
theorem UnitPasses.exists_taken {m : Merger} {u : UnitTag} {file : SourceFile}
    (p : UnitPasses m u file) :
    ∃ taken, p.imported.decisions = m.decisions ++ taken ∧
      p.decls = Decl.renameSeq (Decision.renamings taken) file.decls ∧
      (∀ d ∈ taken, d.action.isImport = true) ∧
      ∀ r ∈ Decision.renamings taken, r.Tags u.tag := by
  have h := exists_takeImports_eq m u file.decls p.bindings
  rwa [p.imported_eq] at h

/-- The decisions of a unit: those about its imports, and then all others. -/
theorem UnitRun.newDecisions_eq {m final : Merger} {u : UnitTag} {file : SourceFile}
    (run : UnitRun m u file final) {taken : List Decision}
    (htaken : run.imported.decisions = m.decisions ++ taken) :
    m.newDecisions final = taken ++ run.left.decisions := by
  have hwidened : run.widened.decisions = run.imported.decisions :=
    widenAll_run (P := fun _ m' _ => m'.decisions = run.imported.decisions)
      (fun _ _ _ _ _ _ h hstep => hstep.exists_decisions_eq.1.trans h) rfl run.widened_eq
  simp [newDecisions, run.final_eq, append, record, hwidened, htaken]

theorem UnitRun.decls_eq {m final : Merger} {u : UnitTag} {file : SourceFile}
    (run : UnitRun m u file final) : final.decls = run.widened.decls ++ run.left.decls :=
  congrArg Merger.decls run.final_eq

/-- Mergers that some units in turn, failing or not, lead to. -/
inductive Reachable : Merger → Prop
  | start (package : String) : Reachable (start package)
  | merge {m : Merger} (file : SourceFile) (tag : String) :
    Reachable m → Reachable (m.merge file tag).1

end Merger

/-! ## Small declarations -/

namespace Decl

def ofImport (name path : String) : Decl :=
  .group ⟨.import_, [.imported ⟨some name, ⟨.string, "`" ++ path ++ "`"⟩⟩], false⟩

def ofType (name : String) (ty : Expr) : Decl :=
  .group ⟨.type, [.type ⟨name, none, false, ty⟩], false⟩

def ofFunc (name : String) : Decl :=
  .func ⟨none, name, ⟨none, [], none⟩, some []⟩

def ofMethod (recv : Expr) (name : String) : Decl :=
  .func ⟨some [⟨["x"], recv, none⟩], name, ⟨none, [], none⟩, some []⟩

end Decl

end GoWeave
