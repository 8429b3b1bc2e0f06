import GoWeave.Proofs.Merge.Outcome

/-!
# The shared import group

All imports of the output stand in one group, which comes with the first import and goes to the
front at the end. The group and the import table grow together: a name that enters the table comes
with a spec that is read back as that name with its path, whether the name is written out or implied
by the path. So the finished file imports exactly what the table says.
-/
namespace GoWeave

/-! ## Reading specs back -/

namespace Import.Binding

/-- The name with its path. -/
def entry (b : Binding) : String × String :=
  (b.name, b.path)

/-- The binding of a spec is the one that reading the spec gives. -/
def IsRead (b : Binding) : Prop :=
  ofSpec b.spec = .ok b

theorem unquote_of_isRead {b : Binding} (h : b.IsRead) :
    unquote b.spec.path.value = .ok b.path := by
  unfold IsRead ofSpec at h
  split at h
  · simp at h
  · next path hpath =>
    have hpath' := congrArg Binding.path (Except.ok.inj h)
    rw [hpath, ← hpath']

theorem isRead_of_ofSpec {spec : ImportSpec} {b : Binding} (h : ofSpec spec = .ok b) :
    b.IsRead := by
  have hspec : b.spec = spec := by
    unfold ofSpec at h
    split at h
    · simp at h
    · exact (congrArg Binding.spec (Except.ok.inj h)).symm
  rw [IsRead, hspec, h]

/-- A spec that imports the path of a binding under a name is read back as that name, also where
the name is left out. -/
theorem isRead_specAs {b : Binding} (h : b.IsRead) (name : String) :
    IsRead ⟨name, b.path, b.specAs name⟩ := by
  have hunquote := unquote_of_isRead h
  unfold IsRead ofSpec
  simp only [specAs, hunquote]
  split
  · next hname => simp [hname]
  · simp

theorem collect_of_isRead {file : SourceFile} {bs : List Binding}
    (himports : file.imports = bs.map (·.spec)) (h : ∀ b ∈ bs, b.IsRead) :
    collect file = .ok bs := by
  rw [collect, himports]
  clear himports
  induction bs with
  | nil => rfl
  | cons b bs ih =>
    have hhead : ofSpec b.spec = .ok b := h b List.mem_cons_self
    have htail := ih fun c hc => h c (List.mem_cons_of_mem b hc)
    rw [List.map_cons, List.mapM_cons, hhead, htail]
    rfl

theorem isRead_of_mem_collect {file : SourceFile} {bs : List Binding}
    (h : collect file = .ok bs) {b : Binding} (hb : b ∈ bs) :
    b.IsRead ∧ ∃ spec ∈ file.imports, ofSpec spec = .ok b := by
  suffices hmem : ∃ spec ∈ file.imports, ofSpec spec = .ok b by
    obtain ⟨spec, hspec, hread⟩ := hmem
    exact ⟨isRead_of_ofSpec hread, spec, hspec, hread⟩
  rw [collect] at h
  generalize file.imports = specs at h ⊢
  induction specs generalizing bs with
  | nil =>
    cases h
    simp at hb
  | cons spec specs ih =>
    rw [List.mapM_cons] at h
    cases hhead : ofSpec spec with
    | error fault =>
      rw [hhead] at h
      cases h
    | ok c =>
      cases htail : specs.mapM ofSpec with
      | error fault =>
        rw [hhead, htail] at h
        cases h
      | ok cs =>
        rw [hhead, htail] at h
        cases h
        rcases List.mem_cons.1 hb with rfl | hb
        · exact ⟨spec, List.mem_cons_self, hhead⟩
        · obtain ⟨spec', hspec', hread⟩ := ih hb htail
          exact ⟨spec', List.mem_cons_of_mem spec hspec', hread⟩

end Import.Binding

/-! ## Insertions -/

namespace Import

/-- The spec that an import adds to the shared group. -/
def Reconciled.spec? : Reconciled → Option ImportSpec
  | added spec => some spec
  | present => none
  | renamed _ _ spec => spec

/-- One more import in a table. A name has no path before, and a blank or dot import is not there
yet. -/
inductive Table.Inserts (t : Table) (b : Binding) : Table → Prop
  | ordinary (h : b.isSpecial = false) (hnew : t.path? b.name = none) :
    Inserts t b (t.insert b.name b.path)
  | special (h : b.isSpecial = true) (hnew : b.entry ∉ t.special) :
    Inserts t b { t with special := b.entry :: t.special }

/-- A tagged name is longer than a blank or a dot. -/
theorem Binding.isSpecial_tagged {tag name : String} (htag : tag ≠ "") (hname : name ≠ "") (n : Nat)
    (path : String) (spec : ImportSpec) :
    isSpecial ⟨tagged tag name (n + 1), path, spec⟩ = false := by
  have hlonger := length_lt_tagged htag name n
  have hpos : 0 < name.length := by
    rcases Nat.eq_zero_or_pos name.length with hzero | hpos
    · exact absurd (String.length_eq_zero_iff.1 hzero) hname
    · exact hpos
  have hne : ∀ short : String, short.length = 1 → tagged tag name (n + 1) ≠ short := by
    intro short hshort heq
    rw [heq] at hlonger
    omega
  simp [isSpecial, hne "_" rfl, hne "." rfl]

/-- An import either changes nothing in the table and in the group, or it inserts into both what is
read from one spec. -/
theorem Table.reconcile_inserts {t : Table} {b : Binding} {tag : String} (hb : b.IsRead)
    (hname : b.name ≠ "") (htag : tag ≠ "") :
    (t.reconcile b tag).1.spec? = none ∧ (t.reconcile b tag).2 = t ∨
      ∃ c : Binding, c.IsRead ∧ (t.reconcile b tag).1.spec? = some c.spec ∧
        t.Inserts c (t.reconcile b tag).2 := by
  unfold reconcile
  by_cases hspecial : b.isSpecial = true
  · rw [if_pos hspecial]
    split
    · exact .inl ⟨rfl, rfl⟩
    · next hnew => exact .inr ⟨b, hb, rfl, .special hspecial (by simpa [Binding.entry] using hnew)⟩
  · rw [if_neg hspecial]
    split
    · next hnew =>
      have hordinary : Binding.isSpecial ⟨b.name, b.path, b.specAs b.name⟩ = false := by
        simpa only [Binding.isSpecial, Bool.not_eq_true] using hspecial
      exact .inr ⟨_, Binding.isRead_specAs hb b.name, rfl, .ordinary hordinary hnew⟩
    · split
      · exact .inl ⟨rfl, rfl⟩
      · obtain ⟨n, hn⟩ := Merger.exists_taggedName_eq t b.name b.path tag
        simp only [hn]
        split
        · exact .inl ⟨rfl, rfl⟩
        · next hnew =>
          refine .inr ⟨⟨_, b.path, b.specAs _⟩, Binding.isRead_specAs hb _, rfl, ?_⟩
          exact .ordinary (Binding.isSpecial_tagged htag hname n _ _) hnew

end Import

namespace Merger

/-- The merger with the spec that an import adds, if it adds one. -/
def accept (m : Merger) : Option ImportSpec → Merger
  | none => m
  | some spec => m.addImport spec

theorem exists_takeImport_eq (m : Merger) (u : UnitTag) (decls : List Decl) (b : Import.Binding) :
    ∃ decisions, (m.takeImport u decls b).1 =
      (({ m with imports := (m.imports.reconcile b u.tag).2 } : Merger).accept
        (m.imports.reconcile b u.tag).1.spec?).record decisions := by
  unfold takeImport
  rcases m.imports.reconcile b u.tag with ⟨outcome, imports⟩
  cases outcome with
  | added spec => exact ⟨_, rfl⟩
  | present => exact ⟨[], by simp [record, accept, Import.Reconciled.spec?]⟩
  | renamed old new spec =>
    cases spec with
    | none => exact ⟨_, rfl⟩
    | some spec => exact ⟨_, rfl⟩

end Merger

/-! ## Changing a type spec -/

def Spec.modifyType (f : TypeSpec → TypeSpec) : Spec → Spec
  | .type t => .type (f t)
  | s => s

namespace Decl

/-- The declaration with the type spec at an index of its group changed. -/
def modifyType (k : Nat) (f : TypeSpec → TypeSpec) : Decl → Decl
  | .group g => .group { g with specs := g.specs.modify k (Spec.modifyType f) }
  | d => d

theorem modifyTypeSpec_eq (decls : List Decl) (slot : Slot) (f : TypeSpec → TypeSpec) :
    (∃ i k, slot = .type i k ∧ modifyTypeSpec decls slot f = decls.modify i (modifyType k f)) ∨
      modifyTypeSpec decls slot f = decls := by
  cases slot with
  | func i => exact .inr rfl
  | value i k n => exact .inr rfl
  | type i k => exact .inl ⟨i, k, rfl, rfl⟩

@[simp] theorem isImport_modifyType (k : Nat) (f : TypeSpec → TypeSpec) (d : Decl) :
    (d.modifyType k f).isImport = d.isImport := by
  cases d <;> rfl

/-! ## The group -/

/-- A group of imports. -/
def ofImports (specs : List ImportSpec) : Decl :=
  .group ⟨.import_, specs.map .imported, false⟩

@[simp] theorem isImport_ofImports (specs : List ImportSpec) : (ofImports specs).isImport = true :=
  rfl

theorem modifyType_ofImports (specs : List ImportSpec) (k : Nat) (f : TypeSpec → TypeSpec) :
    (ofImports specs).modifyType k f = ofImports specs := by
  have hspecs : (specs.map Spec.imported).modify k (Spec.modifyType f) = specs.map .imported := by
    refine List.ext_getElem? fun i => ?_
    rw [List.getElem?_modify, List.getElem?_map]
    cases specs[i]? with
    | none => rfl
    | some spec => split <;> rfl
  rw [ofImports, modifyType, hspecs]

/-- One group of all imports, if there is any. -/
def importGroup (specs : List ImportSpec) : List Decl :=
  if specs.isEmpty then [] else [ofImports specs]

theorem isImport_of_mem_importGroup {specs : List ImportSpec} :
    ∀ d ∈ importGroup specs, d.isImport = true := by
  intro d hd
  unfold importGroup at hd
  split at hd
  · simp at hd
  · simp [List.mem_singleton.1 hd]

theorem withoutImports_importGroup (specs : List ImportSpec) :
    withoutImports (importGroup specs) = [] :=
  List.filter_eq_nil_iff.2 fun d hd => by simp [isImport_of_mem_importGroup d hd]

/-- The import specs of a declaration. -/
def imports : Decl → List ImportSpec
  | .group g =>
    if g.tok = .import_ then g.specs.filterMap fun | .imported spec => some spec | _ => none else []
  | _ => []

theorem imports_of_isImport_eq_false {d : Decl} (h : d.isImport = false) : d.imports = [] := by
  cases d with
  | group g => exact if_neg (by simpa [isImport] using h)
  | func f => rfl
  | bad node => rfl

theorem imports_ofImports (specs : List ImportSpec) : (ofImports specs).imports = specs := by
  simp only [imports, ofImports, if_true]
  induction specs with
  | nil => rfl
  | cons spec specs ih => rw [List.map_cons, List.filterMap_cons, ih]

theorem flatMap_imports_importGroup (specs : List ImportSpec) :
    (importGroup specs).flatMap imports = specs := by
  unfold importGroup
  split
  · next hempty => rw [List.isEmpty_iff.1 hempty, List.flatMap_nil]
  · rw [List.flatMap_cons, imports_ofImports, List.flatMap_nil, List.append_nil]

end Decl

theorem SourceFile.imports_eq_flatMap (file : SourceFile) :
    file.imports = file.decls.flatMap Decl.imports := by
  unfold imports
  congr 1

namespace Merger

/-- The shared group holds the given imports: it stands at its index, it is there once there is an
import, and no other declaration is an import. -/
structure HoldsImports (m : Merger) (specs : List ImportSpec) : Prop where
  group : ∀ i, m.importGroup = some i → m.decls[i]? = some (Decl.ofImports specs)
  absent_iff : m.importGroup = none ↔ specs = []
  only : ∀ i d, m.decls[i]? = some d → d.isImport = true → m.importGroup = some i

namespace HoldsImports

variable {m : Merger} {specs : List ImportSpec}

theorem start (package : String) : HoldsImports (start package) [] :=
  ⟨by simp [Merger.start], by simp [Merger.start], by simp [Merger.start]⟩

/-- Only the declarations and the place of the shared group count. -/
theorem congr {m' : Merger} (h : m.HoldsImports specs) (hgroup : m'.importGroup = m.importGroup)
    (hdecls : m'.decls = m.decls) : m'.HoldsImports specs := by
  constructor
  · rw [hgroup, hdecls]
    exact h.group
  · rw [hgroup]
    exact h.absent_iff
  · rw [hgroup, hdecls]
    exact h.only

theorem addImport (h : m.HoldsImports specs) (spec : ImportSpec) :
    (m.addImport spec).HoldsImports (specs ++ [spec]) := by
  unfold Merger.addImport
  split
  · next i hi =>
    refine ⟨fun j hj => ?_, by simp [hi], fun j d hd himport => ?_⟩
    · have hj : m.importGroup = some j := hj
      rw [hi, Option.some.injEq] at hj
      subst hj
      simp [h.group i hi, Decl.ofImports]
    · rw [List.getElem?_modify] at hd
      obtain ⟨d₀, hd₀, rfl⟩ := Option.map_eq_some_iff.1 hd
      refine h.only j d₀ hd₀ ?_
      split at himport
      · cases d₀ <;> exact himport
      · exact himport
  · next hnone =>
    have hspecs := h.absent_iff.1 hnone
    refine ⟨fun j hj => ?_, by simp, fun j d hd himport => ?_⟩
    · cases hj
      simp [hspecs, Decl.ofImports]
    · rcases Nat.lt_or_ge j m.decls.length with hj | hj
      · rw [List.getElem?_append_left hj] at hd
        have hsome := h.only j d hd himport
        simp [hnone] at hsome
      · -- Only the last place is left.
        rw [List.getElem?_append_right hj] at hd
        have hlast := (List.getElem?_eq_some_iff.1 hd).1
        rw [List.length_singleton] at hlast
        have hj : j = m.decls.length := by omega
        rw [hj]

theorem modify (h : m.HoldsImports specs) {f : Decl → Decl} (i : Nat)
    (hf : ∀ d, (f d).isImport = d.isImport)
    (hgroup : f (Decl.ofImports specs) = Decl.ofImports specs) :
    ({ m with decls := m.decls.modify i f } : Merger).HoldsImports specs := by
  refine ⟨fun j hj => ?_, h.absent_iff, fun j d hd himport => ?_⟩
  · have hj := h.group j hj
    dsimp only
    rw [List.getElem?_modify, hj]
    split
    · exact congrArg some hgroup
    · rfl
  · dsimp only at hd ⊢
    rw [List.getElem?_modify] at hd
    obtain ⟨d₀, hd₀, rfl⟩ := Option.map_eq_some_iff.1 hd
    refine h.only j d₀ hd₀ ?_
    split at himport
    · rwa [hf] at himport
    · exact himport

theorem widens {m' : Merger} {u : UnitTag} {res res' : Resolution} {w : Widening}
    (h : m.HoldsImports specs) (hstep : Widens m u res w m' res') : m'.HoldsImports specs := by
  cases hstep with
  | skip hskip => exact h
  | merge fields source target hfields hsource htarget hstruct =>
    rcases Decl.modifyTypeSpec_eq m.decls w.canonical
      (TypeSpec.addFields (addedFields source w.fields)) with ⟨i, k, -, heq⟩ | heq
    · rw [heq]
      exact h.modify i (Decl.isImport_modifyType k _) (Decl.modifyType_ofImports specs k _)
    · rw [heq]
      exact h

theorem append (h : m.HoldsImports specs) {decls : List Decl}
    (hdecls : ∀ d ∈ decls, d.isImport = false) : (m.append decls).HoldsImports specs := by
  refine ⟨fun i hi => ?_, h.absent_iff, fun i d hd himport => ?_⟩
  · have hgroup := h.group i hi
    have hlt := (List.getElem?_eq_some_iff.1 hgroup).1
    exact (List.getElem?_append_left hlt).trans hgroup
  · have hd : (m.decls ++ decls)[i]? = some d := hd
    rcases Nat.lt_or_ge i m.decls.length with hi | hi
    · rw [List.getElem?_append_left hi] at hd
      exact h.only i d hd himport
    · rw [List.getElem?_append_right hi] at hd
      simp [hdecls d (List.mem_of_getElem? hd)] at himport

/-- A declaration away from the shared group is no import. -/
theorem isImport_eq_false (h : m.HoldsImports specs) {i : Nat} {d : Decl}
    (hd : m.decls[i]? = some d) (hi : m.importGroup ≠ some i) : d.isImport = false :=
  Bool.eq_false_iff.2 fun himport => hi (h.only i d hd himport)

/-- The shared group, if there is one, stands among declarations that are no imports, and finishing
moves it to the front. -/
theorem exists_split (h : m.HoldsImports specs) :
    ∃ before after, m.decls = before ++ (Decl.importGroup specs ++ after) ∧
      m.finish.decls = Decl.importGroup specs ++ (before ++ after) ∧
      ∀ d ∈ before ++ after, d.isImport = false := by
  unfold finish
  cases hi : m.importGroup with
  | none =>
    refine ⟨m.decls, [], by simp [h.absent_iff.1 hi, Decl.importGroup],
      by simp [h.absent_iff.1 hi, Decl.importGroup], fun d hd => ?_⟩
    rw [List.append_nil] at hd
    obtain ⟨j, hj⟩ := List.getElem?_of_mem hd
    exact h.isImport_eq_false hj (by simp [hi])
  | some i =>
    have hgroup : Decl.importGroup specs = [Decl.ofImports specs] := by
      have hspecs : specs ≠ [] := fun hspecs => by simp [h.absent_iff.2 hspecs] at hi
      simp [Decl.importGroup, hspecs]
    obtain ⟨hlt, hget⟩ := List.getElem?_eq_some_iff.1 (h.group i hi)
    refine ⟨m.decls.take i, m.decls.drop (i + 1), ?_, ?_, fun d hd => ?_⟩
    · rw [hgroup, List.singleton_append, ← hget, List.getElem_cons_drop, List.take_append_drop]
    · simp only [h.group i hi, hgroup, List.singleton_append, List.eraseIdx_eq_take_drop_succ]
    · rcases List.mem_append.1 hd with hd | hd
      · obtain ⟨j, hj⟩ := List.getElem?_of_mem hd
        rw [List.getElem?_take] at hj
        split at hj
        · exact h.isImport_eq_false hj (by simp only [hi, ne_eq, Option.some.injEq]; omega)
        · simp at hj
      · obtain ⟨j, hj⟩ := List.getElem?_of_mem hd
        rw [List.getElem?_drop] at hj
        exact h.isImport_eq_false hj (by simp only [hi, ne_eq, Option.some.injEq]; omega)

/-- At most one declaration is an import. -/
theorem filter_isImport (h : m.HoldsImports specs) :
    m.decls.filter (·.isImport) = Decl.importGroup specs := by
  obtain ⟨before, after, hsplit, -, hnone⟩ := h.exists_split
  have hempty : ∀ ds ⊆ before ++ after, ds.filter (·.isImport) = [] := fun ds hds =>
    List.filter_eq_nil_iff.2 fun d hd => by simp [hnone d (hds hd)]
  rw [hsplit, List.filter_append, List.filter_append, hempty before (List.subset_append_left _ _),
    hempty after (List.subset_append_right _ _), List.nil_append, List.append_nil]
  exact List.filter_eq_self.2 Decl.isImport_of_mem_importGroup

/-- The finished file has the shared group in front of all that is no import. -/
theorem finish_decls (h : m.HoldsImports specs) :
    m.finish.decls = Decl.importGroup specs ++ Decl.withoutImports m.decls := by
  obtain ⟨before, after, hsplit, hfinish, hnone⟩ := h.exists_split
  have hgroup : (Decl.importGroup specs).filter (!·.isImport) = [] :=
    Decl.withoutImports_importGroup specs
  have hwithout : Decl.withoutImports m.decls = before ++ after := by
    rw [hsplit, Decl.withoutImports, List.filter_append, List.filter_append, hgroup,
      List.nil_append, ← List.filter_append]
    exact List.filter_eq_self.2 fun d hd => by simp [hnone d hd]
  rw [hfinish, hwithout]

theorem withoutImports_finish (h : m.HoldsImports specs) :
    Decl.withoutImports m.finish.decls = Decl.withoutImports m.decls := by
  have hgroup : (Decl.importGroup specs).filter (!·.isImport) = [] :=
    Decl.withoutImports_importGroup specs
  rw [h.finish_decls, Decl.withoutImports, List.filter_append, hgroup, List.nil_append,
    Decl.withoutImports, List.filter_filter]
  simp

/-- The finished file imports what the shared group holds. -/
theorem finish_imports (h : m.HoldsImports specs) : m.finish.imports = specs := by
  have hnone : (Decl.withoutImports m.decls).flatMap Decl.imports = [] := by
    refine List.flatMap_eq_nil_iff.2 fun d hd => Decl.imports_of_isImport_eq_false ?_
    simpa using (List.mem_filter.1 hd).2
  rw [SourceFile.imports_eq_flatMap, h.finish_decls, List.flatMap_append,
    Decl.flatMap_imports_importGroup, hnone, List.append_nil]

end HoldsImports

/-! ## The group and the table -/

/-- The shared group holds the specs of the given bindings, and they are what the table says. -/
structure ListsImports (m : Merger) (bs : List Import.Binding) : Prop where
  holds : m.HoldsImports (bs.map (·.spec))
  read : ∀ b ∈ bs, b.IsRead
  names : (bs.filter (!·.isSpecial)).map (·.entry) = m.imports.names.reverse
  special : (bs.filter (·.isSpecial)).map (·.entry) = m.imports.special.reverse
  nodup_names : (m.imports.names.map (·.1)).Nodup
  nodup_special : m.imports.special.Nodup

theorem listsImports_start (package : String) : ListsImports (start package) [] :=
  ⟨.start package, by simp, rfl, rfl, List.nodup_nil, List.nodup_nil⟩

@[simp] theorem imports_addImport (m : Merger) (spec : ImportSpec) :
    (m.addImport spec).imports = m.imports := by
  unfold addImport
  split <;> rfl

namespace ListsImports

variable {m : Merger} {bs : List Import.Binding}

theorem insert (h : m.ListsImports bs) {b : Import.Binding} (hb : b.IsRead) {t : Import.Table}
    (ht : m.imports.Inserts b t) :
    (({ m with imports := t } : Merger).addImport b.spec).ListsImports (bs ++ [b]) := by
  have hholds : (({ m with imports := t } : Merger).addImport b.spec).HoldsImports
      ((bs ++ [b]).map (·.spec)) := by
    have hsame : ({ m with imports := t } : Merger).HoldsImports (bs.map (·.spec)) :=
      h.holds.congr rfl rfl
    rw [List.map_append]
    exact hsame.addImport b.spec
  have hread : ∀ c ∈ bs ++ [b], c.IsRead := by
    intro c hc
    rcases List.mem_append.1 hc with hc | hc
    · exact h.read c hc
    · rwa [List.mem_singleton.1 hc]
  cases ht with
  | ordinary hb hnew =>
    refine ⟨hholds, hread, ?_, ?_, ?_, ?_⟩
    · simp [hb, h.names, Import.Table.insert]
      rfl
    · simp [hb, h.special, Import.Table.insert]
    · rw [imports_addImport]
      refine List.nodup_cons.2 ⟨fun hmem => ?_, h.nodup_names⟩
      obtain ⟨e, he, hname⟩ := List.mem_map.1 hmem
      rw [Import.Table.path?, List.lookup_eq_none_iff] at hnew
      simpa [hname] using hnew e he
    · rw [imports_addImport]
      exact h.nodup_special
  | special hb hnew =>
    refine ⟨hholds, hread, ?_, ?_, ?_, ?_⟩
    · simp [hb, h.names]
    · simp [hb, h.special]
    · rw [imports_addImport]
      exact h.nodup_names
    · rw [imports_addImport]
      exact List.nodup_cons.2 ⟨hnew, h.nodup_special⟩

theorem record (h : m.ListsImports bs) (decisions : List Decision) :
    (m.record decisions).ListsImports bs :=
  ⟨h.holds.congr rfl rfl, h.read, h.names, h.special, h.nodup_names, h.nodup_special⟩

theorem takeImport (h : m.ListsImports bs) (u : UnitTag) (decls : List Decl) {b : Import.Binding}
    (hb : b.IsRead) (hname : b.name ≠ "") (htag : u.tag ≠ "") :
    ∃ bs, (m.takeImport u decls b).1.ListsImports bs := by
  obtain ⟨decisions, heq⟩ := exists_takeImport_eq m u decls b
  rw [heq]
  rcases Import.Table.reconcile_inserts (t := m.imports) hb hname htag with
    ⟨hspec, htable⟩ | ⟨c, hc, hspec, htable⟩
  · rw [hspec, htable]
    exact ⟨bs, h.record decisions⟩
  · rw [hspec]
    exact ⟨bs ++ [c], (h.insert hc htable).record decisions⟩

theorem widens {m' : Merger} {u : UnitTag} {res res' : Resolution} {w : Widening}
    (h : m.ListsImports bs) (hstep : Widens m u res w m' res') : m'.ListsImports bs := by
  have himports : m'.imports = m.imports := by cases hstep <;> rfl
  refine ⟨h.holds.widens hstep, h.read, ?_, ?_, ?_, ?_⟩
  all_goals rw [himports]
  · exact h.names
  · exact h.special
  · exact h.nodup_names
  · exact h.nodup_special

theorem append (h : m.ListsImports bs) {decls : List Decl}
    (hdecls : ∀ d ∈ decls, d.isImport = false) : (m.append decls).ListsImports bs :=
  ⟨h.holds.append hdecls, h.read, h.names, h.special, h.nodup_names, h.nodup_special⟩

end ListsImports

end Merger

/-- The names that the readable imports of a file bring in, written out or implied. -/
def SourceFile.importNames (file : SourceFile) : List String :=
  file.imports.filterMap fun spec => (Import.Binding.ofSpec spec).toOption.map (·.name)

theorem SourceFile.name_mem_importNames {file : SourceFile} {spec : ImportSpec}
    {b : Import.Binding} (hspec : spec ∈ file.imports) (h : Import.Binding.ofSpec spec = .ok b) :
    b.name ∈ file.importNames :=
  List.mem_filterMap.2 ⟨spec, hspec, by rw [h]; rfl⟩

namespace Merger

/-- The merger after some units in turn, failing or not. -/
def after (package : String) (units : List (SourceFile × String)) : Merger :=
  units.foldl (fun m unit => (m.merge unit.1 unit.2).1) (start package)

theorem ListsImports.merge {m : Merger} {bs : List Import.Binding} (h : m.ListsImports bs)
    {file : SourceFile} (hnames : "" ∉ file.importNames) (tag : String) :
    ∃ bs, (m.merge file tag).1.ListsImports bs := by
  refine merge_invariant (P := fun m => ∃ bs, m.ListsImports bs) ⟨bs, ?_⟩ ?_ ?_ ?_ ?_
  · exact ⟨h.holds.congr rfl rfl, h.read, h.names, h.special, h.nodup_names, h.nodup_special⟩
  · rintro htag bindings hbindings b hb n decls ⟨bs, hn⟩
    obtain ⟨hread, spec, hspec, hof⟩ := Import.Binding.isRead_of_mem_collect hbindings hb
    have hname : b.name ≠ "" := fun hname =>
      hnames (hname ▸ SourceFile.name_mem_importNames hspec hof)
    exact hn.takeImport ⟨m.units, tag⟩ decls hread hname htag
  · rintro n res w n' res' hstep ⟨bs, hn⟩
    exact ⟨bs, hn.widens hstep⟩
  · rintro n decisions ⟨bs, hn⟩
    exact ⟨bs, hn.record decisions⟩
  · rintro n decls hdecls ⟨bs, hn⟩
    exact ⟨bs, hn.append hdecls⟩

theorem exists_listsImports_after (package : String) {units : List (SourceFile × String)}
    (h : ∀ unit ∈ units, "" ∉ unit.1.importNames) :
    ∃ bs, (after package units).ListsImports bs := by
  suffices hrun : ∀ m bs, ListsImports m bs →
      ∃ bs, (units.foldl (fun m unit => (m.merge unit.1 unit.2).1) m).ListsImports bs from
    hrun _ [] (listsImports_start package)
  induction units with
  | nil => exact fun m bs hm => ⟨bs, hm⟩
  | cons unit units ih =>
    intro m bs hm
    obtain ⟨bs, hm⟩ := hm.merge (h unit List.mem_cons_self) unit.2
    exact ih (fun unit hunit => h unit (List.mem_cons_of_mem _ hunit)) _ bs hm

/-- The finished file begins with one group of all imports, and reading it gives the table: every
name once, with its path, and every blank and dot import once. -/
theorem finish_agrees_with_table (package : String) (units : List (SourceFile × String))
    (hnames : ∀ unit ∈ units, "" ∉ unit.1.importNames) :
    let m := after package units
    ∃ bs : List Import.Binding,
      m.decls.filter (·.isImport) = Decl.importGroup (bs.map (·.spec)) ∧
      m.finish.decls = Decl.importGroup (bs.map (·.spec)) ++ Decl.withoutImports m.decls ∧
      Import.Binding.collect m.finish = .ok bs ∧
      ((bs.filter (!·.isSpecial)).map (·.name)).Nodup ∧
      (∀ name path, m.imports.path? name = some path ↔
        ∃ b ∈ bs, b.isSpecial = false ∧ b.name = name ∧ b.path = path) ∧
      ((bs.filter (·.isSpecial)).map (·.entry)).Nodup := by
  intro m
  obtain ⟨bs, h⟩ := exists_listsImports_after package hnames
  refine ⟨bs, h.holds.filter_isImport, h.holds.finish_decls,
    Import.Binding.collect_of_isRead h.holds.finish_imports h.read, ?_, fun name path => ?_, ?_⟩
  · have hfst : (bs.filter (!·.isSpecial)).map (·.name) = (m.imports.names.map (·.1)).reverse := by
      rw [← List.map_reverse, ← h.names, List.map_map]
      rfl
    rw [hfst]
    exact (List.reverse_perm _).nodup_iff.2 h.nodup_names
  · rw [Import.Table.path?, List.lookup_eq_some_iff_mem h.nodup_names, ← List.mem_reverse,
      ← h.names]
    simp [Import.Binding.entry, and_assoc]
  · rw [h.special]
    exact (List.reverse_perm _).nodup_iff.2 h.nodup_special

theorem finish_agrees_with_table_failing_unit :
    let ty : Expr := .structType [⟨["X", "X"], .ident "int", none⟩] false
    let a : SourceFile :=
      ⟨"a", [Decl.ofImport "f" "x/f", Decl.ofImport "_" "x/side", Decl.ofType "T" ty]⟩
    let b : SourceFile :=
      ⟨"b", [Decl.ofImport "f" "y/f", Decl.ofImport "_" "x/side", Decl.ofType "T" ty]⟩
    let c : SourceFile := ⟨"c", [Decl.ofImport "f" "z/f", Decl.ofFunc "F"]⟩
    ((after "out" [(a, "A")]).merge b "B").2.isSome = true ∧
      (after "out" [(a, "A"), (b, "B"), (c, "B")]).imports.path? "fBB" = some "z/f" ∧
      ∃ bs, Import.Binding.collect (after "out" [(a, "A"), (b, "B"), (c, "B")]).finish = .ok bs ∧
        ((bs.filter (!·.isSpecial)).map (·.name)).Nodup ∧
        ∃ b ∈ bs, b.isSpecial = false ∧ b.name = "fBB" ∧ b.path = "z/f" := by
  intro ty a b c
  have hfails : ((after "out" [(a, "A")]).merge b "B").2.isSome = true := by decide +kernel
  have hpath : (after "out" [(a, "A"), (b, "B"), (c, "B")]).imports.path? "fBB" = some "z/f" := by
    decide +kernel
  obtain ⟨bs, -, -, hcollect, hnodup, htable, -⟩ :=
    finish_agrees_with_table "out" [(a, "A"), (b, "B"), (c, "B")] (by decide)
  exact ⟨hfails, hpath, bs, hcollect, hnodup, (htable "fBB" "z/f").1 hpath⟩

end Merger

end GoWeave
