import GoWeave.Proofs.Merge.Duplicates
import GoWeave.Proofs.Merge.Imports

/-!
# Aliases against declarations

Import names are settled in the import table and the names of declarations in the registry, and
neither looks at the other. So a name can be an alias and a declaration of the output at once. The
aliases of the output are those that decisions about imports report, and its types, values and
functions bear the names that some unit declares or that a decision gives them; where the two meet,
the output has a clash.
-/
namespace GoWeave

/-! ## Names of the output -/

/-- The name that an action makes an alias of the output. -/
def Action.alias? : Action → Option String
  | importAdded name _ => some name
  | importRenamed _ new _ => some new
  | _ => none

/-- The name that an action gives to types, values and functions of a unit. -/
def Action.newName? : Action → Option String
  | renamed _ new _ => some new
  | _ => none

def Decision.aliases (decisions : List Decision) : List String :=
  decisions.filterMap (·.action.alias?)

def Decision.newNames (decisions : List Decision) : List String :=
  decisions.filterMap (·.action.newName?)

@[simp] theorem Decision.aliases_append (ds es : List Decision) :
    Decision.aliases (ds ++ es) = Decision.aliases ds ++ Decision.aliases es :=
  List.filterMap_append

@[simp] theorem Decision.newNames_append (ds es : List Decision) :
    Decision.newNames (ds ++ es) = Decision.newNames ds ++ Decision.newNames es :=
  List.filterMap_append

theorem Decision.newNames_concat {ds : List Decision} {d : Decision}
    (h : d.action.newName? = none) : Decision.newNames (ds ++ [d]) = Decision.newNames ds := by
  simp [Decision.newNames, h]

namespace Decl

/-- The names of the types, values and functions, blank ones included. -/
def plainNames (decls : List Decl) : List String :=
  (headsAll decls).filterMap Head.plain?

/-- The keys of the types, values and functions. -/
def plainKeys (decls : List Decl) : List String :=
  ((headsAll decls).filter (!·.isMethod)).filterMap Head.key?

variable {decls : List Decl} {name : String}

theorem mem_plainNames_iff : name ∈ plainNames decls ↔ ∃ h ∈ headsAll decls, h.plain? = some name :=
  List.mem_filterMap

theorem plainKeys_append (ds es : List Decl) :
    plainKeys (ds ++ es) = plainKeys ds ++ plainKeys es := by
  rw [plainKeys, headsAll_append, List.filter_append, List.filterMap_append]
  rfl

theorem mem_plainKeys_iff :
    name ∈ plainKeys decls ↔ ∃ h ∈ headsAll decls, h.isMethod = false ∧ h.key? = some name := by
  simp [plainKeys, and_assoc]

theorem plainNames_of_plainKeys (h : name ∈ plainKeys decls) :
    name ∈ plainNames decls ∧ name ≠ "_" := by
  obtain ⟨b, hb, hplain, hkey⟩ := mem_plainKeys_iff.1 h
  obtain ⟨hname, hblank⟩ := Head.plain?_of_key? hkey hplain
  exact ⟨mem_plainNames_iff.2 ⟨b, hb, hname⟩, hblank⟩

end Decl

/-- Names that a type, a value or a function has as its key, and a method has not. -/
structure IsPlainKey (name : String) : Prop where
  ne_blank : name ≠ "_"
  ne_init : name ≠ "init"
  not_dotted : ¬Dotted name

theorem Head.key?_of_plain? {h : Head} {name : String} (hname : IsPlainKey name)
    (hplain : h.plain? = some name) : h.isMethod = false ∧ h.key? = some name := by
  have hblank := hname.ne_blank
  have hinit := hname.ne_init
  cases h <;> simp_all [plain?, isMethod, key?, isBlank]

theorem Decl.plainKeys_of_plainNames {decls : List Decl} {name : String} (hname : IsPlainKey name)
    (h : name ∈ plainNames decls) : name ∈ plainKeys decls := by
  obtain ⟨b, hb, hplain⟩ := mem_plainNames_iff.1 h
  exact mem_plainKeys_iff.2 ⟨b, hb, Head.key?_of_plain? hname hplain⟩

theorem Decl.plainNames_renameAll (r : Renaming) (decls : List Decl) :
    plainNames (renameAll r decls) = (plainNames decls).map (r.apply .root) :=
  plain?_headsAll_renameAll r decls

theorem Decl.plainNames_renameAll_of_not_mem {r : Renaming} {decls : List Decl}
    (h : r.old ∉ plainNames decls) : plainNames (renameAll r decls) = plainNames decls := by
  rw [plainNames_renameAll]
  refine (List.map_congr_left ?_).trans (List.map_id _)
  intro name hname
  rw [Renaming.apply_root, if_neg, id]
  rintro rfl
  exact h hname

namespace Merger

variable {m : Merger} {u : UnitTag} {key name : String} {kind : DeclKind} {names : List String}
  {res res' : Resolution}

/-- A registered key that can only be that of a type, a value or a function. -/
theorem Agrees.mem_plainKeys (hm : m.Agrees) {slot : Slot} (hslot : m.slot? name = some slot)
    (hname : IsPlainKey name) : name ∈ Decl.plainKeys m.decls := by
  obtain ⟨b, hb, hkey⟩ := hm.exists_head hslot
  refine Decl.mem_plainKeys_iff.2 ⟨b, hb, ?_, hkey⟩
  by_contra hmethod
  exact hname.not_dotted (Head.dotted_of_isMethod hkey (by simpa using hmethod))

/-! ## The names of a unit -/

/-- The names of what is left of a unit that declares the given names: each is one of them or was
given by a decision, and each of those is still there or registered. -/
structure Accounts (m : Merger) (names : List String) (res : Resolution) : Prop where
  origin : ∀ name ∈ Decl.plainNames res.decls, name ≠ "_" →
    name ∈ names ∨ name ∈ Decision.newNames res.decisions
  kept : ∀ name, IsPlainKey name → name ∈ names ∨ name ∈ Decision.newNames res.decisions →
    name ∈ Decl.plainKeys m.decls ∨ name ∈ Decl.plainNames res.decls
  registered : ∀ w ∈ res.widenings, ∃ slot, m.slot? w.key = some slot
  noImports : Decision.aliases res.decisions = []

namespace Accounts

/-- A registered key goes. -/
theorem remove (h : Accounts m names res) (hm : m.Agrees) {slot : Slot}
    (hslot : m.slot? key = some slot) {d : Decision} (hnew : d.action.newName? = none)
    (halias : d.action.alias? = none) :
    Accounts m names
      { res with decls := Decl.remove key res.decls, decisions := res.decisions ++ [d] } := by
  have hpruned := Decl.pruned_remove (hm.isBlank_eq hslot) res.decls
  refine ⟨?_, ?_, h.registered, ?_⟩
  · intro name hname hblank
    obtain ⟨b, hb, hplain⟩ := Decl.mem_plainNames_iff.1 hname
    rw [Decision.newNames_concat hnew]
    rcases hpruned.mem_or_blank hb with hb | rfl
    · exact h.origin name (Decl.mem_plainNames_iff.2 ⟨b, hb, hplain⟩) hblank
    · exact absurd (Option.some.inj hplain).symm hblank
  · intro name hname hmem
    rw [Decision.newNames_concat hnew] at hmem
    rcases h.kept name hname hmem with hkey | hplain
    · exact .inl hkey
    · by_cases heq : name = key
      · subst heq
        exact .inl (hm.mem_plainKeys hslot hname)
      · obtain ⟨b, hb, hplain⟩ := Decl.mem_plainNames_iff.1 hplain
        have hb := hpruned.mem_of_ne (Head.key?_of_plain? hname hplain).2 heq hb
        exact .inr (Decl.mem_plainNames_iff.2 ⟨b, hb, hplain⟩)
  · rw [Decision.aliases_append, h.noImports]
    simp [Decision.aliases, halias]

/-- A registered key is given up for a tagged one. -/
theorem rename (h : Accounts m names res) (hm : m.Agrees) (meet : Meeting m res.decls key)
    (reason : String) :
    Accounts m names
      { res with
        decls := Decl.renameAll ⟨key, key ++ u.tag⟩ res.decls
        decisions := res.decisions ++ [u.decide (.renamed key (key ++ u.tag) reason)] } := by
  have hnames : ∀ name, name ∈ Decision.newNames
      (res.decisions ++ [u.decide (.renamed key (key ++ u.tag) reason)]) ↔
      name ∈ Decision.newNames res.decisions ∨ name = key ++ u.tag := by
    intro name
    rw [Decision.newNames_append, List.mem_append]
    simp [Decision.newNames, UnitTag.decide, Action.newName?]
  refine ⟨?_, ?_, h.registered, ?_⟩
  · intro name hname hblank
    rw [Decl.plainNames_renameAll] at hname
    obtain ⟨old, hold, rfl⟩ := List.mem_map.1 hname
    rw [hnames]
    rw [Renaming.apply_root] at hblank ⊢
    split
    · exact .inr (.inr rfl)
    · next hne =>
      rw [if_neg hne] at hblank
      rcases h.origin old hold hblank with hmem | hmem
      · exact .inl hmem
      · exact .inr (.inl hmem)
  · intro name hname hmem
    rw [hnames, ← or_assoc] at hmem
    rw [Decl.plainNames_renameAll]
    rcases hmem with hmem | rfl
    · rcases h.kept name hname hmem with hkey | hplain
      · exact .inl hkey
      · by_cases heq : name = key
        · subst heq
          exact .inl (hm.mem_plainKeys meet.slot?_eq hname)
        · refine .inr (List.mem_map.2 ⟨name, hplain, ?_⟩)
          rw [Renaming.apply_root, if_neg heq]
    · -- The declaration under the key is no method, since the key has no dot.
      have hundotted : ¬Dotted key := fun hdot => hname.not_dotted (dotted_append.2 (.inl hdot))
      obtain ⟨hhead, hkey⟩ := Head.mem_of_first? (meet.first?_incoming hm)
      have hplain : meet.incoming.head.isMethod = false := by
        by_contra hmethod
        exact hundotted (Head.dotted_of_isMethod hkey (by simpa using hmethod))
      have hmem := Decl.mem_plainNames_iff.2 ⟨_, hhead, (Head.plain?_of_key? hkey hplain).1⟩
      refine .inr (List.mem_map.2 ⟨key, hmem, ?_⟩)
      rw [Renaming.apply_root, if_pos rfl]
  · rw [Decision.aliases_append, h.noImports]
    rfl

/-- A method under another name. -/
theorem renameMethod (h : Accounts m names res) (hm : m.Agrees) (meet : Meeting m res.decls key)
    (hfirst : ∀ name, Head.first? key (Decl.headsAll res.decls) ≠ some (.func name))
    (reason : String) : Accounts m names (Merger.renameMethod u reason meet.slot res) := by
  rcases meet.renameMethod_cases (u := u) reason with heq | ⟨i, f, hslot, hi, hincoming⟩
  · rwa [heq]
  · obtain ⟨hmethod, -⟩ := meet.exists_receiver hm hincoming hfirst
    obtain ⟨hhead, hhead'⟩ := FuncDecl.head_of_method hmethod (f.name ++ u.tag)
    obtain ⟨before, after, hold, hnew⟩ :=
      Decl.split_headsAll_set hi { f with name := f.name ++ u.tag }
    have hplain : Decl.plainNames (res.decls.set i (.func { f with name := f.name ++ u.tag })) =
        Decl.plainNames res.decls := by
      rw [Decl.plainNames, Decl.plainNames, hold, hnew, hhead, hhead', List.filterMap_append,
        List.filterMap_append]
      rfl
    rw [hslot, renameMethod_eq hi]
    refine ⟨?_, ?_, h.registered, ?_⟩
    · rw [hplain, Decision.newNames_concat rfl]
      exact h.origin
    · rw [hplain, Decision.newNames_concat rfl]
      exact h.kept
    · rw [Decision.aliases_append, h.noImports]
      rfl

theorem step (h : Accounts m names res) (hm : m.Agrees)
    (hfirst : kind = .method → ∀ name,
      Head.first? key (Decl.headsAll res.decls) ≠ some (.func name))
    (hstep : Resolves m u key kind res res') : Accounts m names res' := by
  cases hstep with
  | keep hkeep => exact h
  | drop meet hj => exact h.remove hm meet.slot?_eq rfl rfl
  | widen meet fields hj =>
    refine ⟨h.origin, h.kept, ?_, h.noImports⟩
    intro w hw
    rcases List.mem_append.1 hw with hw | hw
    · exact h.registered w hw
    · rw [List.mem_singleton.1 hw]
      exact ⟨_, meet.slot?_eq⟩
  | rename meet reason hj hkind => exact h.rename hm meet reason
  | renameMethod meet reason hj hkind => exact h.renameMethod hm meet (hfirst hkind) reason

end Accounts

/-- The import of another name leaves the names of a unit as they are. -/
theorem plainNames_takeImports (m : Merger) (u : UnitTag) {decls : List Decl}
    {bs : List Import.Binding}
    (h : ∀ b ∈ bs, b.isSpecial = false → b.name ∉ Decl.plainNames decls) :
    Decl.plainNames (m.takeImports u decls bs).2 = Decl.plainNames decls := by
  apply takeImports_run (P := fun _ decls' => Decl.plainNames decls' = Decl.plainNames decls) rfl
  intro b hb m₁ decls₁ m₂ decls₂ heq hstep
  cases hstep with
  | present => exact heq
  | added next hnext => exact heq
  | renamed next hnext n hordinary =>
    rw [Decl.plainNames_renameAll_of_not_mem, heq]
    rw [heq]
    exact h b hb hordinary

theorem accounts_start (m : Merger) {decls : List Decl} (h : Decl.plainNames decls = names) :
    Accounts m names ⟨decls, [], []⟩ := by
  refine ⟨?_, ?_, by simp, rfl⟩
  · intro name hname _
    exact .inl (h ▸ hname)
  · intro name _ hmem
    rcases hmem with hmem | hmem
    · exact .inr (h ▸ hmem)
    · exact absurd hmem List.not_mem_nil

/-- The names of what is left of a unit whose aliases it does not declare. -/
theorem UnitRun.accounts {final : Merger} {file : SourceFile} (run : UnitRun m u file final)
    (hm : m.Agrees) (htag : u.tag ≠ "")
    (h : ∀ b ∈ run.bindings, b.isSpecial = false → b.name ∉ Decl.plainNames file.decls) :
    Accounts run.imported (Decl.plainNames file.decls) run.left := by
  have hagrees := run.sameSlots_imported.agrees hm
  have hnames : Decl.plainNames (Decl.withoutImports run.decls) = Decl.plainNames file.decls := by
    have htaken := plainNames_takeImports m u h
    rw [run.imported_eq] at htaken
    rw [← htaken, Decl.plainNames, Decl.headsAll_withoutImports, Decl.plainNames]
  have hplain := resolveAll_run (P := fun entries res => (∀ e ∈ entries, e.2 ≠ .method) ∧
      Accounts run.imported (Decl.plainNames file.decls) res)
    (fun key kind entries res res' h hstep => by
      obtain ⟨hkind, hkinds⟩ := List.forall_mem_cons.1 h.1
      exact ⟨hkinds, h.2.step hagrees (fun heq => absurd heq hkind) hstep⟩)
    ⟨fun e he => by simpa using (List.mem_filter.1 he).2, accounts_start _ hnames⟩ run.plain_eq
  obtain ⟨taken, -, -, hpass⟩ := run.exists_methodPass hm htag
  have hmethods := resolveAll_run (P := fun entries res =>
      MethodPass run.imported (Decl.withoutImports file.decls) taken entries res ∧
        Accounts run.imported (Decl.plainNames file.decls) res)
    (fun key kind entries res res' h hstep =>
      ⟨h.1.step hagrees htag hstep,
        h.2.step hagrees (fun _ => h.1.first key List.mem_cons_self) hstep⟩)
    ⟨hpass, hplain.2⟩ run.methods_eq
  have hwidened := widenAll_run (P := fun ws _ res => ws ⊆ res.widenings ∧
      Accounts run.imported (Decl.plainNames file.decls) res)
    (fun w ws m res m' res' h hstep => by
      obtain ⟨hw, hws⟩ := List.cons_subset.1 h.1
      cases hstep with
      | skip hskip => exact ⟨hws, h.2⟩
      | merge =>
        obtain ⟨slot, hslot⟩ := h.2.registered w hw
        exact ⟨hws, h.2.remove hagrees hslot rfl rfl⟩)
    ⟨List.Subset.refl _, hmethods.2⟩ run.widened_eq
  exact hwidened.2

end Merger

/-! ## The aliases of the output -/

/-- An import is present, takes a name that is there, or comes with a spec that is read as the name
it brings in. -/
theorem Import.Table.reconcile_reads (t : Table) {b : Binding} (hb : b.IsRead) (tag : String) :
    t.reconcile b tag = (.present, t) ∨
      (∃ new, t.path? new ≠ none ∧ t.reconcile b tag = (.renamed b.name new none, t)) ∨
      ∃ (c : Binding) (t' : Table), c.IsRead ∧
        (∀ name, t'.path? name ≠ none → t.path? name ≠ none ∨ name = c.name) ∧
        (t.reconcile b tag = (.added c.spec, t') ∧ c.name = b.name ∨
          t.reconcile b tag = (.renamed b.name c.name (some c.spec), t')) := by
  have hinsert : ∀ new path name, (t.insert new path).path? name ≠ none →
      t.path? name ≠ none ∨ name = new := by
    intro new path name hname
    by_cases heq : name = new
    · exact .inr heq
    · rw [path?, insert, List.lookup_cons, beq_false_of_ne heq] at hname
      exact .inl hname
  unfold reconcile
  by_cases hspecial : b.isSpecial = true
  · rw [if_pos hspecial]
    by_cases hthere : t.special.contains (b.name, b.path) = true
    · rw [if_pos hthere]
      exact .inl rfl
    · rw [if_neg hthere]
      exact .inr (.inr ⟨b, { t with special := (b.name, b.path) :: t.special }, hb,
        fun name hname => .inl hname, .inl ⟨rfl, rfl⟩⟩)
  · rw [if_neg hspecial]
    cases t.path? b.name with
    | none =>
      exact .inr (.inr ⟨_, _, Binding.isRead_specAs hb b.name, hinsert _ _, .inl ⟨rfl, rfl⟩⟩)
    | some path =>
      by_cases hpath : path = b.path
      · simp [hpath]
      · simp only [if_neg hpath]
        cases hnew : t.path? (t.taggedName b.name b.path tag) with
        | some path' => exact .inr (.inl ⟨_, by simp [hnew], rfl⟩)
        | none => exact .inr (.inr ⟨_, _, Binding.isRead_specAs hb _, hinsert _ _, .inr rfl⟩)

namespace Merger

variable {m : Merger} {u : UnitTag}

/-- The shared group holds the specs of the given bindings, among them every name of the table, and
their names are those that the decisions report. -/
structure ReportsImports (m : Merger) (bs : List Import.Binding) : Prop where
  holds : m.HoldsImports (bs.map (·.spec))
  read : ∀ b ∈ bs, b.IsRead
  known : ∀ name, m.imports.path? name ≠ none → name ∈ bs.map (·.name)
  reported : ∀ name, name ∈ bs.map (·.name) ↔ name ∈ Decision.aliases m.decisions

namespace ReportsImports

variable {bs : List Import.Binding}

theorem start (package : String) : ReportsImports (start package) [] :=
  ⟨.start package, by simp, by simp [Merger.start, Import.Table.path?, Import.Table.empty],
    by simp [Merger.start, Decision.aliases]⟩

/-- One more import, which is reported under its name. -/
theorem add (h : m.ReportsImports bs) {b : Import.Binding} (hb : b.IsRead) {t : Import.Table}
    (ht : ∀ name, t.path? name ≠ none → m.imports.path? name ≠ none ∨ name = b.name)
    {d : Decision} (hd : d.action.alias? = some b.name) :
    ((({ m with imports := t } : Merger).addImport b.spec).record [d]).ReportsImports
      (bs ++ [b]) := by
  have hholds : ({ m with imports := t } : Merger).HoldsImports (bs.map (·.spec)) :=
    h.holds.congr rfl rfl
  have hadded := hholds.addImport b.spec
  have hdecisions : (({ m with imports := t } : Merger).addImport b.spec).decisions =
      m.decisions := (Accepts.added t b.spec).decisions_eq
  refine ⟨?_, ?_, ?_, ?_⟩
  · rw [List.map_append]
    exact hadded.congr rfl rfl
  · intro c hc
    rcases List.mem_append.1 hc with hc | hc
    · exact h.read c hc
    · rwa [List.mem_singleton.1 hc]
  · intro name hname
    have hname : (({ m with imports := t } : Merger).addImport b.spec).imports.path? name ≠ none :=
      hname
    rw [imports_addImport] at hname
    rw [List.map_append, List.mem_append]
    rcases ht name hname with hold | rfl
    · exact .inl (h.known name hold)
    · exact .inr List.mem_cons_self
  · intro name
    rw [record, hdecisions, List.map_append, List.mem_append, h.reported, Decision.aliases_append,
      List.mem_append]
    simp [Decision.aliases, hd]

/-- A decision that reports nothing new. -/
theorem record (h : m.ReportsImports bs) {ds : List Decision}
    (hds : ∀ name ∈ Decision.aliases ds, name ∈ bs.map (·.name)) :
    (m.record ds).ReportsImports bs := by
  refine ⟨h.holds.congr rfl rfl, h.read, h.known, ?_⟩
  intro name
  rw [Merger.record, Decision.aliases_append, List.mem_append, ← h.reported]
  constructor
  · intro hmem
    exact .inl hmem
  · rintro (hmem | hmem)
    · exact hmem
    · exact hds name hmem

theorem takeImport (h : m.ReportsImports bs) (u : UnitTag) (decls : List Decl)
    {b : Import.Binding} (hb : b.IsRead) :
    ∃ bs, (m.takeImport u decls b).1.ReportsImports bs := by
  unfold Merger.takeImport
  rcases m.imports.reconcile_reads hb u.tag with heq | ⟨new, hnew, heq⟩ |
    ⟨c, t, hc, ht, ⟨heq, hname⟩ | heq⟩
  · rw [heq]
    exact ⟨bs, h⟩
  · rw [heq]
    refine ⟨bs, h.record ?_⟩
    intro name hname
    rw [List.mem_singleton.1 hname]
    exact h.known new hnew
  · rw [heq]
    exact ⟨bs ++ [c], h.add hc ht (congrArg some hname.symm)⟩
  · rw [heq]
    exact ⟨bs ++ [c], h.add hc ht rfl⟩

theorem widens {m' : Merger} {res res' : Resolution} {w : Widening} (h : m.ReportsImports bs)
    (hstep : Widens m u res w m' res') : m'.ReportsImports bs := by
  have himports : m'.imports = m.imports := by cases hstep <;> rfl
  refine ⟨h.holds.widens hstep, h.read, ?_, ?_⟩
  · rw [himports]
    exact h.known
  · rw [hstep.exists_decisions_eq.1]
    exact h.reported

end ReportsImports

theorem UnitRun.reaches {final : Merger} {file : SourceFile} (run : UnitRun m u file final) :
    run.Reaches run.widened run.left :=
  widenings_of_ok run.widened_eq

/-- A unit that is merged keeps the group and the reports in step. -/
theorem UnitRun.exists_reportsImports {final : Merger} {file : SourceFile}
    (run : UnitRun m u file final) {bs : List Import.Binding} (h : m.ReportsImports bs)
    (hleft : Decision.aliases run.left.decisions = []) : ∃ bs, final.ReportsImports bs := by
  have htaken : ∃ bs, (m.takeImports u file.decls run.bindings).1.ReportsImports bs := by
    apply takeImports_invariant (P := fun m => ∃ bs, m.ReportsImports bs) ⟨bs, h⟩
    rintro b hb n decls ⟨bs, hn⟩
    exact hn.takeImport u decls (Import.Binding.isRead_of_mem_collect run.bindings_eq hb).1
  rw [run.imported_eq] at htaken
  obtain ⟨bs, htaken⟩ := htaken
  have hwidened : run.widened.ReportsImports bs :=
    widenAll_run (P := fun _ n _ => n.ReportsImports bs)
      (fun _ _ _ _ _ _ hn hstep => hn.widens hstep) htaken run.widened_eq
  have hrecorded : (run.widened.record run.left.decisions).ReportsImports bs :=
    hwidened.record (by simp [hleft])
  refine ⟨bs, ?_⟩
  rw [run.final_eq]
  exact ⟨hrecorded.holds.append run.reaches.isImport_eq_false, hrecorded.read, hrecorded.known,
    hrecorded.reported⟩

end Merger

/-! ## All units -/

/-- The names under which a file refers to its imports, blank and dot imports left out. -/
def SourceFile.aliases (file : SourceFile) : List String :=
  file.importNames.filter fun name => name ≠ "_" ∧ name ≠ "."

/-- A name that is both an alias and the key of a type, a value or a function. -/
def SourceFile.Clashes (file : SourceFile) (name : String) : Prop :=
  name ∈ file.aliases ∧ name ∈ Decl.plainKeys file.decls

instance (file : SourceFile) (name : String) : Decidable (file.Clashes name) :=
  inferInstanceAs (Decidable (_ ∧ _))

namespace Merger

/-- What a merger has of the units merged so far: the keys of its types, values and functions are
the names that the units declare or decisions give, and its imports are those that are reported. -/
structure Gathers (m : Merger) (units : List (SourceFile × String)) : Prop where
  agrees : m.Agrees
  imports : ∃ bs, m.ReportsImports bs
  origin : ∀ name ∈ Decl.plainKeys m.decls,
    (∃ unit ∈ units, name ∈ Decl.plainNames unit.1.decls) ∨
      name ∈ Decision.newNames m.decisions
  kept : ∀ name, IsPlainKey name →
    (∃ unit ∈ units, name ∈ Decl.plainNames unit.1.decls) ∨
      name ∈ Decision.newNames m.decisions → name ∈ Decl.plainKeys m.decls

theorem gathers_start (package : String) : Gathers (start package) [] := by
  refine ⟨(Reachable.start package).agrees, ⟨[], .start package⟩, ?_, ?_⟩
  · intro name hname
    exact absurd hname List.not_mem_nil
  · rintro name - (⟨unit, hunit, -⟩ | hname)
    · exact absurd hunit List.not_mem_nil
    · exact absurd hname List.not_mem_nil

theorem UnitRun.newNames_eq {m final : Merger} {u : UnitTag} {file : SourceFile}
    (run : UnitRun m u file final) :
    Decision.newNames final.decisions =
      Decision.newNames m.decisions ++ Decision.newNames run.left.decisions := by
  have himported : Decision.newNames run.imported.decisions = Decision.newNames m.decisions := by
    have htaken : Decision.newNames (m.takeImports u file.decls run.bindings).1.decisions =
        Decision.newNames m.decisions := by
      apply takeImports_run
        (P := fun n _ => Decision.newNames n.decisions = Decision.newNames m.decisions) rfl
      intro b _ n decls n' decls' hn hstep
      cases hstep with
      | present => exact hn
      | added next hnext => rw [record, Decision.newNames_concat rfl, hnext.decisions_eq, hn]
      | renamed next hnext k hb =>
        rw [record, Decision.newNames_concat rfl, hnext.decisions_eq, hn]
    rwa [run.imported_eq] at htaken
  have hwidened : run.widened.decisions = run.imported.decisions :=
    widenAll_run (P := fun _ n _ => n.decisions = run.imported.decisions)
      (fun _ _ _ _ _ _ hn hstep => hstep.exists_decisions_eq.1.trans hn) rfl run.widened_eq
  have hfinal : final.decisions = run.widened.decisions ++ run.left.decisions :=
    congrArg Merger.decisions run.final_eq
  rw [hfinal, Decision.newNames_append, hwidened, himported]

theorem UnitRun.plainKeys_eq {m final : Merger} {u : UnitTag} {file : SourceFile}
    (run : UnitRun m u file final) :
    Decl.plainKeys run.imported.decls = Decl.plainKeys m.decls ∧
      Decl.plainKeys final.decls = Decl.plainKeys m.decls ++ Decl.plainKeys run.left.decls := by
  have himported := run.sameSlots_imported
  have hwidened := himported.trans (sameSlots_widenAll run.widened_eq)
  constructor
  · rw [Decl.plainKeys, himported.heads, Decl.plainKeys]
  · rw [run.decls_eq, Decl.plainKeys_append, Decl.plainKeys, hwidened.heads, ← Decl.plainKeys]

theorem Gathers.merge {m final : Merger} {units : List (SourceFile × String)} {file : SourceFile}
    {tag : String} (h : m.Gathers units) (hmerge : m.merge file tag = (final, none))
    (hapart : ∀ name ∈ file.aliases, name ∉ Decl.plainNames file.decls) :
    final.Gathers (units ++ [(file, tag)]) := by
  obtain ⟨htag, ⟨run⟩⟩ := exists_run_of_merge hmerge
  obtain ⟨bs, hbs⟩ := h.imports
  have hagrees : final.Agrees := by
    have hfinal := h.agrees.merge file tag
    rwa [hmerge] at hfinal
  have haccounts : Accounts run.imported (Decl.plainNames file.decls) run.left := by
    apply run.accounts h.agrees htag
    intro b hb hordinary
    obtain ⟨-, spec, hspec, hread⟩ := Import.Binding.isRead_of_mem_collect run.bindings_eq hb
    apply hapart
    refine List.mem_filter.2 ⟨SourceFile.name_mem_importNames hspec hread, ?_⟩
    simpa [Import.Binding.isSpecial] using hordinary
  obtain ⟨himported, hfinal⟩ := run.plainKeys_eq
  have hnames := run.newNames_eq
  have hreports : ({ m with units := m.units + 1 } : Merger).ReportsImports bs :=
    ⟨hbs.holds.congr rfl rfl, hbs.read, hbs.known, hbs.reported⟩
  refine ⟨hagrees, run.exists_reportsImports hreports haccounts.noImports, ?_, ?_⟩
  · intro name hname
    rw [hfinal, List.mem_append] at hname
    rw [hnames, List.mem_append]
    rcases hname with hname | hname
    · rcases h.origin name hname with ⟨unit, hunit, hdeclared⟩ | hnew
      · exact .inl ⟨unit, List.mem_append_left _ hunit, hdeclared⟩
      · exact .inr (.inl hnew)
    · obtain ⟨hplain, hblank⟩ := Decl.plainNames_of_plainKeys hname
      rcases haccounts.origin name hplain hblank with hdeclared | hnew
      · exact .inl ⟨_, List.mem_append_right _ List.mem_cons_self, hdeclared⟩
      · exact .inr (.inr hnew)
  · intro name hname hmem
    rw [hfinal, List.mem_append]
    rw [hnames, List.mem_append] at hmem
    have hunit : name ∈ Decl.plainNames file.decls ∨
        name ∈ Decision.newNames run.left.decisions →
        name ∈ Decl.plainKeys m.decls ∨ name ∈ Decl.plainKeys run.left.decls := by
      intro hmem
      rcases haccounts.kept name hname hmem with hkey | hplain
      · exact .inl (himported ▸ hkey)
      · exact .inr (Decl.plainKeys_of_plainNames hname hplain)
    rcases hmem with ⟨unit, hunits, hdeclared⟩ | hnew | hnew
    · rcases List.mem_append.1 hunits with hunits | hunits
      · exact .inl (h.kept name hname (.inl ⟨unit, hunits, hdeclared⟩))
      · rw [List.mem_singleton.1 hunits] at hdeclared
        exact hunit (.inl hdeclared)
    · exact .inl (h.kept name hname (.inr hnew))
    · exact hunit (.inr hnew)

theorem Gathers.mergeEach {m final : Merger} {before units : List (SourceFile × String)}
    (h : m.Gathers before) (hmerge : m.mergeEach units = (final, none))
    (hapart : ∀ unit ∈ units, ∀ name ∈ unit.1.aliases, name ∉ Decl.plainNames unit.1.decls) :
    final.Gathers (before ++ units) := by
  induction units generalizing m before with
  | nil =>
    cases hmerge
    rwa [List.append_nil]
  | cons unit units ih =>
    obtain ⟨file, tag⟩ := unit
    obtain ⟨hunit, hunits⟩ := List.forall_mem_cons.1 hapart
    rw [Merger.mergeEach] at hmerge
    split at hmerge
    · simp at hmerge
    · next next hnext =>
      have hrest := ih (h.merge hnext hunit) hmerge hunits
      rwa [List.append_assoc, List.singleton_append] at hrest

/-- The names of the finished file. -/
theorem ReportsImports.importNames_finish {m : Merger} {bs : List Import.Binding}
    (h : m.ReportsImports bs) : m.finish.importNames = bs.map (·.name) := by
  have hread := h.read
  rw [SourceFile.importNames, h.holds.finish_imports, List.filterMap_map]
  clear h
  induction bs with
  | nil => rfl
  | cons b bs ih =>
    obtain ⟨hb, hbs⟩ := List.forall_mem_cons.1 hread
    have hb : Import.Binding.ofSpec b.spec = .ok b := hb
    rw [List.filterMap_cons, ih hbs, Function.comp_apply, hb]
    rfl

theorem HoldsImports.plainKeys_finish {m : Merger} {specs : List ImportSpec}
    (h : m.HoldsImports specs) : Decl.plainKeys m.finish.decls = Decl.plainKeys m.decls := by
  have hheads : Decl.headsAll (Decl.withoutImports m.finish.decls) =
      Decl.headsAll (Decl.withoutImports m.decls) := by rw [h.withoutImports_finish]
  rw [Decl.headsAll_withoutImports, Decl.headsAll_withoutImports] at hheads
  rw [Decl.plainKeys, hheads, Decl.plainKeys]

end Merger

/-- If no unit declares one of its own aliases, a clash in the merged file is between an alias that
a decision reports and a name that some unit declares or that a decision gives to a declaration; and
every such pair is a clash. -/
theorem mergeAll_clashes {package : String} {units : List (SourceFile × String)} {m : Merger}
    (h : mergeAll package units = (m, none))
    (hapart : ∀ unit ∈ units, ∀ name ∈ unit.1.aliases, name ∉ Decl.plainNames unit.1.decls)
    (name : String) :
    (m.finish.Clashes name → name ∈ Decision.aliases m.decisions ∧
      ((∃ unit ∈ units, name ∈ Decl.plainNames unit.1.decls) ∨
        name ∈ Decision.newNames m.decisions)) ∧
    (IsPlainKey name → name ∈ Decision.aliases m.decisions →
      ((∃ unit ∈ units, name ∈ Decl.plainNames unit.1.decls) ∨
        name ∈ Decision.newNames m.decisions) → m.finish.Clashes name) := by
  have hgathers : m.Gathers units := by
    unfold mergeAll at h
    split at h
    · simp at h
    · exact (Merger.gathers_start package).mergeEach h hapart
  obtain ⟨bs, hbs⟩ := hgathers.imports
  have hkeys := hbs.holds.plainKeys_finish
  constructor
  · rintro ⟨halias, hkey⟩
    rw [hkeys] at hkey
    rw [SourceFile.aliases, hbs.importNames_finish, List.mem_filter] at halias
    exact ⟨(hbs.reported name).1 halias.1, hgathers.origin name hkey⟩
  · intro hname halias hmem
    constructor
    · rw [SourceFile.aliases, hbs.importNames_finish, List.mem_filter]
      refine ⟨(hbs.reported name).2 halias, ?_⟩
      have hdot : name ≠ "." := by
        rintro rfl
        exact hname.not_dotted dotted_dot
      simpa using ⟨hname.ne_blank, hdot⟩
    · rw [hkeys]
      exact hgathers.kept name hname hmem

theorem mergeAll_clashes_tagged_alias :
    let a : SourceFile := ⟨"a", [Decl.ofImport "a" "x/a", Decl.ofFunc "F"]⟩
    let b : SourceFile := ⟨"b", [Decl.ofImport "a" "y/a", Decl.ofType "aB" (.ident "int")]⟩
    let out := mergeAll "out" [(a, "A"), (b, "B")]
    out.2 = none ∧ ∀ name, out.1.finish.Clashes name ↔ name = "aB" := by
  intro a b out
  have hnone : out.2 = none := by decide +kernel
  have haliases : Decision.aliases out.1.decisions = ["a", "aB"] := by decide +kernel
  have hnew : Decision.newNames out.1.decisions = [] := by decide +kernel
  have h := @mergeAll_clashes "out" [(a, "A"), (b, "B")] out.1 (Prod.ext rfl hnone)
    (by decide +kernel)
  -- What the merged file is does not matter from here on.
  clear_value out
  refine ⟨hnone, fun name => ⟨fun hclash => ?_, ?_⟩⟩
  · obtain ⟨halias, hdeclared⟩ := (h name).1 hclash
    rw [haliases] at halias
    rw [hnew] at hdeclared
    have hnames : name ∈ ["F", "aB"] := by
      rcases hdeclared with ⟨unit, hunit, hmem⟩ | hmem
      · rcases List.mem_pair.1 hunit with rfl | rfl
        · exact List.mem_cons.2 (.inl (List.mem_singleton.1 hmem))
        · exact List.mem_cons_of_mem _ hmem
      · exact absurd hmem List.not_mem_nil
    grind
  · rintro rfl
    have halias : "aB" ∈ Decision.aliases out.1.decisions := by
      rw [haliases]
      decide
    exact (h "aB").2 ⟨by decide, by decide, by decide⟩ halias
      (.inl ⟨(b, "B"), List.mem_cons_of_mem _ List.mem_cons_self, by decide⟩)

/-- Units that do not declare their own aliases can merge into a file with a clash. -/
theorem exists_clash : ∃ package units m, mergeAll package units = (m, none) ∧
    (∀ unit ∈ units, ∀ name ∈ unit.1.aliases, name ∉ Decl.plainNames unit.1.decls) ∧
    m.finish.Clashes "fmt" := by
  let a : SourceFile := ⟨"a", [Decl.ofImport "fmt" "fmt", Decl.ofFunc "F"]⟩
  let b : SourceFile := ⟨"b", [Decl.ofFunc "fmt"]⟩
  have hnone : (mergeAll "out" [(a, "A"), (b, "B")]).2 = none := by decide +kernel
  exact ⟨"out", [(a, "A"), (b, "B")], _, Prod.ext rfl hnone, by decide +kernel, by decide +kernel⟩

end GoWeave
