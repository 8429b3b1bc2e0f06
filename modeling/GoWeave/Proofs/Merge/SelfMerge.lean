import GoWeave.Proofs.Declaration.Removal
import GoWeave.Proofs.Equivalence.Decision
import GoWeave.Proofs.Merge.Duplicates
import GoWeave.Proofs.Merge.Frame

/-!
# Merging a unit again

A unit that is merged a second time changes nothing. Its imports are there already. Each of its
declarations equals the registered one, which is its own first copy, and goes. The others are read
from what is left of the unit, and for them a removal changes nothing, so they are still equal when
their turn comes. When the last key is gone, so is the unit.

For this every declaration has to have a key and to be equal to itself.
-/
namespace GoWeave

/-! ## Declarations that equal themselves -/

theorem Expr.mem_sitesAll {xs : List Expr} {s : Site} :
    s ∈ sitesAll xs ↔ ∃ x ∈ xs, s ∈ x.sites := by
  induction xs with
  | nil => simp [sitesAll]
  | cons x xs ih => simp [sitesAll, ih]

def Declared.sites : Declared → List Site
  | .func f => f.sites
  | .type spec => spec.sites
  | .value _ spec _ => spec.sites

/-- The sites of a type and initializers. -/
def ValueSpec.sourceSites (source : Option Expr × List Expr) : List Site :=
  Expr.sitesOpt source.1 ++ Expr.sitesAll source.2

theorem ValueSpec.sites_eq (v : ValueSpec) : v.sites = sourceSites (v.ty, v.values) := by
  cases v
  rfl

theorem DeclGroup.sites_eq (g : DeclGroup) : g.sites = Spec.sitesAll g.specs := by
  cases g
  rfl

theorem ValueSpec.sites_declaredAt (v : ValueSpec) (tok : Token) (before : Option Expr × List Expr)
    (index i : Nat) (name : String) :
    (v.declaredAt tok before index i name).sites ⊆ sourceSites before ++ v.sites := by
  intro s hs
  have hsource : ∀ ty source, (if tok = .const ∧ v.values.isEmpty then before
      else (v.ty, v.values)) = (ty, source) →
      sourceSites (ty, source) ⊆ sourceSites before ++ v.sites := by
    intro ty source heq
    split at heq
    · rw [heq]
      exact List.subset_append_left _ _
    · rw [← heq, ← sites_eq]
      exact List.subset_append_right _ _
  unfold declaredAt at hs
  split at hs
  next ty source heq =>
  refine hsource ty source heq ?_
  rcases List.mem_append.1 hs with hs | hs
  · exact List.mem_append_left _ hs
  · refine List.mem_append_right _ ?_
    obtain ⟨x, hx, hs⟩ := Expr.mem_sitesAll.1 hs
    refine Expr.mem_sitesAll.2 ⟨x, ?_, hs⟩
    split at hx
    · split at hx
      · next value hvalue =>
        rw [List.mem_singleton.1 hx]
        exact List.mem_of_getElem? hvalue
      · exact hx
    · exact hx

theorem Spec.sites_declaredFrom? {tok : Token} {key : String} {found : Declared}
    {before : Option Expr × List Expr} {index : Nat} {specs : List Spec}
    (h : declaredFrom? tok key before index specs = some found) :
    found.sites ⊆ ValueSpec.sourceSites before ++ Spec.sitesAll specs := by
  induction specs generalizing before index with
  | nil => simp [declaredFrom?] at h
  | cons s ss ih =>
    have hhead : ValueSpec.sourceSites before ++ s.sites ⊆
        ValueSpec.sourceSites before ++ Spec.sitesAll (s :: ss) := by
      rw [sitesAll, ← List.append_assoc]
      exact List.subset_append_left _ _
    rw [declaredFrom?, Option.or_eq_some_iff] at h
    rcases h with h | ⟨-, h⟩
    · refine List.Subset.trans ?_ hhead
      cases s with
      | imported spec => simp [declaredIn?] at h
      | type t =>
        simp only [declaredIn?, Option.ite_none_right_eq_some, Option.some.injEq] at h
        rw [← h.2]
        exact List.subset_append_right _ _
      | value v =>
        obtain ⟨i, -, rfl⟩ := Option.map_eq_some_iff.1 h
        exact v.sites_declaredAt tok before index i key
    · have hrepeats : ValueSpec.sourceSites (s.repeats before) ⊆
          ValueSpec.sourceSites before ++ s.sites := by
        unfold repeats
        split
        · split
          · exact List.subset_append_left _ _
          · rw [← ValueSpec.sites_eq]
            exact List.subset_append_right _ _
        · exact List.subset_append_left _ _
      refine List.Subset.trans (ih h) (List.append_subset.2 ⟨List.Subset.trans hrepeats hhead, ?_⟩)
      rw [sitesAll, ← List.append_assoc]
      exact List.subset_append_right _ _

/-- What is declared under a key has no sites but those of the declarations. -/
theorem Decl.exists_sites_declared? {decls : List Decl} {key : String} {found : Declared}
    (h : declared? decls key = some found) : ∃ d ∈ decls, found.sites ⊆ d.sites := by
  rw [declared?_eq_findSome?] at h
  obtain ⟨d, hd, hfound⟩ := List.exists_of_findSome?_eq_some h
  refine ⟨d, hd, ?_⟩
  cases d with
  | bad node => simp [declaredIn?] at hfound
  | func f =>
    simp only [declaredIn?, Option.ite_none_right_eq_some, Option.some.injEq] at hfound
    rw [← hfound.2]
    exact List.Subset.refl _
  | group g =>
    simp only [declaredIn?, Option.ite_none_left_eq_some] at hfound
    rw [sites, DeclGroup.sites_eq]
    exact Spec.sites_declaredFrom? hfound.2

theorem Merger.compare_self {found : Declared} (h : ∀ s ∈ found.sites, s.Comparable) :
    compare found found = none := by
  cases found with
  | func f => exact f.compare_self h
  | type spec => exact spec.compare_self h
  | value tok spec iota =>
    rw [compare, if_neg (not_not_intro rfl), if_neg (not_not_intro rfl)]
    exact spec.compare_self h

/-! ## Units that are all copies -/

theorem List.filter_not_mem_map_filter {l : List (String × β)} (hnodup : (l.map (·.1)).Nodup)
    (p : String × β → Bool) :
    (l.filter fun e => e.1 ∉ (l.filter p).map (·.1)) = l.filter (!p ·) := by
  refine List.filter_congr fun e he => ?_
  have hiff : e.1 ∈ (l.filter p).map (·.1) ↔ p e = true := by
    constructor
    · intro hmem
      obtain ⟨e', he', heq⟩ := List.mem_map.1 hmem
      obtain ⟨he', hp⟩ := List.mem_filter.1 he'
      rwa [List.inj_on_of_nodup_map hnodup he' he heq] at hp
    · intro hp
      exact List.mem_map.2 ⟨e, List.mem_filter.2 ⟨he, hp⟩, rfl⟩
  simp only [hiff]
  cases p e <;> rfl

namespace Decl

theorem firstOfKey_of_nodup {seen : List String} {es : List (String × DeclKind)}
    (hseen : ∀ e ∈ es, e.1 ∉ seen) (hnodup : (es.map (·.1)).Nodup) : firstOfKey seen es = es := by
  induction es generalizing seen with
  | nil => rfl
  | cons e es ih =>
    obtain ⟨hnew, hnodup⟩ := List.nodup_cons.1 hnodup
    have hnot : seen.contains e.1 = false := by simpa using hseen e List.mem_cons_self
    rw [firstOfKey, hnot, if_neg Bool.false_ne_true, ih _ hnodup]
    intro e' he'
    rw [List.mem_cons, not_or]
    exact ⟨fun heq => hnew (List.mem_map.2 ⟨e', he', heq⟩), hseen e' (List.mem_cons_of_mem e he')⟩

/-- Distinct keys are collected as they are listed. -/
theorem map_collect {decls : List Decl} (hreg : ∀ d ∈ decls, d.Regular)
    (hnodup : (keys decls).Nodup) :
    ((collect decls).map fun e => (e.1, decide (e.2 = .method))) = keyed decls := by
  have hentries := map_flatMap_entries hreg
  rw [← map_fst_keyed, keyed, ← hentries, List.map_map] at hnodup
  rw [collect, firstOfKey_of_nodup (by simp) hnodup, hentries, keyed]

/-- The keys in the order in which they are resolved: methods come after all others. -/
def keysInTurn (decls : List Decl) : List String :=
  ((keyed decls).filter (!·.2) ++ (keyed decls).filter (·.2)).map (·.1)

theorem keyed_withoutImports (decls : List Decl) : keyed (withoutImports decls) = keyed decls := by
  rw [keyed, headsAll_withoutImports, keyed]

theorem keys_withoutImports (decls : List Decl) : keys (withoutImports decls) = keys decls := by
  rw [← map_fst_keyed, keyed_withoutImports, map_fst_keyed]

theorem nodup_keyed {decls : List Decl} (h : (keys decls).Nodup) :
    ((keyed decls).map (·.1)).Nodup := by
  rwa [map_fst_keyed]

theorem mem_keys_of_filter_keyed {decls : List Decl} (p : String × Bool → Bool) :
    ∀ key ∈ ((keyed decls).filter p).map (·.1), key ∈ keys decls := by
  intro key hkey
  rw [← map_fst_keyed]
  exact (List.filter_sublist.map _).subset hkey

theorem isBlank_of_mem_keys {decls : List Decl} {key : String} (h : key ∈ keys decls) :
    isBlank key = false := by
  obtain ⟨b, -, hb⟩ := mem_keys_iff.1 h
  exact Head.isBlank_of_key? hb

end Decl

namespace Merger

variable {m : Merger} {u : UnitTag}

theorem map_fst_plainEntries {decls : List Decl} (hreg : ∀ d ∈ decls, d.Regular)
    (hnodup : (Decl.keys decls).Nodup) :
    (plainEntries decls).map (·.1) = ((Decl.keyed decls).filter (!·.2)).map (·.1) := by
  rw [← Decl.map_collect hreg hnodup, List.filter_map, List.map_map]
  simp [plainEntries, Function.comp_def]

theorem map_fst_methodEntries {decls : List Decl} (hreg : ∀ d ∈ decls, d.Regular)
    (hnodup : (Decl.keys decls).Nodup) :
    (methodEntries decls).map (·.1) = ((Decl.keyed decls).filter (·.2)).map (·.1) := by
  rw [← Decl.map_collect hreg hnodup, List.filter_map, List.map_map]
  simp [methodEntries, Function.comp_def]

/-- Declarations that have keys, all different, and that are copies of the registered ones. -/
structure Copied (m : Merger) (decls : List Decl) : Prop where
  regular : ∀ d ∈ decls, d.Regular
  alive : ∀ d ∈ decls, d.Alive
  nodup : (Decl.keys decls).Nodup
  copies : ∀ key ∈ Decl.keys decls, Copies m decls key

/-- Without one of them the declarations are still copies. -/
theorem Copied.remove {decls : List Decl} (h : m.Copied decls) {k : String}
    (hk : isBlank k = false) : m.Copied (Decl.remove k decls) := by
  have hkeys := Decl.keys_remove hk h.nodup
  refine ⟨Decl.regular_remove h.regular k, Decl.alive_remove h.alive k, ?_, fun key hkey => ?_⟩
  · rw [hkeys]
    exact h.nodup.filter _
  · rw [hkeys, List.mem_filter] at hkey
    obtain ⟨canonical, incoming, hcanonical, hincoming, hsame⟩ := h.copies key hkey.1
    refine ⟨canonical, incoming, hcanonical, ?_, hsame⟩
    rw [Decl.declared?_remove (of_decide_eq_true hkey.2) (Decl.isBlank_of_mem_keys hkey.1)
      fun d hd => (h.alive d hd).constsOnly, hincoming]

/-- The decision about a copy. -/
def dropDecision (u : UnitTag) (key : String) : Decision :=
  u.decide (.duplicateDropped key)

theorem resolve_of_copies {key : String} {kind : DeclKind} {decls : List Decl}
    (h : Copies m decls key) (widenings : List Widening) (decisions : List Decision) :
    m.resolve u key kind ⟨decls, widenings, decisions⟩ =
      .ok ⟨Decl.remove key decls, widenings, decisions ++ [dropDecision u key]⟩ := by
  obtain ⟨canonical, incoming, hcanonical, hincoming, -, hcompare⟩ := h
  obtain ⟨canonicalSlot, hslot, hcanonical⟩ := Option.bind_eq_some_iff.1 hcanonical
  obtain ⟨slot, hlocate, hincoming⟩ := Option.bind_eq_some_iff.1 hincoming
  have hjudge : judge canonical incoming = .ok .drop := by rw [judge, hcompare]
  simp only [resolve, hslot, hlocate, hcanonical, hincoming, hjudge]
  rfl

/-- A pass over some keys of the copies takes them out, and no others. -/
theorem Copied.resolveAll {decls : List Decl} (h : m.Copied decls)
    {entries : List (String × DeclKind)} (hnodup : (entries.map (·.1)).Nodup)
    (hkeys : ∀ key ∈ entries.map (·.1), key ∈ Decl.keys decls) (u : UnitTag)
    (widenings : List Widening) (decisions : List Decision) :
    ∃ left, m.Copied left ∧
      Decl.keyed left = (Decl.keyed decls).filter (·.1 ∉ entries.map (·.1)) ∧
      m.resolveAll u entries ⟨decls, widenings, decisions⟩ =
        .ok ⟨left, widenings, decisions ++ (entries.map (·.1)).map (dropDecision u)⟩ := by
  induction entries generalizing decls decisions with
  | nil => exact ⟨decls, h, by simp, by simp [Merger.resolveAll]⟩
  | cons e entries ih =>
    obtain ⟨key, kind⟩ := e
    rw [List.map_cons] at hnodup hkeys ⊢
    obtain ⟨hnew, hnodup⟩ := List.nodup_cons.1 hnodup
    obtain ⟨hkey, hkeys⟩ := List.forall_mem_cons.1 hkeys
    have hblank := Decl.isBlank_of_mem_keys hkey
    have hkeys' : ∀ k ∈ entries.map (·.1), k ∈ Decl.keys (Decl.remove key decls) := by
      intro k hk
      have hne : k ≠ key := fun heq => hnew (heq ▸ hk)
      rw [Decl.keys_remove hblank h.nodup]
      exact List.mem_filter.2 ⟨hkeys k hk, decide_eq_true hne⟩
    obtain ⟨left, hleft, hkeyed, hrun⟩ :=
      ih (h.remove hblank) hnodup hkeys' (decisions ++ [dropDecision u key])
    refine ⟨left, hleft, ?_, ?_⟩
    · rw [hkeyed, Decl.keyed_remove hblank h.nodup, List.filter_filter]
      refine List.filter_congr fun e _ => ?_
      simp only [List.mem_cons, not_or, ne_eq, Bool.decide_and, Bool.and_comm]
    · rw [Merger.resolveAll, resolve_of_copies (h.copies key hkey)]
      dsimp only
      rw [hrun, List.append_assoc]
      rfl

theorem append_nil (m : Merger) : m.append [] = m := by
  simp [append, Decl.slotsIn, Decl.slotsFrom, register]

/-- The two passes over declarations that are all copies leave nothing of them. The first takes out
what is no method, so the second meets the methods as they are. -/
theorem Copied.resolveAll_twice {decls : List Decl} (h : m.Copied decls) (u : UnitTag) :
    ∃ plain, m.resolveAll u (plainEntries decls) ⟨decls, [], []⟩ = .ok plain ∧
      m.resolveAll u (methodEntries plain.decls) plain =
        .ok ⟨[], [], (Decl.keysInTurn decls).map (dropDecision u)⟩ := by
  have hplain := map_fst_plainEntries h.regular h.nodup
  obtain ⟨left, hleft, hkeyed, hfirst⟩ :=
    h.resolveAll (nodup_plainEntries decls) (hplain ▸ Decl.mem_keys_of_filter_keyed _) u [] []
  rw [hplain, List.filter_not_mem_map_filter (Decl.nodup_keyed h.nodup)] at hkeyed
  -- The methods are collected again, from what the first pass left.
  have hmethods := map_fst_methodEntries hleft.regular hleft.nodup
  obtain ⟨rest, hrest, hkeyed', hsecond⟩ :=
    hleft.resolveAll (nodup_methodEntries left) (hmethods ▸ Decl.mem_keys_of_filter_keyed _) u []
      ([] ++ ((plainEntries decls).map (·.1)).map (dropDecision u))
  rw [hmethods, List.filter_not_mem_map_filter (Decl.nodup_keyed hleft.nodup)] at hkeyed'
  have hgone : rest = [] := by
    refine Decl.eq_nil_of_keyed_eq_nil hrest.alive ?_
    rw [hkeyed', hkeyed, List.filter_filter]
    simp
  refine ⟨_, hfirst, ?_⟩
  dsimp only
  rw [hsecond, hgone, hmethods, hplain, hkeyed]
  simp [Decl.keysInTurn]

theorem Copied.mergeTagged {file : SourceFile} {bs : List Import.Binding}
    (h : m.Copied (Decl.withoutImports file.decls))
    (hbindings : Import.Binding.collect file = .ok bs)
    (himports : m.takeImports u file.decls bs = (m, file.decls)) :
    m.mergeTagged u file =
      (m.record ((Decl.keysInTurn file.decls).map (dropDecision u)), none) := by
  obtain ⟨plain, hplain, hmethods⟩ := h.resolveAll_twice u
  rw [plainEntries] at hplain
  rw [methodEntries] at hmethods
  simp only [Merger.mergeTagged, hbindings, himports, hplain, hmethods, widenAll, append_nil]
  rw [Decl.keysInTurn, Decl.keyed_withoutImports, Decl.keysInTurn]

end Merger

/-! ## Imports that are there -/

namespace Import.Table

variable {t t' : Table} {b c : Binding}

/-- Whether an import is in the table. -/
structure Has (t : Table) (b : Binding) : Prop where
  special : b.isSpecial = true → b.entry ∈ t.special
  ordinary : b.isSpecial = false → t.path? b.name = some b.path

/-- Whether an import can keep its name. -/
def Admits (t : Table) (b : Binding) : Prop :=
  b.isSpecial = false → ∀ path, t.path? b.name = some path → path = b.path

theorem reconcile_of_has (h : t.Has b) (tag : String) : t.reconcile b tag = (.present, t) := by
  cases hspecial : b.isSpecial with
  | true =>
    have hthere : t.special.contains (b.name, b.path) = true :=
      List.contains_iff_mem.2 (h.special hspecial)
    rw [reconcile, if_pos hspecial, if_pos hthere]
  | false => simp [reconcile, hspecial, h.ordinary hspecial]

theorem reconcile_of_admits (h : t.Admits b) (tag : String) :
    t.Has b ∨ ∃ spec t', t.reconcile b tag = (.added spec, t') ∧ t.Inserts b t' := by
  cases hspecial : b.isSpecial with
  | true =>
    by_cases hthere : b.entry ∈ t.special
    · exact .inl ⟨fun _ => hthere, by simp [hspecial]⟩
    · refine .inr ⟨b.spec, _, ?_, .special hspecial hthere⟩
      have hnot : ¬t.special.contains (b.name, b.path) = true :=
        fun hmem => hthere (List.contains_iff_mem.1 hmem)
      rw [reconcile, if_pos hspecial, if_neg hnot]
      rfl
  | false =>
    cases hpath : t.path? b.name with
    | some path => exact .inl ⟨by simp [hspecial], fun _ => by rw [hpath, h hspecial path hpath]⟩
    | none =>
      refine .inr ⟨b.specAs b.name, _, ?_, .ordinary hspecial hpath⟩
      simp [reconcile, hspecial, hpath]

theorem Inserts.has (h : t.Inserts b t') : t'.Has b := by
  cases h with
  | ordinary hb hnew => exact ⟨by simp [hb], fun _ => by simp [path?, insert]⟩
  | special hb hnew => exact ⟨fun _ => List.mem_cons_self, by simp [hb]⟩

theorem Inserts.mono (h : t.Inserts b t') (hc : t.Has c) : t'.Has c := by
  cases h with
  | ordinary hb hnew =>
    refine ⟨hc.special, fun hordinary => ?_⟩
    have hpath := hc.ordinary hordinary
    have hne : b.name ≠ c.name := by
      intro heq
      simp [heq, hpath] at hnew
    exact (List.lookup_cons_of_ne hne _ _).trans hpath
  | special hb hnew =>
    exact ⟨fun hspecial => List.mem_cons_of_mem _ (hc.special hspecial), hc.ordinary⟩

theorem Inserts.admits (h : t.Inserts b t') (hc : t.Admits c)
    (hone : c.isSpecial = false → c.name = b.name → c.path = b.path) : t'.Admits c := by
  cases h with
  | special hb hnew => exact hc
  | ordinary hb hnew =>
    intro hordinary path hpath
    by_cases heq : b.name = c.name
    · have hthere : (t.insert b.name b.path).path? c.name = some b.path := by
        simp [insert, path?, heq]
      rw [hthere, Option.some.injEq] at hpath
      rw [← hpath, hone hordinary heq.symm]
    · rw [insert, path?, List.lookup_cons_of_ne heq] at hpath
      exact hc hordinary path hpath

end Import.Table

namespace Merger

variable {m : Merger} {u : UnitTag} {decls : List Decl}

theorem takeImport_of_has {b : Import.Binding} (h : m.imports.Has b) :
    m.takeImport u decls b = (m, decls) := by
  rw [takeImport, Import.Table.reconcile_of_has h]

theorem takeImports_of_has {bs : List Import.Binding} (h : ∀ b ∈ bs, m.imports.Has b) :
    m.takeImports u decls bs = (m, decls) := by
  induction bs with
  | nil => rfl
  | cons b bs ih =>
    obtain ⟨hb, hbs⟩ := List.forall_mem_cons.1 h
    rw [takeImports, takeImport_of_has hb]
    exact ih hbs

theorem takeImport_of_admits {b : Import.Binding} (h : m.imports.Admits b) (u : UnitTag)
    (decls : List Decl) :
    ∃ m', m.takeImport u decls b = (m', decls) ∧
      (m'.imports = m.imports ∧ m.imports.Has b ∨ m.imports.Inserts b m'.imports) := by
  rcases Import.Table.reconcile_of_admits h u.tag with hhas | ⟨spec, t', hadded, hinserts⟩
  · exact ⟨m, takeImport_of_has hhas, .inl ⟨rfl, hhas⟩⟩
  · refine ⟨_, by rw [takeImport, hadded], .inr ?_⟩
    rw [record, imports_addImport]
    exact hinserts

/-- Imports of which each name has one path, the one in the table if there is one, leave the unit as
it is and are then in the table. -/
theorem takeImports_of_admits {bs : List Import.Binding} (hadmits : ∀ b ∈ bs, m.imports.Admits b)
    (hone : ∀ b ∈ bs, ∀ c ∈ bs, b.isSpecial = false → b.name = c.name → b.path = c.path)
    (u : UnitTag) (decls : List Decl) :
    ∃ m', m.takeImports u decls bs = (m', decls) ∧
      (∀ c, m.imports.Has c → m'.imports.Has c) ∧ ∀ b ∈ bs, m'.imports.Has b := by
  induction bs generalizing m with
  | nil => exact ⟨m, rfl, fun _ h => h, by simp⟩
  | cons b bs ih =>
    obtain ⟨hb, hbs⟩ := List.forall_mem_cons.1 hadmits
    obtain ⟨next, hstep, htable⟩ := takeImport_of_admits hb u decls
    have hnext : (∀ c, m.imports.Has c → next.imports.Has c) ∧ next.imports.Has b ∧
        ∀ c ∈ bs, next.imports.Admits c := by
      rcases htable with ⟨hsame, hhas⟩ | hinserts
      · rw [hsame]
        exact ⟨fun _ h => h, hhas, hbs⟩
      · refine ⟨fun c => hinserts.mono, hinserts.has, fun c hc => ?_⟩
        exact hinserts.admits (hbs c hc)
          (hone c (List.mem_cons_of_mem b hc) b List.mem_cons_self)
    obtain ⟨hmono, hhas, hadmits⟩ := hnext
    obtain ⟨m', hrun, hmono', hall⟩ := ih hadmits fun c hc d hd =>
      hone c (List.mem_cons_of_mem b hc) d (List.mem_cons_of_mem b hd)
    refine ⟨m', ?_, fun c hc => hmono' c (hmono c hc), List.forall_mem_cons.2 ⟨?_, hall⟩⟩
    · rw [takeImports, hstep]
      exact hrun
    · exact hmono' b hhas

theorem merge_of_mergeTagged {m' : Merger} {file : SourceFile} {tag : String} (htag : tag ≠ "")
    (h : ({ m with units := m.units + 1 } : Merger).mergeTagged ⟨m.units, tag⟩ file = (m', none)) :
    m.merge file tag = (m', none) := by
  have hempty : ¬tag.isEmpty = true := by simpa using htag
  rw [merge]
  dsimp only
  rw [if_neg hempty, h]
  rfl

/-- A unit whose imports are there and whose declarations are all copies adds nothing but the
decisions to drop them. -/
theorem Copied.merge {file : SourceFile} (h : m.Copied (Decl.withoutImports file.decls))
    {bs : List Import.Binding} (hbindings : Import.Binding.collect file = .ok bs)
    (himports : ∀ b ∈ bs, m.imports.Has b) {tag : String} (htag : tag ≠ "") :
    m.merge file tag =
      (({ m with units := m.units + 1 } : Merger).record
        ((Decl.keysInTurn file.decls).map (dropDecision ⟨m.units, tag⟩)), none) := by
  have hcounted : Copied { m with units := m.units + 1 } (Decl.withoutImports file.decls) :=
    ⟨h.regular, h.alive, h.nodup, h.copies⟩
  exact merge_of_mergeTagged htag (hcounted.mergeTagged hbindings (takeImports_of_has himports))

end Merger

/-! ## The first time -/

namespace Decl

variable {decls : List Decl} {key : String}

theorem exists_declared?_of_mem_keys (h : key ∈ keys decls) :
    ∃ found, declared? decls key = some found := by
  have hblank := isBlank_of_mem_keys h
  cases hlocate : locate? decls key with
  | none => exact absurd h ((locate?_eq_none_iff hblank decls).1 hlocate)
  | some slot =>
    have hlookup := hlocate
    rw [locate?_eq_lookup hblank] at hlookup
    obtain ⟨before, after, hsplit, -⟩ := List.lookup_eq_some_iff.1 hlookup
    have hmem : (key, slot) ∈ slotsFrom 0 decls := by simp [hsplit]
    obtain ⟨found, hfound, -⟩ := snapshot?_of_mem_slotsFrom hmem
    exact ⟨found, by rw [declared?, hlocate, Option.bind_some, hfound]⟩

theorem declared?_append_of_not_mem {front : List Decl} (hkey : isBlank key = false)
    (h : key ∉ keys front) : declared? (front ++ decls) key = declared? decls key := by
  have hnone : declared? front key = none := by
    rw [declared?, (locate?_eq_none_iff hkey front).2 h]
    rfl
  rw [declared?_eq_findSome?] at hnone
  rw [declared?_eq_findSome?, List.findSome?_append, hnone, Option.none_or,
    ← declared?_eq_findSome?]

end Decl

namespace Merger

variable {m : Merger} {u : UnitTag}

theorem Agrees.declared?_eq (h : m.Agrees) {key : String} (hkey : isBlank key = false) :
    m.declared? key = Decl.declared? m.decls key := by
  rw [declared?, h key, Decl.declared?, Decl.locate?_eq_lookup hkey]

theorem resolveAll_of_unregistered (h : ∀ key, m.slot? key = none)
    (entries : List (String × DeclKind)) (res : Resolution) :
    m.resolveAll u entries res = .ok res := by
  induction entries with
  | nil => rfl
  | cons e entries ih =>
    obtain ⟨key, kind⟩ := e
    rw [resolveAll, resolve, h key]
    exact ih

/-- The imports of the first unit: nothing is there besides them, and nothing is registered. -/
theorem exists_takeImports_first {bs : List Import.Binding}
    (hone : ∀ b ∈ bs, ∀ c ∈ bs, b.isSpecial = false → b.name = c.name → b.path = c.path)
    (package : String) (units : Nat) (u : UnitTag) (decls : List Decl) :
    ∃ imported, (⟨package, [], none, .empty, [], [], units⟩ : Merger).takeImports u decls bs =
        (imported, decls) ∧
      imported.Agrees ∧ imported.registry = [] ∧ Decl.withoutImports imported.decls = [] ∧
      ∀ b ∈ bs, imported.imports.Has b := by
  generalize hm : (⟨package, [], none, .empty, [], [], units⟩ : Merger) = m
  have hadmits : ∀ b ∈ bs, m.imports.Admits b := by
    intro b _ _ path hpath
    rw [← hm] at hpath
    cases hpath
  have hholds : m.HoldsImports [] := by
    rw [← hm]
    exact ⟨by simp, by simp, by simp⟩
  have hagrees : m.Agrees := by
    rw [← hm]
    exact fun key => rfl
  obtain ⟨imported, himported, -, hhas⟩ := takeImports_of_admits hadmits hone u decls
  have hslots := sameSlots_takeImports m u decls bs
  have hsame := sameButImports_takeImports ⟨[], hholds⟩ u decls bs
  rw [himported] at hslots hsame
  refine ⟨imported, himported, hslots.agrees hagrees, ?_, ?_, hhas⟩
  · rw [hslots.registry, ← hm]
  · rw [← hsame.withoutImports_eq, ← hm]
    rfl

/-- Where no key is registered a unit is appended as it is. -/
theorem mergeTagged_of_unregistered {imported : Merger} {file : SourceFile}
    {bs : List Import.Binding} (hbindings : Import.Binding.collect file = .ok bs)
    (himports : m.takeImports u file.decls bs = (imported, file.decls))
    (h : ∀ key, imported.slot? key = none) :
    m.mergeTagged u file = (imported.append (Decl.withoutImports file.decls), none) := by
  simp only [mergeTagged, hbindings, himports, resolveAll_of_unregistered h, widenAll, record,
    List.append_nil]

end Merger

/-- Whether a spec of a group has keys only, and is of the kind of its group. -/
def Spec.Fits (tok : Token) : Spec → Prop
  | .imported _ => False
  | .type t => tok = .type ∧ isBlank t.name = false
  | .value v =>
    (tok = .const ∨ tok = .var) ∧ v.names ≠ [] ∧ ∀ name ∈ v.names, isBlank name = false

instance (tok : Token) : (s : Spec) → Decidable (s.Fits tok)
  | .imported _ => inferInstanceAs (Decidable False)
  | .type _ => inferInstanceAs (Decidable (_ ∧ _))
  | .value _ => inferInstanceAs (Decidable (_ ∧ _ ∧ ∀ _ ∈ _, _))

/-- Whether all that a declaration declares has a key. -/
def Decl.AllKeyed : Decl → Prop
  | .bad _ => False
  | .func f => f.key?.isSome = true
  | .group g => g.specs ≠ [] ∧ ∀ s ∈ g.specs, s.Fits g.tok

instance : (d : Decl) → Decidable d.AllKeyed
  | .bad _ => inferInstanceAs (Decidable False)
  | .func _ => inferInstanceAs (Decidable (_ = true))
  | .group _ => inferInstanceAs (Decidable (_ ∧ ∀ _ ∈ _, _))

/-- A file that can be merged again without effect: what it declares has keys, all different, and is
equal to itself, and its imports can be read and give each name one path. -/
structure SourceFile.Repeatable (file : SourceFile) : Prop where
  keyed : ∀ d ∈ file.decls, d.isImport = true ∨ d.AllKeyed
  nodup : (Decl.keys file.decls).Nodup
  comparable : ∀ d ∈ file.decls, ∀ s ∈ d.sites, s.Comparable
  imports : ∃ bs, Import.Binding.collect file = .ok bs ∧
    ∀ b ∈ bs, ∀ c ∈ bs, b.isSpecial = false → b.name = c.name → b.path = c.path

theorem Spec.Fits.isKeyed {tok : Token} {s : Spec} (h : s.Fits tok) : s.isKeyed = true := by
  cases s with
  | imported spec => exact h.elim
  | type t => simp [Spec.isKeyed, heads, Head.key?, h.2]
  | value v =>
    obtain ⟨name, hname⟩ := List.exists_mem_of_ne_nil _ h.2.1
    rw [isKeyed_value, ValueSpec.allBlank, List.not_all_eq_any_not]
    exact List.any_eq_true.2 ⟨name, hname, by simp [h.2.2 name hname]⟩

namespace Decl

theorem AllKeyed.tok_cases {g : DeclGroup} (h : (Decl.group g).AllKeyed) :
    g.tok = .const ∨ g.tok = .var ∨ g.tok = .type := by
  obtain ⟨s, hs⟩ := List.exists_mem_of_ne_nil _ h.1
  have hfits := h.2 s hs
  cases s with
  | imported spec => exact hfits.elim
  | type t => exact .inr (.inr hfits.1)
  | value v => exact hfits.1.imp_right .inl

theorem AllKeyed.alive {d : Decl} (h : d.AllKeyed) : d.Alive := by
  cases d with
  | bad node => exact h.elim
  | func f => exact h
  | group g =>
    refine ⟨?_, ?_⟩
    · rcases h.tok_cases with htok | htok | htok <;> simp [htok]
    · have hkeyed : ∀ s ∈ g.specs, s.isKeyed = true := fun s hs => (h.2 s hs).isKeyed
      split
      · next htok =>
        refine ⟨fun s hs => ?_, ?_⟩
        · have hfits := h.2 s hs
          cases s with
          | imported spec => exact hfits.elim
          | type t => simp [Spec.Fits, htok] at hfits
          | value v => rfl
        · obtain ⟨s, hs⟩ := List.exists_mem_of_ne_nil _ h.1
          exact ⟨s, hs, hkeyed s hs⟩
      · exact ⟨h.1, hkeyed⟩

theorem AllKeyed.regular {d : Decl} (h : d.AllKeyed) : d.Regular := by
  cases d with
  | bad node => exact h.elim
  | func f => trivial
  | group g => exact .inr h.tok_cases

end Decl

namespace SourceFile.Repeatable

variable {file : SourceFile}

theorem allKeyed (h : file.Repeatable) : ∀ d ∈ Decl.withoutImports file.decls, d.AllKeyed := by
  intro d hd
  obtain ⟨hd, himport⟩ := List.mem_filter.1 hd
  rcases h.keyed d hd with hkeyed | hkeyed
  · simp [hkeyed] at himport
  · exact hkeyed

/-- Once they are appended to nothing but imports, the declarations of the file are copies of what
is registered. -/
theorem copied (h : file.Repeatable) {m : Merger} (hm : m.Agrees)
    (hnone : Decl.withoutImports m.decls = []) :
    (m.append (Decl.withoutImports file.decls)).Copied (Decl.withoutImports file.decls) := by
  refine ⟨fun d hd => (h.allKeyed d hd).regular, fun d hd => (h.allKeyed d hd).alive, ?_,
    fun key hkey => ?_⟩
  · rw [Decl.keys_withoutImports]
    exact h.nodup
  · have hblank := Decl.isBlank_of_mem_keys hkey
    have hnew : key ∉ Decl.keys m.decls := by
      rw [← Decl.keys_withoutImports, hnone]
      exact List.not_mem_nil
    obtain ⟨found, hfound⟩ := Decl.exists_declared?_of_mem_keys hkey
    refine ⟨found, found, ?_, hfound, rfl, Merger.compare_self fun s hs => ?_⟩
    · rw [(hm.append _).declared?_eq hblank, Merger.append,
        Decl.declared?_append_of_not_mem hblank hnew, hfound]
    · obtain ⟨d, hd, hsites⟩ := Decl.exists_sites_declared? hfound
      exact h.comparable d (List.mem_of_mem_filter hd) s (hsites hs)

/-- A file is merged first as it is: its imports are taken over and its declarations appended. -/
theorem exists_merge_start (h : file.Repeatable) (package : String) {tag : String}
    (htag : tag ≠ "") :
    ∃ m bs, (Merger.start package).merge file tag = (m, none) ∧
      Decl.withoutImports m.decls = Decl.withoutImports file.decls ∧
      m.Copied (Decl.withoutImports file.decls) ∧ Import.Binding.collect file = .ok bs ∧
      ∀ b ∈ bs, m.imports.Has b := by
  obtain ⟨bs, hbindings, hone⟩ := h.imports
  obtain ⟨imported, himported, hagrees, hregistry, hnone, hhas⟩ :=
    Merger.exists_takeImports_first hone package 1 ⟨0, tag⟩ file.decls
  have hmerge : (Merger.start package).merge file tag =
      (imported.append (Decl.withoutImports file.decls), none) := by
    refine Merger.merge_of_mergeTagged htag ?_
    refine Merger.mergeTagged_of_unregistered hbindings himported fun key => ?_
    rw [Merger.slot?, hregistry, List.lookup_nil]
  refine ⟨_, bs, hmerge, ?_, h.copied hagrees hnone, hbindings, hhas⟩
  rw [Decl.withoutImports] at hnone
  rw [Merger.append, Decl.withoutImports, List.filter_append, hnone, List.nil_append,
    Decl.withoutImports, List.filter_filter]
  simp

end SourceFile.Repeatable

theorem mergeAll_of_tags {units : List (SourceFile × String)} (hne : units ≠ [])
    (h : ∀ unit ∈ units, unit.2 ≠ "") (package : String) :
    mergeAll package units = (Merger.start package).mergeEach units := by
  have hnone : units.findIdx? (·.2.isEmpty) = none :=
    List.findIdx?_eq_none_iff.2 fun unit hunit => by simpa using h unit hunit
  have hempty : ¬units.isEmpty = true := by simpa using hne
  rw [mergeAll, unitsFault?, if_neg hempty, hnone]
  rfl

/-- Merging a file gives its declarations. Merging it a second time gives the same file, and drops
each of its declarations once, the methods after all others. -/
theorem SourceFile.Repeatable.mergeAll_twice {file : SourceFile} (h : file.Repeatable)
    (package : String) {tag tag' : String} (htag : tag ≠ "") (htag' : tag' ≠ "") :
    let once := mergeAll package [(file, tag)]
    let twice := mergeAll package [(file, tag), (file, tag')]
    once.2 = none ∧ twice.2 = none ∧
      Decl.withoutImports once.1.finish.decls = Decl.withoutImports file.decls ∧
      twice.1.finish = once.1.finish ∧
      twice.1.decisions = once.1.decisions ++
        (Decl.keysInTurn file.decls).map fun key => ⟨1, tag', .duplicateDropped key⟩ := by
  obtain ⟨m, bs, hfirst, hdecls, hcopied, hbindings, hhas⟩ := h.exists_merge_start package htag
  have hunits := (Merger.units_decisions_merge (Merger.start package) file tag).1
  obtain ⟨specs, hspecs⟩ :=
    (Merger.Reachable.merge file tag (.start package)).exists_holdsImports
  rw [hfirst] at hunits hspecs
  have hsecond := hcopied.merge hbindings hhas htag'
  have honce : mergeAll package [(file, tag)] = (m, none) := by
    rw [mergeAll_of_tags (by simp) (by simp [htag]), Merger.mergeEach, hfirst]
    rfl
  have htwice : mergeAll package [(file, tag), (file, tag')] = m.merge file tag' := by
    rw [mergeAll_of_tags (by simp) (by simp [htag, htag']), Merger.mergeEach, hfirst]
    dsimp only
    rw [Merger.mergeEach, hsecond]
    rfl
  dsimp only
  rw [honce, htwice, hsecond, hunits]
  exact ⟨rfl, rfl, hspecs.withoutImports_finish.trans hdecls, rfl, rfl⟩

/-- Constants that repeat an initializer with `iota`, variables that share one, and a method that
stands before the type and a function. -/
theorem mergeAll_twice_constants :
    let call : Expr := .call (.ident "g") [] false
    let file : SourceFile :=
      ⟨"a",
        [.ofImport "f" "x/f", .ofImport "_" "x/side", .ofMethod (.star (.ident "T")) "M",
          .group ⟨.const, [.value ⟨["A", "B"], none, [.ident "iota", .ident "iota"]⟩,
            .value ⟨["C", "D"], none, []⟩, .value ⟨["E"], none, [.ident "iota"]⟩], true⟩,
          .group ⟨.var, [.value ⟨["X", "Y"], none, [call]⟩,
            .value ⟨["P", "Q"], some (.ident "int"), []⟩], true⟩,
          .ofType "T" (.structType [⟨["V", "W"], .ident "int", none⟩, ⟨[], .ident "U", none⟩]
            false),
          .ofFunc "g"]⟩
    let keys := ["A", "B", "C", "D", "E", "X", "Y", "P", "Q", "T", "g", "T.M"]
    file.Repeatable ∧
      Decl.withoutImports (mergeAll "out" [(file, "A")]).1.finish.decls =
        Decl.withoutImports file.decls ∧
      (mergeAll "out" [(file, "A"), (file, "B")]).1.finish =
        (mergeAll "out" [(file, "A")]).1.finish ∧
      (mergeAll "out" [(file, "A"), (file, "B")]).1.decisions =
        (mergeAll "out" [(file, "A")]).1.decisions ++
          keys.map fun key => ⟨1, "B", .duplicateDropped key⟩ := by
  intro call file keys
  have hfile : file.Repeatable :=
    ⟨by decide +kernel, by decide +kernel, by decide +kernel, _, rfl, by decide +kernel⟩
  have hkeys : Decl.keysInTurn file.decls = keys := by decide +kernel
  obtain ⟨-, -, hdecls, hfinish, hdecisions⟩ :=
    hfile.mergeAll_twice "out" (by decide : "A" ≠ "") (by decide : "B" ≠ "")
  exact ⟨hfile, hdecls, hfinish, by rw [hdecisions, hkeys]⟩

end GoWeave
