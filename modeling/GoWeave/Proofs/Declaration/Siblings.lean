import GoWeave.Proofs.Declaration.Removal

/-!
# What a removal leaves

A removal takes one key out of a list of declarations. The other keys keep their order and their
declarations, nothing empty comes about that was not there before, and the count that goes with the
removal is the number of times the key was there.
-/
namespace GoWeave

/-! ## The count -/

theorem Spec.count_heads {k : String} (hk : isBlank k = false) (s : Spec) :
    (s.heads.filterMap Head.key?).count k = s.declared.count k := by
  cases s with
  | imported spec => rfl
  | type t =>
    by_cases hb : isBlank t.name
    · have hne : t.name ≠ k := by
        rintro rfl
        simp [hb] at hk
      simp [heads, Head.key?, declared, hb, hne]
    · simp [heads, Head.key?, declared, hb]
  | value v => exact Head.count_values hk v.names

theorem Spec.count_declared {k : String} {s : Spec} (honce : s.declared.count k ≤ 1) :
    s.declared.count k = if s.declares k then 1 else 0 := by
  have hdeclares : s.declares k = true ↔ 0 < s.declared.count k := by
    rw [declares, List.contains_iff_mem, List.count_pos_iff]
  split
  · next h =>
    have := hdeclares.1 h
    omega
  · next h =>
    rw [hdeclares] at h
    omega

namespace Decl

theorem bearers_eq_count {k : String} (hk : isBlank k = false) {d : Decl}
    (honce : d.BearsOnce k) : d.bearers k = (d.heads.filterMap Head.key?).count k := by
  cases d with
  | bad node => rfl
  | func f =>
    rw [heads, List.filterMap_cons, FuncDecl.key?_head, bearers]
    cases hf : f.key? with
    | none => rfl
    | some key => simp [List.count_cons]
  | group g =>
    rw [bearers, heads]
    split
    · rfl
    · next htok =>
      have honce := honce htok
      generalize g.specs = specs at honce ⊢
      induction specs with
      | nil => rfl
      | cons s ss ih =>
        rw [List.forall_mem_cons, Spec.count_heads hk] at honce
        rw [List.countP_cons, List.flatMap_cons, List.filterMap_append, List.count_append,
          ih honce.2, Spec.count_heads hk, Spec.count_declared honce.1, Nat.add_comm]

theorem removeCount_eq_count {k : String} (hk : isBlank k = false) {decls : List Decl}
    (honce : ∀ d ∈ decls, d.BearsOnce k) : removeCount k decls = (keys decls).count k := by
  rw [keys_eq]
  induction decls with
  | nil => rfl
  | cons d ds ih =>
    rw [List.forall_mem_cons] at honce
    rw [headsAll_cons, List.filterMap_append, List.count_append, ← bearers_eq_count hk honce.1,
      ← ih honce.2]
    rfl

end Decl

/-! ## Nothing empty comes about -/

/-- A value spec that is left without names had none. -/
theorem Spec.eq_of_without_of_names_eq_nil {k : String} {pinned : Bool} {s : Spec} {v : ValueSpec}
    (h : s.without k pinned = some (.value v)) (hnames : v.names = []) : s = .value v := by
  cases s with
  | imported spec => cases h
  | type t =>
    rw [without] at h
    split at h <;> cases h
  | value w =>
    simp only [without] at h
    split at h
    · exact Option.some.inj h
    · next i hi =>
      have hlt := List.lt_length_of_idxOf? hi
      simp only [Option.ite_none_right_eq_some, Option.some.injEq, Spec.value.injEq] at h
      obtain ⟨hstays, rfl⟩ := h
      have hpinned : pinned = true := by simpa [ValueSpec.allBlank, hnames] using hstays
      have hlength : w.names.length = 0 := by
        simpa [ValueSpec.dropName, hpinned] using congrArg List.length hnames
      omega

namespace Decl

theorem exists_group_of_mem_remove {k : String} {decls : List Decl} {g' : DeclGroup}
    (h : .group g' ∈ remove k decls) :
    ∃ g, .group g ∈ decls ∧ (g = g' ∨ g.without k = some g') := by
  obtain ⟨d, hd, hwithout⟩ := List.mem_filterMap.1 h
  cases d with
  | bad node => cases hwithout
  | func f =>
    rw [without] at hwithout
    split at hwithout <;> cases hwithout
  | group g =>
    refine ⟨g, hd, ?_⟩
    rw [without] at hwithout
    split at hwithout
    · exact .inl (Decl.group.inj (Option.some.inj hwithout))
    · obtain ⟨g₁, hg₁, hg'⟩ := Option.map_eq_some_iff.1 hwithout
      cases hg'
      exact .inr hg₁

theorem mem_of_remove_of_specs_eq_nil {k : String} {decls : List Decl} {g' : DeclGroup}
    (h : .group g' ∈ remove k decls) (hempty : g'.specs = []) : .group g' ∈ decls := by
  obtain ⟨g, hg, rfl | hwithout⟩ := exists_group_of_mem_remove h
  · exact hg
  · have hspecs : g.specs = [] := by
      by_contra hne
      exact DeclGroup.ne_nil_of_without hne hwithout hempty
    have hsame : g' = g := by
      rw [(DeclGroup.eq_of_without hwithout).1, hspecs]
      cases g
      cases hspecs
      rfl
    rwa [hsame]

theorem exists_of_remove_of_names_eq_nil {k : String} {decls : List Decl} {g' : DeclGroup}
    (h : .group g' ∈ remove k decls) {v : ValueSpec} (hv : .value v ∈ g'.specs)
    (hnames : v.names = []) : ∃ g, .group g ∈ decls ∧ .value v ∈ g.specs := by
  obtain ⟨g, hg, rfl | hwithout⟩ := exists_group_of_mem_remove h
  · exact ⟨g, hg, hv⟩
  · obtain ⟨s, hs, last, hs'⟩ := DeclGroup.exists_of_mem_without hwithout hv
    rw [Spec.eq_of_without_of_names_eq_nil hs' hnames] at hs
    exact ⟨g, hg, hs⟩

/-! ## The other keys -/

theorem exists_snapshot?_remove {k key : String} (hne : key ≠ k) (hkey : isBlank key = false)
    {decls : List Decl} (hconsts : ∀ d ∈ decls, d.ConstsOnly) {slot : Slot}
    (hslot : locate? decls key = some slot) :
    ∃ slot' found, locate? (remove k decls) key = some slot' ∧
      snapshot? (remove k decls) slot' = some found ∧ snapshot? decls slot = some found := by
  have hmem : (key, slot) ∈ slotsFrom 0 decls := by
    rw [locate?_eq_lookup hkey] at hslot
    obtain ⟨before, after, hsplit, -⟩ := List.lookup_eq_some_iff.1 hslot
    rw [hsplit]
    exact List.mem_append_right _ List.mem_cons_self
  obtain ⟨found, hfound, -⟩ := snapshot?_of_mem_slotsFrom hmem
  have hdeclared : declared? (remove k decls) key = some found := by
    rw [declared?_remove hne hkey hconsts, declared?, hslot]
    exact hfound
  obtain ⟨slot', hslot', hfound'⟩ := Option.bind_eq_some_iff.1 hdeclared
  exact ⟨slot', found, hslot', hfound', hfound⟩

/-- Whether no value spec has a name twice, blank names aside. -/
def NamesDistinct : Decl → Prop
  | .group g => ∀ s ∈ g.specs, (s.declared.filter fun name => !isBlank name).Nodup
  | _ => True

instance : (d : Decl) → Decidable d.NamesDistinct
  | .group g =>
    inferInstanceAs (Decidable (∀ s ∈ g.specs, (s.declared.filter fun name => !isBlank name).Nodup))
  | .bad _ => .isTrue trivial
  | .func _ => .isTrue trivial

theorem NamesDistinct.bearsOnce {d : Decl} (h : d.NamesDistinct) {k : String}
    (hk : isBlank k = false) : d.BearsOnce k := by
  cases d with
  | group g =>
    intro _ s hs
    have hcount := List.nodup_iff_count_le_one.1 (h s hs) k
    rwa [List.count_filter (by simp [hk]), ← Spec.count_heads hk] at hcount
  | _ => trivial

/-- Removing a key leaves the list of the other keys and the declaration of each. It empties no
group and no value spec, and its count is the number of times the key was there. -/
theorem remove_preserves_others {k : String} (hk : isBlank k = false) {decls : List Decl}
    (hconsts : ∀ d ∈ decls, d.ConstsOnly) (hnames : ∀ d ∈ decls, d.NamesDistinct) :
    keys (remove k decls) = (keys decls).filter (· ≠ k) ∧
    (∀ key slot, key ≠ k → isBlank key = false → locate? decls key = some slot →
      ∃ slot' found, locate? (remove k decls) key = some slot' ∧
        snapshot? (remove k decls) slot' = some found ∧ snapshot? decls slot = some found) ∧
    (∀ g, .group g ∈ remove k decls → (g.specs = [] → .group g ∈ decls) ∧
      ∀ v, .value v ∈ g.specs → v.names = [] → ∃ g₀, .group g₀ ∈ decls ∧ .value v ∈ g₀.specs) ∧
    removeCount k decls = (keys decls).count k := by
  have honce : ∀ d ∈ decls, d.BearsOnce k := fun d hd => (hnames d hd).bearsOnce hk
  refine ⟨keys_remove_of_bearsOnce hk honce, ?_, ?_, removeCount_eq_count hk honce⟩
  · intro key slot hne hkey hslot
    exact exists_snapshot?_remove hne hkey hconsts hslot
  · intro g hg
    exact ⟨mem_of_remove_of_specs_eq_nil hg, fun v => exists_of_remove_of_names_eq_nil hg⟩

/-- Taking `A` out of `const (A, _ = iota, zero; B, C)` blanks it, and `B` still repeats `iota` at
the second place. -/
theorem remove_preserves_others_constants :
    let decls : List Decl :=
      [.group ⟨.const, [.value ⟨["A", "_"], none, [.ident "iota", .ident "zero"]⟩,
          .value ⟨["B", "C"], none, []⟩], true⟩,
        .group ⟨.var, [.value ⟨["x", "y"], none, [.ident "one", .ident "two"]⟩], false⟩,
        .group ⟨.type, [.type ⟨"T", none, false, .structType [] false⟩], true⟩,
        .func ⟨some [⟨["t"], .ident "T", none⟩], "M", ⟨none, [], none⟩, some []⟩]
    keys decls = ["A", "B", "C", "x", "y", "T", "T.M"] ∧
      keys (remove "A" decls) = (keys decls).filter (· ≠ "A") ∧ removeCount "A" decls = 1 ∧
      locate? decls "B" = some (.value 0 1 0) ∧
      snapshot? decls (.value 0 1 0) =
        some (.value .const ⟨["B"], none, [.ident "iota"]⟩ (some 1)) ∧
      ∃ slot' found, locate? (remove "A" decls) "B" = some slot' ∧
        snapshot? (remove "A" decls) slot' = some found ∧
        snapshot? decls (.value 0 1 0) = some found := by
  intro decls
  have hconsts : ∀ d ∈ decls, d.ConstsOnly := by decide
  have hnames : ∀ d ∈ decls, d.NamesDistinct := by decide
  have hkeys : keys decls = ["A", "B", "C", "x", "y", "T", "T.M"] := by decide
  have hslot : locate? decls "B" = some (.value 0 1 0) := by decide
  obtain ⟨hfilter, hothers, -, hcount⟩ :=
    remove_preserves_others (by decide : isBlank "A" = false) hconsts hnames
  refine ⟨hkeys, hfilter, ?_, hslot, rfl, hothers "B" _ (by decide) (by decide) hslot⟩
  rw [hcount, hkeys]
  decide

end Decl

end GoWeave
