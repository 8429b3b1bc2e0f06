import GoWeave.Proofs.Declaration.Changes
import GoWeave.Proofs.Scope.Declarations

/-!
# Removal next to renaming

Removing one key and renaming another name are independent: they may be done in either order. The
same holds of removing a key and giving a method of another key a new name. Removal adds no
references.
-/
namespace GoWeave

/-- A key that a renaming does not touch. The key is that of a type, value or plain function, and
the names are not blank. -/
structure Renaming.Avoids (r : Renaming) (key : String) : Prop where
  ne_old : key ≠ r.old
  ne_new : key ≠ r.new
  old_ne : r.old ≠ "_"
  new_ne : r.new ≠ "_"
  undotted : ¬Dotted key

namespace Renaming.Avoids

variable {r : Renaming} {key : String}

theorem apply_eq_iff (h : r.Avoids key) (name : String) :
    r.apply .root name = key ↔ name = key := by
  rw [apply_root]
  split
  · next hname =>
    subst hname
    exact ⟨fun hnew => absurd hnew.symm h.ne_new, fun hold => absurd hold.symm h.ne_old⟩
  · exact Iff.rfl

theorem isBlank_apply (h : r.Avoids key) (name : String) :
    isBlank (r.apply .root name) = isBlank name := by
  rw [apply_root]
  split
  · next hname =>
    subst hname
    have hold : isBlank r.old = false := by simpa [isBlank] using h.old_ne
    have hnew : isBlank r.new = false := by simpa [isBlank] using h.new_ne
    rw [hold, hnew]
  · rfl

theorem idxOf?_map (h : r.Avoids key) (names : List String) :
    (names.map (r.apply .root)).idxOf? key = names.idxOf? key := by
  induction names with
  | nil => rfl
  | cons name names ih =>
    rw [List.map_cons, List.idxOf?_cons, List.idxOf?_cons, ih]
    by_cases hname : name = key
    · simp [hname, (h.apply_eq_iff key).2 rfl]
    · have hne : r.apply .root name ≠ key := fun heq => hname ((h.apply_eq_iff name).1 heq)
      simp [hname, hne]

end Renaming.Avoids

theorem Expr.renameAll_eq_map (r : Renaming) (sc : Scope) (xs : List Expr) :
    Expr.renameAll r sc xs = xs.map (Expr.rename r sc) := by
  induction xs with
  | nil => rw [Expr.renameAll, List.map_nil]
  | cons x xs ih => rw [Expr.renameAll, List.map_cons, ih]

theorem List.map_eraseIdx {α β : Type} (f : α → β) (xs : List α) (i : Nat) :
    (xs.eraseIdx i).map f = (xs.map f).eraseIdx i := by
  induction xs generalizing i with
  | nil => rfl
  | cons x xs ih =>
    cases i with
    | zero => rfl
    | succ i => simp only [List.eraseIdx_cons_succ, List.map_cons, ih]

namespace ValueSpec

variable {r : Renaming} {key : String}

theorem allBlank_rename (h : r.Avoids key) (v : ValueSpec) :
    (v.rename r .root).allBlank = v.allBlank := by
  simp [allBlank, ValueSpec.rename, Function.comp_def, h.isBlank_apply]

theorem rename_dropName (h : r.Avoids key) (v : ValueSpec) (i : Nat) (pinned : Bool) :
    (v.dropName i pinned).rename r .root = (v.rename r .root).dropName i pinned := by
  have hblank : r.apply .root "_" = "_" := by rw [Renaming.apply_root, if_neg h.old_ne.symm]
  have hpaired : (v.rename r .root).isPaired = v.isPaired := by
    simp [isPaired, ValueSpec.rename, Expr.renameAll_eq_map]
  have hempty : (v.rename r .root).values.isEmpty = v.values.isEmpty := by
    simp [ValueSpec.rename, Expr.renameAll_eq_map]
  unfold dropName
  rw [hpaired, hempty]
  split
  · simp only [ValueSpec.rename, List.map_eraseIdx, Expr.renameAll_eq_map, ValueSpec.mk.injEq,
      true_and]
    split
    · exact List.map_eraseIdx _ _ i
    · rfl
  · simp [ValueSpec.rename, List.map_set, hblank]

end ValueSpec

namespace Spec

variable {r : Renaming} {key : String}

theorem declares_rename (h : r.Avoids key) (s : Spec) :
    (s.rename r .root).declares key = s.declares key := by
  have hmem : ∀ names : List String,
      (names.map (r.apply .root)).contains key = names.contains key := by
    intro names
    rw [Bool.eq_iff_iff]
    simp [h.apply_eq_iff]
  cases s with
  | imported spec => rfl
  | value v => exact hmem v.names
  | type t => exact hmem [t.name]

theorem isPinned_rename (r : Renaming) (constants last : Bool) (s : Spec) :
    (s.rename r .root).isPinned constants last = s.isPinned constants last := by
  cases s with
  | imported spec => rfl
  | type t => rfl
  | value v => simp [Spec.rename, isPinned, ValueSpec.rename, Expr.renameAll_eq_map]

theorem without_rename (h : r.Avoids key) (pinned : Bool) (s : Spec) :
    (s.rename r .root).without key pinned = (s.without key pinned).map (Spec.rename r .root) := by
  cases s with
  | imported spec => rfl
  | type t =>
    have hname : (t.rename r .root).name = key ↔ t.name = key := h.apply_eq_iff t.name
    simp only [Spec.rename, without, hname]
    split <;> rfl
  | value v =>
    have hidx : (v.rename r .root).names.idxOf? key = v.names.idxOf? key := h.idxOf?_map v.names
    simp only [Spec.rename, without, hidx]
    split
    · rfl
    · next i hi =>
      rw [← ValueSpec.rename_dropName h, ValueSpec.allBlank_rename h]
      split <;> rfl

theorem withoutAll_rename (h : r.Avoids key) (constants : Bool) (specs : List Spec) :
    withoutAll key constants (specs.map (Spec.rename r .root)) =
      (withoutAll key constants specs).map (Spec.rename r .root) := by
  induction specs with
  | nil => rfl
  | cons s ss ih =>
    rw [List.map_cons, withoutAll, withoutAll, ih, isPinned_rename, List.isEmpty_map,
      without_rename h, List.map_append]
    cases s.without key (s.isPinned constants ss.isEmpty) <;> rfl

theorem isBlankValue_rename (h : r.Avoids key) (s : Spec) :
    (s.rename r .root).isBlankValue = s.isBlankValue := by
  cases s with
  | imported spec => rfl
  | type t => rfl
  | value v => exact ValueSpec.allBlank_rename h v

end Spec

theorem DeclGroup.without_rename {r : Renaming} {key : String} (h : r.Avoids key) (g : DeclGroup) :
    (g.rename r .root).without key = (g.without key).map (DeclGroup.rename r .root) := by
  have hvalue : ∀ s : Spec, (s.rename r .root).isValue = s.isValue := by
    intro s
    cases s <;> rfl
  simp only [DeclGroup.without, DeclGroup.rename, Spec.withoutAll_rename h, List.isEmpty_map,
    List.any_map, List.all_map, Function.comp_def, hvalue, Spec.declares_rename h,
    Spec.isBlankValue_rename h]
  split <;> rfl

theorem Head.key?_func_eq_some {name key : String} :
    (Head.func name).key? = some key ↔ name = key ∧ key ≠ "_" ∧ key ≠ "init" := by
  simp only [Head.key?, isBlank, Option.ite_none_left_eq_some, Bool.or_eq_true, beq_iff_eq, not_or,
    Option.some.injEq]
  constructor
  · rintro ⟨⟨hblank, hinit⟩, rfl⟩
    exact ⟨rfl, hblank, hinit⟩
  · rintro ⟨rfl, hblank, hinit⟩
    exact ⟨⟨hblank, hinit⟩, rfl⟩

theorem FuncDecl.key?_rename_eq_iff {r : Renaming} {key : String} (h : r.Avoids key)
    (f : FuncDecl) : (f.rename r .root).key? = some key ↔ f.key? = some key := by
  rw [← FuncDecl.key?_head, ← FuncDecl.key?_head]
  have hrenames := f.renames_head r
  generalize f.head = b at hrenames ⊢
  generalize (f.rename r .root).head = c at hrenames ⊢
  cases hrenames with
  | func name => rw [Head.key?_func_eq_some, Head.key?_func_eq_some, h.apply_eq_iff]
  | type name isStruct => simp only [Head.key?, h.isBlank_apply]; split <;> simp [h.apply_eq_iff]
  | value name => simp only [Head.key?, h.isBlank_apply]; split <;> simp [h.apply_eq_iff]
  | method recv name sc =>
    constructor
    · exact fun hkey => absurd (Head.dotted_of_isMethod hkey rfl) h.undotted
    · exact fun hkey => absurd (Head.dotted_of_isMethod hkey rfl) h.undotted

namespace Decl

theorem without_rename {r : Renaming} {key : String} (h : r.Avoids key) (d : Decl) :
    (d.rename r).without key = (d.without key).map (Decl.rename r) := by
  cases d with
  | bad node => rfl
  | func f =>
    simp only [Decl.rename, without, FuncDecl.key?_rename_eq_iff h]
    split <;> rfl
  | group g =>
    simp only [Decl.rename, without]
    have htok : (g.rename r .root).tok = g.tok := rfl
    rw [htok, DeclGroup.without_rename h]
    split
    · rfl
    · simp [Option.map_map, Function.comp_def, Decl.rename]

theorem remove_renameAll {r : Renaming} {key : String} (h : r.Avoids key) (decls : List Decl) :
    remove key (renameAll r decls) = renameAll r (remove key decls) := by
  simp only [remove, renameAll, List.filterMap_map, List.map_filterMap]
  congr 1
  funext d
  exact without_rename h d

end Decl

/-! ## New names for methods -/

/-- Whether a method is one of several, given by receiver and name. -/
def FuncDecl.isAmong (methods : List (String × String)) (f : FuncDecl) : Bool :=
  match f.receiverName? with
  | some recv => methods.contains (recv, f.name)
  | none => false

/-- The tag appended to the names of some methods. -/
def Decl.tagMethod (tag : String) (methods : List (String × String)) : Decl → Decl
  | .func f => if f.isAmong methods then .func { f with name := f.name ++ tag } else .func f
  | d => d

def Decl.tagMethods (tag : String) (methods : List (String × String)) (decls : List Decl) :
    List Decl :=
  decls.map (Decl.tagMethod tag methods)

namespace FuncDecl

variable {f : FuncDecl} {methods : List (String × String)}

theorem isAmong_iff : f.isAmong methods = true ↔
    ∃ recv, f.receiverName? = some recv ∧ (recv, f.name) ∈ methods := by
  unfold isAmong
  cases f.receiverName? <;> simp

theorem recv_isSome_of_receiverName? {recv : String} (h : f.receiverName? = some recv) :
    f.recv.isSome = true := by
  unfold receiverName? at h
  cases hrecv : f.recv with
  | none => simp [hrecv] at h
  | some fields => rfl

theorem key?_of_receiverName? {recv : String} (h : f.receiverName? = some recv) :
    f.key? = if isBlank f.name then none else some (recv ++ "." ++ f.name) := by
  have hsome := recv_isSome_of_receiverName? h
  rw [← key?_head, FuncDecl.head, if_pos hsome, h]
  rfl

end FuncDecl

namespace Decl

variable {tag recv name key : String} {decls : List Decl}

@[simp] theorem tagMethods_nil (tag : String) (decls : List Decl) :
    tagMethods tag [] decls = decls := by
  have h : ∀ d : Decl, tagMethod tag [] d = d := by
    intro d
    cases d with
    | bad node => rfl
    | group g => rfl
    | func f =>
      have hf : f.isAmong [] = false := by
        unfold FuncDecl.isAmong
        cases f.receiverName? <;> rfl
      simp [tagMethod, hf]
  exact (List.map_congr_left fun d _ => h d).trans (List.map_id decls)

theorem without_tagMethod (hold : key ≠ recv ++ "." ++ name)
    (hnew : key ≠ recv ++ "." ++ (name ++ tag)) (d : Decl) :
    (d.tagMethod tag [(recv, name)]).without key =
      (d.without key).map (tagMethod tag [(recv, name)]) := by
  cases d with
  | bad node => rfl
  | group g =>
    simp only [tagMethod, without]
    split
    · rfl
    · cases g.without key <;> rfl
  | func f =>
    simp only [tagMethod]
    split
    · next hf =>
      obtain ⟨r, hr, hmem⟩ := FuncDecl.isAmong_iff.1 hf
      obtain ⟨rfl, hname⟩ : r = recv ∧ f.name = name := by simpa using hmem
      have hkey : f.key? ≠ some key := by
        rw [FuncDecl.key?_of_receiverName? hr, hname]
        simp [Ne.symm hold]
      have hkey' : ({ f with name := f.name ++ tag } : FuncDecl).key? ≠ some key := by
        rw [FuncDecl.key?_of_receiverName? (f := { f with name := f.name ++ tag }) hr, hname]
        simp [Ne.symm hnew]
      simp [without, hkey, hkey', tagMethod, hf]
    · next hf =>
      simp only [without]
      split
      · rfl
      · simp [tagMethod, hf]

theorem remove_tagMethods (hold : key ≠ recv ++ "." ++ name)
    (hnew : key ≠ recv ++ "." ++ (name ++ tag)) (decls : List Decl) :
    remove key (tagMethods tag [(recv, name)] decls) =
      tagMethods tag [(recv, name)] (remove key decls) := by
  simp only [remove, tagMethods, List.filterMap_map, List.map_filterMap]
  congr 1
  funext d
  exact without_tagMethod hold hnew d

/-- One method more. The methods before get the tag once only, since the last name does not end with
it. -/
theorem tagMethods_concat (hname : ¬EndsWith tag name) (methods : List (String × String))
    (decls : List Decl) :
    tagMethods tag (methods ++ [(recv, name)]) decls =
      tagMethods tag [(recv, name)] (tagMethods tag methods decls) := by
  rw [tagMethods, tagMethods, tagMethods, List.map_map]
  refine List.map_congr_left fun d _ => ?_
  cases d with
  | bad node => rfl
  | group g => rfl
  | func f =>
    simp only [tagMethod, Function.comp_apply]
    by_cases hf : f.isAmong methods = true
    · have hf' : f.isAmong (methods ++ [(recv, name)]) = true := by
        obtain ⟨r, hr, hmem⟩ := FuncDecl.isAmong_iff.1 hf
        exact FuncDecl.isAmong_iff.2 ⟨r, hr, List.mem_append_left _ hmem⟩
      have hlast :
          ({ f with name := f.name ++ tag } : FuncDecl).isAmong [(recv, name)] = false := by
        by_contra hlast
        obtain ⟨r, -, hmem⟩ := FuncDecl.isAmong_iff.1 (by simpa using hlast)
        have heq : f.name ++ tag = name := by simpa using (show _ ∧ _ by simpa using hmem).2
        exact hname (heq ▸ endsWith_append tag f.name)
      rw [if_pos hf', if_pos hf]
      simp [hlast]
    · have hiff : f.isAmong (methods ++ [(recv, name)]) = f.isAmong [(recv, name)] := by
        rw [Bool.eq_iff_iff, FuncDecl.isAmong_iff, FuncDecl.isAmong_iff]
        constructor
        · rintro ⟨r, hr, hmem⟩
          rcases List.mem_append.1 hmem with hmem | hmem
          · exact absurd (FuncDecl.isAmong_iff.2 ⟨r, hr, hmem⟩) hf
          · exact ⟨r, hr, hmem⟩
        · rintro ⟨r, hr, hmem⟩
          exact ⟨r, hr, List.mem_append_right _ hmem⟩
      rw [hiff, if_neg hf]

/-- A method that is the only one of its receiver and name is tagged at its place. -/
theorem tagMethods_eq_set {i : Nat} {f : FuncDecl} (hi : decls[i]? = some (.func f))
    (hrecv : f.receiverName? = some recv)
    (hunique : ∀ before after, headsAll decls = before ++ f.head :: after →
      f.head ∉ before ++ after) :
    tagMethods tag [(recv, f.name)] decls =
      decls.set i (.func { f with name := f.name ++ tag }) := by
  obtain ⟨hlt, hget⟩ := List.getElem?_eq_some_iff.1 hi
  have hsplit : decls = decls.take i ++ .func f :: decls.drop (i + 1) := by
    rw [← hget, ← List.drop_eq_getElem_cons hlt, List.take_append_drop]
  have hhead : headsAll decls =
      headsAll (decls.take i) ++ f.head :: headsAll (decls.drop (i + 1)) := by
    conv_lhs => rw [hsplit]
    simp [heads]
  have hother : ∀ ds : List Decl, f.head ∉ headsAll ds →
      ds.map (tagMethod tag [(recv, f.name)]) = ds := by
    intro ds hds
    refine (List.map_congr_left fun d hd => ?_).trans (List.map_id ds)
    cases d with
    | bad node => rfl
    | group g => rfl
    | func g =>
      have hg : g.isAmong [(recv, f.name)] = false := by
        by_contra hg
        obtain ⟨r, hr, hmem⟩ := FuncDecl.isAmong_iff.1 (by simpa using hg)
        obtain ⟨rfl, hname⟩ : r = recv ∧ g.name = f.name := by simpa using hmem
        refine hds (List.mem_flatMap.2 ⟨.func g, hd, ?_⟩)
        simp [heads, FuncDecl.head, FuncDecl.recv_isSome_of_receiverName? hr,
          FuncDecl.recv_isSome_of_receiverName? hrecv, hr, hrecv, hname]
      simp [tagMethod, hg]
  have hnot := hunique _ _ hhead
  rw [List.mem_append, not_or] at hnot
  have hf : f.isAmong [(recv, f.name)] = true := FuncDecl.isAmong_iff.2 ⟨recv, hrecv, by simp⟩
  rw [List.set_eq_take_append_cons_drop, if_pos hlt, tagMethods]
  conv_lhs => rw [hsplit]
  rw [List.map_append, List.map_cons, hother _ hnot.1, hother _ hnot.2]
  simp [tagMethod, hf]

/-! ## References -/

theorem free_tagMethod (tag : String) (methods : List (String × String)) (d : Decl) :
    (d.tagMethod tag methods).free = d.free := by
  cases d with
  | bad node => rfl
  | group g => rfl
  | func f =>
    simp only [tagMethod]
    split
    · next hf =>
      obtain ⟨recv, hrecv, -⟩ := FuncDecl.isAmong_iff.1 hf
      have hsome := FuncDecl.recv_isSome_of_receiverName? hrecv
      simp only [Decl.free, FuncDecl.free, hsome, if_true]
      rfl
    · rfl

theorem freeAll_tagMethods (tag : String) (methods : List (String × String)) (decls : List Decl) :
    freeAll (tagMethods tag methods decls) = freeAll decls := by
  rw [freeAll, tagMethods, List.flatMap_map, freeAll]
  congr 1
  funext d
  exact free_tagMethod tag methods d

end Decl

theorem Expr.freeAll_eq_flatMap (sc : Scope) (xs : List Expr) :
    Expr.freeAll sc xs = xs.flatMap (Expr.free sc) := by
  induction xs with
  | nil => rw [Expr.freeAll, List.flatMap_nil]
  | cons x xs ih => rw [Expr.freeAll, List.flatMap_cons, ih]

theorem ValueSpec.mem_free_dropName {v : ValueSpec} {i : Nat} {pinned : Bool} {name : String}
    (h : name ∈ (v.dropName i pinned).free .root) : name ∈ v.free .root ∨ name = "_" := by
  simp only [ValueSpec.free, Expr.freeAll_eq_flatMap, List.mem_append, List.mem_flatMap] at h ⊢
  unfold dropName at h
  split at h
  · refine .inl ?_
    rcases h with (⟨n, hn, hname⟩ | hty) | ⟨x, hx, hname⟩
    · exact .inl (.inl ⟨n, List.mem_of_mem_eraseIdx hn, hname⟩)
    · exact .inl (.inr hty)
    · refine .inr ⟨x, ?_, hname⟩
      dsimp only at hx
      split at hx
      · exact List.mem_of_mem_eraseIdx hx
      · exact hx
  · rcases h with (⟨n, hn, hname⟩ | hty) | hvalues
    · rcases List.mem_or_eq_of_mem_set hn with hn | rfl
      · exact .inl (.inl (.inl ⟨n, hn, hname⟩))
      · exact .inr (by simpa [Scope.reference] using hname)
    · exact .inl (.inl (.inr hty))
    · exact .inl (.inr hvalues)

theorem Spec.mem_free_without {s s' : Spec} {key : String} {pinned : Bool} {name : String}
    (hs' : s.without key pinned = some s') (h : name ∈ s'.free .root) :
    name ∈ s.free .root ∨ name = "_" := by
  cases s with
  | imported spec =>
    cases hs'
    exact .inl h
  | type t =>
    simp only [without, Option.ite_none_left_eq_some, Option.some.injEq] at hs'
    exact .inl (hs'.2 ▸ h)
  | value v =>
    simp only [without] at hs'
    split at hs'
    · cases hs'
      exact .inl h
    · split at hs'
      · cases hs'
        exact ValueSpec.mem_free_dropName h
      · simp at hs'

theorem Spec.mem_free_withoutAll {specs : List Spec} {key : String} {constants : Bool}
    {name : String} (h : name ∈ (withoutAll key constants specs).flatMap (Spec.free .root)) :
    name ∈ specs.flatMap (Spec.free .root) ∨ name = "_" := by
  induction specs with
  | nil => simp [withoutAll] at h
  | cons s ss ih =>
    rw [withoutAll, List.flatMap_append, List.mem_append] at h
    rw [List.flatMap_cons, List.mem_append]
    rcases h with h | h
    · obtain ⟨s', hs', hname⟩ := List.mem_flatMap.1 h
      exact (mem_free_without (by simpa using hs') hname).imp_left .inl
    · exact (ih h).imp_left .inr

/-- Removal adds no references, except to the blank name. -/
theorem Decl.mem_freeAll_remove {key name : String} {decls : List Decl}
    (h : name ∈ freeAll (remove key decls)) : name ∈ freeAll decls ∨ name = "_" := by
  obtain ⟨d', hd', hname⟩ := List.mem_flatMap.1 h
  obtain ⟨d, hd, hwithout⟩ := List.mem_filterMap.1 hd'
  have hfree : name ∈ d.free ∨ name = "_" := by
    cases d with
    | bad node =>
      cases hwithout
      exact .inl hname
    | func f =>
      simp only [without, Option.ite_none_left_eq_some, Option.some.injEq] at hwithout
      exact .inl (hwithout.2 ▸ hname)
    | group g =>
      simp only [without] at hwithout
      split at hwithout
      · cases hwithout
        exact .inl hname
      · obtain ⟨g', hg', rfl⟩ := Option.map_eq_some_iff.1 hwithout
        simp only [DeclGroup.without, Option.ite_none_left_eq_some, Option.some.injEq] at hg'
        rw [← hg'.2] at hname
        exact Spec.mem_free_withoutAll hname
  exact hfree.imp_left fun hfree => List.mem_flatMap.2 ⟨d, hd, hfree⟩

end GoWeave
