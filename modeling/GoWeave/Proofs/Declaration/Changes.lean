import GoWeave.Declaration.Removal
import GoWeave.Proofs.Declaration.Heads
import GoWeave.Proofs.Scope.Declarations
import Mathlib.Data.List.Forall2

/-!
# Changes of heads

What renaming, removal and a new name for a method do to the heads of a list of declarations.
Renaming acts on the heads one by one. Removing a key takes out, or turns blank, only heads of that
key and heads without any, and it takes out every head of a key that is borne only once.
-/
namespace GoWeave

/-! ## Renaming -/

theorem Expr.isStructType_rename (r : Renaming) (sc : Scope) (x : Expr) :
    (x.rename r sc).isStructType = x.isStructType := by
  cases x <;> simp [Expr.rename, Expr.isStructType]

/-- What a renaming can do to a head. The receiver of a method stays as it is if the method binds
its name. -/
inductive Head.Renames (r : Renaming) : Head → Head → Prop
  | type (name : String) (isStruct : Bool) :
    Renames r (type name isStruct) (type (r.apply .root name) isStruct)
  | value (name : String) : Renames r (value name) (value (r.apply .root name))
  | func (name : String) : Renames r (func name) (func (r.apply .root name))
  | method (recv : Option String) (name : String) (sc : Scope) :
    Renames r (method recv name) (method (recv.map (r.apply sc)) name)

theorem FuncDecl.renames_head (r : Renaming) (f : FuncDecl) :
    f.head.Renames r (f.rename r .root).head := by
  have hsome : (f.rename r .root).recv.isSome = f.recv.isSome := by
    simp only [FuncDecl.rename]
    cases f.recv <;> rfl
  unfold FuncDecl.head
  rw [hsome, receiverName?_rename]
  cases hrecv : f.recv.isSome with
  | false => simpa [FuncDecl.rename, hrecv] using Head.Renames.func f.name
  | true => simpa [FuncDecl.rename, hrecv] using Head.Renames.method f.receiverName? f.name _

theorem Spec.renames_heads (r : Renaming) (s : Spec) :
    List.Forall₂ (Head.Renames r) s.heads (s.rename r .root).heads := by
  cases s with
  | imported spec => exact .nil
  | type t =>
    refine .cons ?_ .nil
    simp only [TypeSpec.rename, Expr.isStructType_rename]
    exact .type t.name t.ty.isStructType
  | value v =>
    simp only [heads, Spec.rename, ValueSpec.rename, List.map_map, List.forall₂_map_left_iff,
      List.forall₂_map_right_iff]
    exact List.forall₂_same.2 fun name _ => .value name

namespace Head

variable {r : Renaming} {hs hs' : List Head}

theorem exists_renames_of_mem (h : List.Forall₂ (Renames r) hs hs') {g : Head} (hg : g ∈ hs') :
    ∃ b ∈ hs, Renames r b g := by
  induction h with
  | nil => simp at hg
  | @cons b c hs hs' hbc _ ih =>
    rcases List.mem_cons.1 hg with rfl | hg
    · exact ⟨b, List.mem_cons_self, hbc⟩
    · obtain ⟨b', hb', hr⟩ := ih hg
      exact ⟨b', List.mem_cons_of_mem b hb', hr⟩

theorem mem_of_renames (h : List.Forall₂ (Renames r) hs hs') {g : Head} (hg : g ∈ hs) :
    ∃ c ∈ hs', Renames r g c := by
  induction h with
  | nil => simp at hg
  | @cons b c hs hs' hbc _ ih =>
    rcases List.mem_cons.1 hg with rfl | hg
    · exact ⟨c, List.mem_cons_self, hbc⟩
    · obtain ⟨c', hc', hr⟩ := ih hg
      exact ⟨c', List.mem_cons_of_mem c hc', hr⟩

theorem Renames.isMethod_eq {b c : Head} (h : Renames r b c) : c.isMethod = b.isMethod := by
  cases h <;> rfl

theorem Renames.plain?_eq {b c : Head} (h : Renames r b c) :
    c.plain? = b.plain?.map (r.apply .root) := by
  cases h <;> rfl

/-- A head that is no method and has another name stays as it is. -/
theorem Renames.eq_of_plain? {b c : Head} (h : Renames r b c) {name : String}
    (hname : b.plain? = some name) (hne : name ≠ r.old) : c = b := by
  have happly : r.apply .root name = name := by rw [Renaming.apply_root, if_neg hne]
  cases h <;> simp_all [plain?]

/-- A key that is borne first by a type, value or function still is under a renaming, unless the
renaming makes a method bear it. -/
theorem first?_plain_of_renames {key : String} (h : List.Forall₂ (Renames r) hs hs')
    (hne : key ≠ r.old)
    (hmethod : ∀ b c, Renames r b c → c.isMethod = true → c.key? = some key → b.key? = some key)
    (hplain : ∀ b, first? key hs = some b → b.isMethod = false) :
    ∀ c, first? key hs' = some c → c.isMethod = false := by
  induction h with
  | nil => exact hplain
  | @cons b c hs hs' hbc _ ih =>
    intro g hg
    rw [first?_cons] at hg
    simp only [first?_cons] at hplain
    split at hg
    · next hc =>
      cases hg
      by_contra hm
      have hm : c.isMethod = true := by simpa using hm
      have hb := hmethod b c hbc hm hc
      have hbplain := hplain b (by rw [if_pos hb])
      rw [← hbc.isMethod_eq, hm] at hbplain
      simp at hbplain
    · next hc =>
      have hb : b.key? ≠ some key := by
        intro hb
        have hbplain := hplain b (by rw [if_pos hb])
        rw [hbc.eq_of_plain? (plain?_of_key? hb hbplain).1 hne] at hc
        exact hc hb
      refine ih (fun b' hb' => hplain b' ?_) g hg
      rw [if_neg hb]
      exact hb'

end Head

namespace Decl

theorem renames_heads (r : Renaming) (d : Decl) :
    List.Forall₂ (Head.Renames r) d.heads (d.rename r).heads := by
  cases d with
  | bad node => exact .nil
  | func f => exact .cons (f.renames_head r) .nil
  | group g =>
    simp only [heads, Decl.rename, DeclGroup.rename]
    split
    · exact .nil
    · rw [List.flatMap_map]
      induction g.specs with
      | nil => exact .nil
      | cons s ss ih => exact List.rel_append (s.renames_heads r) ih

theorem renames_headsAll (r : Renaming) (decls : List Decl) :
    List.Forall₂ (Head.Renames r) (headsAll decls) (headsAll (renameAll r decls)) := by
  induction decls with
  | nil => exact .nil
  | cons d ds ih => exact List.rel_append (d.renames_heads r) ih

theorem plain?_headsAll_renameAll (r : Renaming) (decls : List Decl) :
    (headsAll (renameAll r decls)).filterMap Head.plain? =
      ((headsAll decls).filterMap Head.plain?).map (r.apply .root) := by
  have h := renames_headsAll r decls
  generalize headsAll decls = hs at h ⊢
  generalize headsAll (renameAll r decls) = hs' at h ⊢
  induction h with
  | nil => rfl
  | cons hr _ ih =>
    rw [List.filterMap_cons, List.filterMap_cons, hr.plain?_eq, ih]
    cases Head.plain? _ <;> rfl

end Decl

/-! ## Removal -/

/-- What removing a key can do to a list of heads. -/
inductive Head.Pruned (key : String) : List Head → List Head → Prop
  | nil : Pruned key [] []
  | keep (h : Head) {hs hs' : List Head} (tail : Pruned key hs hs') :
    Pruned key (h :: hs) (h :: hs')
  | drop {h : Head} (hkey : h.key? = some key ∨ h.key? = none) {hs hs' : List Head}
      (tail : Pruned key hs hs') : Pruned key (h :: hs) hs'
  | blank {hs hs' : List Head} (tail : Pruned key hs hs') :
    Pruned key (value key :: hs) (value "_" :: hs')

namespace Head.Pruned

variable {key : String} {hs hs' : List Head}

theorem refl (key : String) (hs : List Head) : Pruned key hs hs := by
  induction hs with
  | nil => exact .nil
  | cons h hs ih => exact .keep h ih

theorem append {gs gs' : List Head} (h : Pruned key gs gs') (h' : Pruned key hs hs') :
    Pruned key (gs ++ hs) (gs' ++ hs') := by
  induction h with
  | nil => exact h'
  | keep g _ ih => exact .keep g ih
  | drop hkey _ ih => exact .drop hkey ih
  | blank _ ih => exact .blank ih

/-- If only heads without a key are left, all may go. -/
theorem dropAll (h : Pruned key hs hs') (hnone : ∀ g ∈ hs', g.key? = none) : Pruned key hs [] := by
  induction h with
  | nil => exact .nil
  | keep g _ ih =>
    exact .drop (.inr (hnone g List.mem_cons_self)) (ih fun g' hg' => hnone g' (.tail _ hg'))
  | drop hkey _ ih => exact .drop hkey (ih hnone)
  | blank _ ih =>
    refine .drop ?_ (ih fun g' hg' => hnone g' (.tail _ hg'))
    by_cases hb : isBlank key <;> simp [key?, hb]

theorem mem_or_blank (h : Pruned key hs hs') {g : Head} (hg : g ∈ hs') :
    g ∈ hs ∨ g = value "_" := by
  induction h with
  | nil => exact .inl hg
  | keep b _ ih =>
    rcases List.mem_cons.1 hg with rfl | hg
    · exact .inl List.mem_cons_self
    · exact (ih hg).imp_left (List.mem_cons_of_mem b)
  | drop _ _ ih => exact (ih hg).imp_left (List.mem_cons_of_mem _)
  | blank _ ih =>
    rcases List.mem_cons.1 hg with rfl | hg
    · exact .inr rfl
    · exact (ih hg).imp_left (List.mem_cons_of_mem _)

/-- Heads of other keys stay. -/
theorem mem_of_ne (h : Pruned key hs hs') {g : Head} {k : String} (hk : g.key? = some k)
    (hne : k ≠ key) (hg : g ∈ hs) : g ∈ hs' := by
  induction h with
  | nil => exact hg
  | keep b _ ih =>
    rcases List.mem_cons.1 hg with rfl | hg
    · exact List.mem_cons_self
    · exact List.mem_cons_of_mem b (ih hg)
  | drop hkey _ ih =>
    rcases List.mem_cons.1 hg with rfl | hg
    · rw [hk] at hkey
      simp [hne] at hkey
    · exact ih hg
  | blank _ ih =>
    rcases List.mem_cons.1 hg with rfl | hg
    · by_cases hb : isBlank key <;> simp_all [key?]
    · exact List.mem_cons_of_mem _ (ih hg)

theorem first?_eq (h : Pruned key hs hs') {k : String} (hne : k ≠ key) :
    first? k hs' = first? k hs := by
  induction h with
  | nil => rfl
  | keep b _ ih => rw [first?_cons, first?_cons, ih]
  | drop hkey _ ih =>
    rw [first?_cons, if_neg, ih]
    rcases hkey with hkey | hkey
    · rw [hkey]
      simpa using Ne.symm hne
    · simp [hkey]
  | blank _ ih =>
    have hkey : (value key).key? ≠ some k := by
      by_cases hb : isBlank key <;> simp [key?, hb, Ne.symm hne]
    rw [first?_cons, first?_cons, if_neg (by simp [key?, isBlank]), if_neg hkey, ih]

end Head.Pruned

/-- Only the first head that bears a key counts, so others may change. -/
theorem Head.first?_replace {key : String} {b c : Head} (hb : b.key? ≠ some key)
    (hc : c.key? ≠ some key) (before after : List Head) :
    first? key (before ++ b :: after) = first? key (before ++ c :: after) := by
  induction before with
  | nil => simp only [List.nil_append, first?_cons, if_neg hb, if_neg hc]
  | cons g before ih => simp only [List.cons_append, first?_cons, ih]

/-- A method in place of a head that does not bear a key is no plain function of that key. -/
theorem Head.first?_replace_method {key name : String} {b c : Head} (hb : b.key? ≠ some key)
    (hc : c.isMethod = true) {before after : List Head}
    (h : first? key (before ++ b :: after) ≠ some (.func name)) :
    first? key (before ++ c :: after) ≠ some (.func name) := by
  induction before with
  | nil =>
    rw [List.nil_append, first?_cons, if_neg hb] at h
    rw [List.nil_append, first?_cons]
    split
    · intro heq
      rw [Option.some.inj heq] at hc
      simp [isMethod] at hc
    · exact h
  | cons g before ih =>
    rw [List.cons_append, first?_cons] at h ⊢
    split
    · next hg => rwa [if_pos hg] at h
    · next hg =>
      rw [if_neg hg] at h
      exact ih h

theorem ValueSpec.key?_of_allBlank {v : ValueSpec} (hv : v.allBlank = true) :
    ∀ h ∈ v.names.map Head.value, h.key? = none := by
  intro h hh
  obtain ⟨name, hname, rfl⟩ := List.mem_map.1 hh
  simp [Head.key?, List.all_eq_true.1 hv name hname]

theorem ValueSpec.pruned_dropName {v : ValueSpec} {key : String} {i : Nat}
    (hkey : isBlank key = false) (hi : v.names.idxOf? key = some i) (pinned : Bool) :
    Head.Pruned key (v.names.map .value) ((v.dropName i pinned).names.map .value) := by
  obtain ⟨before, after, hnames, rfl, -⟩ := List.split_of_idxOf? hi
  unfold dropName
  split
  · simp only [hnames, List.eraseIdx_append_of_length_le (Nat.le_refl _), Nat.sub_self,
      List.eraseIdx_cons_zero, List.map_append, List.map_cons]
    exact (Head.Pruned.refl key _).append (.drop (.inl (by simp [Head.key?, hkey])) (.refl key _))
  · simp only [hnames, List.set_append_right _ _ (Nat.le_refl _), Nat.sub_self, List.set_cons_zero,
      List.map_append, List.map_cons]
    exact (Head.Pruned.refl key _).append (.blank (.refl key _))

theorem Spec.pruned_without {key : String} (hkey : isBlank key = false) (pinned : Bool) (s : Spec) :
    Head.Pruned key s.heads ((s.without key pinned).toList.flatMap Spec.heads) := by
  cases s with
  | imported spec => exact .nil
  | type t =>
    simp only [without]
    split
    · next h => exact .drop (.inl (by simp [Head.key?, h, hkey])) .nil
    · exact .keep _ .nil
  | value v =>
    simp only [without]
    split
    · simpa [heads] using Head.Pruned.refl key _
    · next i hi =>
      have h := ValueSpec.pruned_dropName hkey hi pinned
      split
      · simpa [heads] using h
      · next hblank =>
        refine h.dropAll (ValueSpec.key?_of_allBlank ?_)
        simp only [Bool.or_eq_true, not_or] at hblank
        simpa using hblank.2

theorem Spec.pruned_withoutAll {key : String} (hkey : isBlank key = false) (constants : Bool)
    (specs : List Spec) :
    Head.Pruned key (specs.flatMap Spec.heads)
      ((withoutAll key constants specs).flatMap Spec.heads) := by
  induction specs with
  | nil => exact .nil
  | cons s ss ih =>
    rw [withoutAll, List.flatMap_cons, List.flatMap_append]
    exact (pruned_without hkey _ s).append ih

namespace Decl

theorem pruned_without {key : String} (hkey : isBlank key = false) (d : Decl) :
    Head.Pruned key d.heads (headsAll (d.without key).toList) := by
  cases d with
  | bad node => exact .nil
  | func f =>
    simp only [without]
    split
    · next h => exact .drop (.inl (by simpa using h)) .nil
    · exact .keep _ .nil
  | group g =>
    simp only [without]
    split
    · simpa [headsAll] using Head.Pruned.refl key _
    · next htok =>
      have h := Spec.pruned_withoutAll hkey (g.tok == .const) g.specs
      simp only [heads, if_neg htok, DeclGroup.without]
      split
      · next hgone =>
        refine h.dropAll fun b hb => ?_
        obtain ⟨s, hs, hb⟩ := List.mem_flatMap.1 hb
        simp only [Bool.and_eq_true, Bool.or_eq_true, List.isEmpty_iff, List.all_eq_true] at hgone
        rcases hgone.2 with hempty | ⟨-, hblank⟩
        · rw [hempty] at hs
          simp at hs
        · have hblank := hblank s hs
          cases s with
          | imported spec => simp [Spec.isBlankValue] at hblank
          | type t => simp [Spec.isBlankValue] at hblank
          | value v => exact ValueSpec.key?_of_allBlank hblank b hb
      · simpa [headsAll, heads, htok] using h

theorem remove_cons (key : String) (d : Decl) (ds : List Decl) :
    remove key (d :: ds) = (d.without key).toList ++ remove key ds := by
  rw [remove, List.filterMap_cons]
  cases d.without key <;> rfl

theorem pruned_remove {key : String} (hkey : isBlank key = false) (decls : List Decl) :
    Head.Pruned key (headsAll decls) (headsAll (remove key decls)) := by
  induction decls with
  | nil => exact .nil
  | cons d ds ih =>
    rw [remove_cons, headsAll_append]
    exact (pruned_without hkey d).append ih

end Decl

/-! ### A key borne once is gone -/

theorem ValueSpec.not_mem_dropName {v : ValueSpec} {key : String} {i : Nat}
    (hkey : isBlank key = false) (hi : v.names.idxOf? key = some i)
    (hcount : v.names.count key ≤ 1) (pinned : Bool) : key ∉ (v.dropName i pinned).names := by
  obtain ⟨before, after, hnames, rfl, hbefore⟩ := List.split_of_idxOf? hi
  have hafter : key ∉ after := by
    rw [hnames, List.count_append, List.count_cons_self] at hcount
    exact List.count_eq_zero.1 (by omega)
  have hblank : key ≠ "_" := by simpa [isBlank] using hkey
  unfold dropName
  split
  · simp [hnames, List.eraseIdx_append_of_length_le, hbefore, hafter]
  · simp [hnames, List.set_append_right, hbefore, hafter, hblank]

theorem Head.count_values {key : String} (hkey : isBlank key = false) (names : List String) :
    ((names.map Head.value).filterMap key?).count key = names.count key := by
  induction names with
  | nil => rfl
  | cons name names ih =>
    rw [List.map_cons, List.filterMap_cons, List.count_cons, ← ih]
    by_cases hb : isBlank name
    · have hne : name ≠ key := by
        rintro rfl
        simp [hb] at hkey
      simp [key?, hb, hne]
    · simp [key?, hb, List.count_cons]

theorem Spec.not_mem_without {key : String} (hkey : isBlank key = false) (pinned : Bool) {s : Spec}
    (hcount : (s.heads.filterMap Head.key?).count key ≤ 1) :
    key ∉ ((s.without key pinned).toList.flatMap Spec.heads).filterMap Head.key? := by
  cases s with
  | imported spec => simp [without, heads]
  | type t =>
    simp only [without]
    split
    · simp
    · next hne => by_cases hb : isBlank t.name <;> simp [heads, Head.key?, hb, Ne.symm hne]
  | value v =>
    rw [heads, Head.count_values hkey] at hcount
    have hvalues : ∀ names : List String, key ∉ names →
        key ∉ (names.map Head.value).filterMap Head.key? := by
      intro names hnames
      rw [← List.count_eq_zero, Head.count_values hkey]
      exact List.count_eq_zero.2 hnames
    simp only [without]
    split
    · next hnone =>
      simp only [Option.toList_some, List.flatMap_singleton, heads]
      exact hvalues _ (List.idxOf?_eq_none_iff.1 hnone)
    · next i hi =>
      split
      · simp only [Option.toList_some, List.flatMap_singleton, heads]
        exact hvalues _ (ValueSpec.not_mem_dropName hkey hi hcount pinned)
      · simp

theorem Spec.not_mem_withoutAll {key : String} (hkey : isBlank key = false) (constants : Bool)
    {specs : List Spec} (hcount : ∀ s ∈ specs, (s.heads.filterMap Head.key?).count key ≤ 1) :
    key ∉ ((withoutAll key constants specs).flatMap heads).filterMap Head.key? := by
  induction specs with
  | nil => simp [withoutAll]
  | cons s ss ih =>
    rw [List.forall_mem_cons] at hcount
    rw [withoutAll, List.flatMap_append, List.filterMap_append, List.mem_append, not_or]
    exact ⟨not_mem_without hkey _ hcount.1, ih hcount.2⟩

namespace Decl

/-- Whether no spec of a declaration bears a key twice. -/
def BearsOnce (key : String) : Decl → Prop
  | .group g =>
    g.tok ≠ .import_ → ∀ s ∈ g.specs, (s.heads.filterMap Head.key?).count key ≤ 1
  | _ => True

theorem bearsOnce_of_count {key : String} {decls : List Decl}
    (hcount : (keys decls).count key ≤ 1) : ∀ d ∈ decls, d.BearsOnce key := by
  intro d hd
  cases d with
  | group g =>
    intro htok s hs
    refine Nat.le_trans (List.Sublist.count_le key ?_) hcount
    rw [keys_eq]
    refine List.Sublist.filterMap Head.key? ?_
    have hheads : (Decl.group g).heads = g.specs.flatMap Spec.heads := if_neg htok
    have hspecs : s.heads.Sublist (Decl.group g).heads :=
      hheads ▸ List.sublist_flatten_of_mem (List.mem_map_of_mem hs)
    exact hspecs.trans (List.sublist_flatten_of_mem (List.mem_map_of_mem hd))
  | _ => trivial

theorem not_mem_without {key : String} (hkey : isBlank key = false) {d : Decl}
    (honce : d.BearsOnce key) : key ∉ (headsAll (d.without key).toList).filterMap Head.key? := by
  cases d with
  | bad node => simp [without, headsAll, heads]
  | func f =>
    simp only [without]
    split
    · simp [headsAll]
    · next hne =>
      cases hk : f.key? with
      | none => simp [headsAll, heads, hk]
      | some k =>
        have hne : key ≠ k := by
          rintro rfl
          exact hne hk
        simp [headsAll, heads, hk, hne]
  | group g =>
    simp only [without]
    split
    · next htok => simp [headsAll, heads, htok]
    · next htok =>
      have h := Spec.not_mem_withoutAll hkey (g.tok == .const) (honce htok)
      simp only [DeclGroup.without]
      split
      · simp [headsAll]
      · simpa [headsAll, heads, htok] using h

/-- Removing a key that no spec bears twice leaves no declaration of it. -/
theorem not_mem_keys_remove_of_bearsOnce {key : String} (hkey : isBlank key = false)
    {decls : List Decl} (honce : ∀ d ∈ decls, d.BearsOnce key) :
    key ∉ keys (remove key decls) := by
  rw [keys_eq]
  induction decls with
  | nil => simp [remove, headsAll]
  | cons d ds ih =>
    rw [List.forall_mem_cons] at honce
    rw [remove_cons, headsAll_append, List.filterMap_append, List.mem_append, not_or]
    exact ⟨not_mem_without hkey honce.1, ih honce.2⟩

/-- Removing a key that is borne at most once leaves no declaration of it. -/
theorem not_mem_keys_remove {key : String} (hkey : isBlank key = false) {decls : List Decl}
    (hcount : (keys decls).count key ≤ 1) : key ∉ keys (remove key decls) :=
  not_mem_keys_remove_of_bearsOnce hkey (bearsOnce_of_count hcount)

end Decl

/-! ## A function in place of another -/

namespace Decl

theorem split_headsAll_set {decls : List Decl} {i : Nat} {f : FuncDecl}
    (hi : decls[i]? = some (.func f)) (f' : FuncDecl) :
    ∃ before after, headsAll decls = before ++ f.head :: after ∧
      headsAll (decls.set i (.func f')) = before ++ f'.head :: after := by
  obtain ⟨hlt, hget⟩ := List.getElem?_eq_some_iff.1 hi
  refine ⟨headsAll (decls.take i), headsAll (decls.drop (i + 1)), ?_, ?_⟩
  · conv_lhs => rw [← List.take_append_drop i decls, List.drop_eq_getElem_cons hlt, hget]
    simp [heads]
  · rw [List.set_eq_take_append_cons_drop, if_pos hlt]
    simp [heads]

end Decl

/-! ## Import groups and regular groups -/

namespace Decl

theorem headsAll_withoutImports (decls : List Decl) :
    headsAll (withoutImports decls) = headsAll decls := by
  induction decls with
  | nil => rfl
  | cons d ds ih =>
    rw [withoutImports] at ih
    rw [withoutImports, List.filter_cons]
    split
    · rw [headsAll_cons, headsAll_cons, ih]
    · next himport =>
      have hheads : d.heads = [] := by
        cases d with
        | bad node => rfl
        | func f => simp [isImport] at himport
        | group g =>
          have htok : g.tok = .import_ := by simpa [isImport] using himport
          simp [heads, htok]
      rw [headsAll_cons, hheads, ih]
      rfl

theorem isImport_rename (r : Renaming) (d : Decl) : (d.rename r).isImport = d.isImport := by
  cases d <;> rfl

theorem withoutImports_renameAll (r : Renaming) (decls : List Decl) :
    withoutImports (renameAll r decls) = renameAll r (withoutImports decls) := by
  simp only [withoutImports, renameAll, List.filter_map, Function.comp_def, isImport_rename]

theorem isImport_without {d d' : Decl} {key : String} (h : d.without key = some d') :
    d'.isImport = d.isImport := by
  cases d with
  | bad node =>
    cases h
    rfl
  | func f =>
    simp only [Decl.without, Option.ite_none_left_eq_some, Option.some.injEq] at h
    rw [← h.2]
  | group g =>
    simp only [Decl.without] at h
    split at h
    · cases h
      rfl
    · obtain ⟨g', hg', rfl⟩ := Option.map_eq_some_iff.1 h
      simp only [DeclGroup.without, Option.ite_none_left_eq_some, Option.some.injEq] at hg'
      rw [← hg'.2]
      rfl

theorem Regular.rename {d : Decl} (h : d.Regular) (r : Renaming) : (d.rename r).Regular := by
  cases d <;> exact h

theorem Regular.without {d d' : Decl} (h : d.Regular) {key : String}
    (hd' : d.without key = some d') : d'.Regular := by
  cases d with
  | bad node =>
    cases hd'
    exact h
  | func f =>
    simp only [Decl.without, Option.ite_none_left_eq_some, Option.some.injEq] at hd'
    exact hd'.2 ▸ h
  | group g =>
    simp only [Decl.without] at hd'
    split at hd'
    · cases hd'
      exact h
    · obtain ⟨g', hg', rfl⟩ := Option.map_eq_some_iff.1 hd'
      simp only [DeclGroup.without, Option.ite_none_left_eq_some, Option.some.injEq] at hg'
      exact hg'.2 ▸ h

variable {decls : List Decl}

theorem regular_renameAll (h : ∀ d ∈ decls, d.Regular) (r : Renaming) :
    ∀ d ∈ renameAll r decls, d.Regular := by
  intro d hd
  obtain ⟨d₀, hd₀, rfl⟩ := List.mem_map.1 hd
  exact (h d₀ hd₀).rename r

theorem regular_withoutImports (h : ∀ d ∈ decls, d.Regular) :
    ∀ d ∈ withoutImports decls, d.Regular :=
  fun d hd => h d (List.mem_of_mem_filter hd)

theorem regular_remove (h : ∀ d ∈ decls, d.Regular) (key : String) :
    ∀ d ∈ remove key decls, d.Regular := by
  intro d hd
  obtain ⟨d₀, hd₀, hwithout⟩ := List.mem_filterMap.1 hd
  exact (h d₀ hd₀).without hwithout

theorem regular_set (h : ∀ d ∈ decls, d.Regular) (i : Nat) (f : FuncDecl) :
    ∀ d ∈ decls.set i (.func f), d.Regular := by
  intro d hd
  rcases List.mem_or_eq_of_mem_set hd with hd | rfl
  · exact h d hd
  · trivial

end Decl

end GoWeave
