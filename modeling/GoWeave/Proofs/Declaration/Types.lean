import GoWeave.Proofs.Declaration.Removal

/-!
# The type under a key

A type is found under its name if the first declaration of the name is a type, and then it is the
first type of that name. Renaming other names changes the type in place, and removing other keys
leaves it. Once a name is given up or removed no type bears it, and none does later unless a
renaming brings the name back.
-/
namespace GoWeave

/-! ## The types of a list of declarations -/

/-- The type that a spec declares. -/
def Spec.type? : Spec → Option TypeSpec
  | .type t => some t
  | _ => none

namespace Decl

def types : Decl → List TypeSpec
  | .group g => if g.tok = .import_ then [] else g.specs.filterMap Spec.type?
  | _ => []

/-- The types of a list of declarations, in source order. -/
def typesAll (decls : List Decl) : List TypeSpec :=
  decls.flatMap types

end Decl

/-- What is found under a key, against the types that may bear it: a type is the first that does,
and none does if nothing is found. -/
def Declared.Finds (key : String) (found : Option Declared) (types : List TypeSpec) : Prop :=
  (found = none → types.find? (·.name = key) = none) ∧
    ∀ spec, found = some (.type spec) → types.find? (·.name = key) = some spec

namespace Declared.Finds

variable {key : String} {found found' : Option Declared} {types types' : List TypeSpec}

theorem append (h : Finds key found types) (h' : Finds key found' types') :
    Finds key (found.or found') (types ++ types') := by
  unfold Finds
  rw [List.find?_append]
  cases found with
  | none =>
    rw [h.1 rfl]
    exact h'
  | some d =>
    refine ⟨nofun, fun spec hspec => ?_⟩
    rw [h.2 spec hspec]
    rfl

theorem nil (key : String) : Finds key none [] :=
  ⟨fun _ => rfl, nofun⟩

end Declared.Finds

theorem Spec.finds (tok : Token) (key : String) (before : Option Expr × List Expr) (index : Nat)
    (s : Spec) : Declared.Finds key (s.declaredIn? tok before index key) s.type?.toList := by
  cases s with
  | imported spec => exact .nil key
  | type t =>
    by_cases hname : t.name = key <;> simp [Declared.Finds, declaredIn?, type?, hname]
  | value v =>
    refine ⟨fun _ => rfl, fun spec hspec => ?_⟩
    obtain ⟨i, -, hvalue⟩ := Option.map_eq_some_iff.1 hspec
    simp [ValueSpec.declaredAt] at hvalue

theorem Spec.finds_declaredFrom? (tok : Token) (key : String) (before : Option Expr × List Expr)
    (index : Nat) (specs : List Spec) :
    Declared.Finds key (declaredFrom? tok key before index specs) (specs.filterMap type?) := by
  induction specs generalizing before index with
  | nil => exact .nil key
  | cons s ss ih =>
    have hcons : (s :: ss).filterMap type? = s.type?.toList ++ ss.filterMap type? := by
      rw [List.filterMap_cons]
      cases s.type? <;> rfl
    rw [declaredFrom?, hcons]
    exact (s.finds tok key before index).append (ih _ _)

namespace Decl

variable {decls : List Decl} {key : String} {spec : TypeSpec}

theorem finds (key : String) (d : Decl) : Declared.Finds key (d.declaredIn? key) d.types := by
  cases d with
  | bad node => exact .nil key
  | func f =>
    simp only [declaredIn?, types]
    split
    · simp [Declared.Finds]
    · exact .nil key
  | group g =>
    simp only [declaredIn?, types]
    split
    · exact .nil key
    · exact Spec.finds_declaredFrom? g.tok key (none, []) 0 g.specs

/-- A type that is found under a key is the first of its name. -/
theorem find?_typesAll (h : declared? decls key = some (.type spec)) :
    (typesAll decls).find? (·.name = key) = some spec := by
  have hfinds : Declared.Finds key (decls.findSome? (declaredIn? key)) (typesAll decls) := by
    clear h
    induction decls with
    | nil => exact .nil key
    | cons d ds ih =>
      have hcons : (d :: ds).findSome? (declaredIn? key) =
          (d.declaredIn? key).or (ds.findSome? (declaredIn? key)) := by
        rw [List.findSome?_cons]
        cases d.declaredIn? key <;> rfl
      rw [hcons]
      exact (d.finds key).append ih
  rw [declared?_eq_findSome?] at h
  exact hfinds.2 spec h

theorem first?_of_declared? (hkey : isBlank key = false) {found : Declared}
    (h : declared? decls key = some found) :
    Head.first? key (headsAll decls) = some found.head := by
  obtain ⟨slot, hslot, hfound⟩ := Option.bind_eq_some_iff.1 h
  exact first?_of_locate? hkey hslot hfound

/-- Where the first head of a key is that of a type, a type is found. -/
theorem exists_declared?_type (hkey : isBlank key = false) {name : String} {isStruct : Bool}
    (h : Head.first? key (headsAll decls) = some (.type name isStruct)) :
    ∃ spec, declared? decls key = some (.type spec) := by
  have hrel := rel_locate? hkey decls
  rw [h] at hrel
  cases hslot : locate? decls key with
  | none =>
    rw [hslot] at hrel
    cases hrel
  | some slot =>
    rw [hslot] at hrel
    cases hrel with
    | some hshows =>
      obtain ⟨found, hfound, hhead⟩ := hshows
      have hdeclared : declared? decls key = some found := by
        rw [declared?, hslot]
        exact hfound
      cases found with
      | type spec => exact ⟨spec, hdeclared⟩
      | value tok v iota => simp [Declared.head] at hhead
      | func f =>
        rw [Declared.head, FuncDecl.head] at hhead
        split at hhead <;> simp at hhead

/-- A type under a key stays the one that is found if its head is still the first of the key. -/
theorem declared?_type_of_first? {decls' : List Decl} {spec' : TypeSpec}
    (hkey : isBlank key = false) (h : declared? decls key = some (.type spec))
    (hfirst : Head.first? key (headsAll decls') = Head.first? key (headsAll decls))
    (hfind : (typesAll decls').find? (·.name = key) = some spec') :
    declared? decls' key = some (.type spec') := by
  rw [first?_of_declared? hkey h] at hfirst
  obtain ⟨found, hfound⟩ := exists_declared?_type hkey hfirst
  obtain rfl := Option.some.inj ((find?_typesAll hfound).symm.trans hfind)
  exact hfound

end Decl

/-! ## Renaming -/

namespace Head

variable {r : Renaming} {key : String}

/-- Whether a head bears a name that is not of a method does not depend on renamings to and from
other names. -/
theorem Renames.key?_iff {b c : Head} (h : Renames r b c) (hdot : ¬Dotted key)
    (hold : key ≠ r.old) (hnew : key ≠ r.new) : c.key? = some key ↔ b.key? = some key := by
  have hplain : ∀ name : String, r.apply .root name = key ↔ name = key := by
    intro name
    rw [Renaming.apply_root]
    split
    · next heq => exact iff_of_false (Ne.symm hnew) (heq ▸ Ne.symm hold)
    · exact .rfl
  constructor
  · intro hc
    cases hm : c.isMethod with
    | true => exact absurd (dotted_of_isMethod hc hm) hdot
    | false =>
      obtain ⟨hname, -⟩ := plain?_of_key? hc hm
      rw [h.plain?_eq, Option.map_eq_some_iff] at hname
      obtain ⟨name, hname, happly⟩ := hname
      rw [(hplain name).1 happly] at hname
      rwa [← h.eq_of_plain? hname hold]
  · intro hb
    cases hm : b.isMethod with
    | true => exact absurd (dotted_of_isMethod hb hm) hdot
    | false => rwa [h.eq_of_plain? (plain?_of_key? hb hm).1 hold]

theorem first?_of_renames {hs hs' : List Head} (h : List.Forall₂ (Renames r) hs hs')
    (hdot : ¬Dotted key) (hold : key ≠ r.old) (hnew : key ≠ r.new) :
    first? key hs' = first? key hs := by
  induction h with
  | nil => rfl
  | @cons b c hs hs' hbc _ ih =>
    rw [first?_cons, first?_cons, ih]
    by_cases hb : b.key? = some key
    · have hm : b.isMethod = false := by
        by_contra hm
        exact hdot (dotted_of_isMethod hb (by simpa using hm))
      rw [hbc.eq_of_plain? (plain?_of_key? hb hm).1 hold]
    · rw [if_neg hb, if_neg fun hc => hb ((hbc.key?_iff hdot hold hnew).1 hc)]

end Head

namespace Decl

variable {decls : List Decl} {key : String} {spec : TypeSpec} {r : Renaming}

theorem typesAll_renameAll (r : Renaming) (decls : List Decl) :
    typesAll (renameAll r decls) = (typesAll decls).map (·.rename r .root) := by
  have htypes : ∀ d : Decl, (d.rename r).types = d.types.map (·.rename r .root) := by
    intro d
    cases d with
    | bad node => rfl
    | func f => rfl
    | group g =>
      simp only [types, rename, DeclGroup.rename]
      split
      · rfl
      · rw [List.filterMap_map, List.map_filterMap]
        refine List.filterMap_congr fun s _ => ?_
        cases s <;> rfl
  rw [typesAll, renameAll, List.flatMap_map, typesAll, List.map_flatMap]
  exact List.flatMap_congr fun d _ => htypes d

theorem declared?_renameAll (hkey : isBlank key = false) (hdot : ¬Dotted key) (hold : key ≠ r.old)
    (hnew : key ≠ r.new) (h : declared? decls key = some (.type spec)) :
    declared? (renameAll r decls) key = some (.type (spec.rename r .root)) := by
  refine declared?_type_of_first? hkey h
    (Head.first?_of_renames (renames_headsAll r decls) hdot hold hnew) ?_
  have hname : (fun t : TypeSpec => decide ((t.rename r .root).name = key)) =
      fun t => decide (t.name = key) := by
    funext t
    simp only [TypeSpec.rename, Renaming.apply_root]
    split
    · next heq => simp [heq, Ne.symm hold, Ne.symm hnew]
    · rfl
  rw [typesAll_renameAll, List.find?_map, Function.comp_def, hname, find?_typesAll h]
  rfl

end Decl

/-! ## Removal -/

theorem Spec.types_withoutAll (key : String) (constants : Bool) (specs : List Spec) :
    (withoutAll key constants specs).filterMap type? =
      (specs.filterMap type?).filter (·.name ≠ key) := by
  induction specs with
  | nil => rfl
  | cons s ss ih =>
    rw [withoutAll, List.filterMap_append, ih]
    cases s with
    | imported spec => rfl
    | type t => by_cases hname : t.name = key <;> simp [without, type?, hname]
    | value v =>
      have hnone : ∀ s', (Spec.value v).without key
          ((Spec.value v).isPinned constants ss.isEmpty) = some s' → s'.type? = none := by
        intro s' hs'
        rw [without] at hs'
        split at hs'
        · exact Option.some.inj hs' ▸ rfl
        · dsimp only at hs'
          split at hs'
          · exact Option.some.inj hs' ▸ rfl
          · simp at hs'
      cases hwithout : (Spec.value v).without key
          ((Spec.value v).isPinned constants ss.isEmpty) with
      | none => rfl
      | some s' =>
        rw [Option.toList_some, List.filterMap_cons, hnone s' hwithout]
        rfl

namespace Decl

variable {decls : List Decl} {key : String} {spec : TypeSpec} {r : Renaming}

theorem types_without (key : String) (d : Decl) :
    (d.without key).toList.flatMap types = d.types.filter (·.name ≠ key) := by
  cases d with
  | bad node => rfl
  | func f =>
    rw [without]
    split <;> rfl
  | group g =>
    rw [without]
    split
    · next htok => simp [types, htok]
    · next htok =>
      have hspecs := Spec.types_withoutAll key (g.tok == .const) g.specs
      simp only [types, if_neg htok, ← hspecs, DeclGroup.without]
      split
      · next hgone =>
        -- A group that goes has no types left.
        simp only [Bool.and_eq_true, Bool.or_eq_true, List.isEmpty_iff, List.all_eq_true] at hgone
        rcases hgone.2 with hempty | ⟨-, hblank⟩
        · rw [hempty]
          rfl
        · symm
          refine List.filterMap_eq_nil_iff.2 fun s hs => ?_
          have hs := hblank s hs
          cases s <;> simp_all [Spec.isBlankValue, Spec.type?]
      · simp [types, htok]

theorem typesAll_remove (key : String) (decls : List Decl) :
    typesAll (remove key decls) = (typesAll decls).filter (·.name ≠ key) := by
  induction decls with
  | nil => rfl
  | cons d ds ih =>
    unfold typesAll at ih ⊢
    rw [remove_cons, List.flatMap_append, types_without, ih, List.flatMap_cons, List.filter_append]

/-- Removing another key leaves the type that is found. -/
theorem declared?_type_remove {k : String} (hkey : isBlank key = false) (hk : isBlank k = false)
    (hne : key ≠ k) (h : declared? decls key = some (.type spec)) :
    declared? (remove k decls) key = some (.type spec) := by
  refine declared?_type_of_first? hkey h ((pruned_remove hk decls).first?_eq hne) ?_
  have hname : (fun t : TypeSpec => decide (decide (t.name ≠ k) = true ∧
      decide (t.name = key) = true)) = fun t => decide (t.name = key) := by
    funext t
    by_cases ht : t.name = key <;> simp [ht, hne]
  rw [typesAll_remove, List.find?_filter, hname, find?_typesAll h]

/-! ## Methods -/

theorem typesAll_set {i : Nat} {f : FuncDecl} (hi : decls[i]? = some (.func f)) (f' : FuncDecl) :
    typesAll (decls.set i (.func f')) = typesAll decls := by
  obtain ⟨hlt, hget⟩ := List.getElem?_eq_some_iff.1 hi
  conv_rhs => rw [← List.take_append_drop i decls, List.drop_eq_getElem_cons hlt, hget]
  rw [List.set_eq_take_append_cons_drop, if_pos hlt]
  simp [typesAll, types]

/-- Another name for a method leaves the type that is found. -/
theorem declared?_type_set {i : Nat} {f f' : FuncDecl} (hkey : isBlank key = false)
    (hdot : ¬Dotted key) (hi : decls[i]? = some (.func f)) (hf : f.head.isMethod = true)
    (hf' : f'.head.isMethod = true) (h : declared? decls key = some (.type spec)) :
    declared? (decls.set i (.func f')) key = some (.type spec) := by
  obtain ⟨before, after, hold, hnew⟩ := split_headsAll_set hi f'
  refine declared?_type_of_first? hkey h ?_ (by rw [typesAll_set hi, find?_typesAll h])
  rw [hold, hnew]
  exact Head.first?_replace (fun hk => hdot (Head.dotted_of_isMethod hk hf'))
    (fun hk => hdot (Head.dotted_of_isMethod hk hf)) before after

/-! ## Names without a type -/

/-- No type has a name. -/
def Untyped (key : String) (decls : List Decl) : Prop :=
  ∀ t ∈ typesAll decls, t.name ≠ key

theorem Untyped.declared?_ne (h : Untyped key decls) (spec : TypeSpec) :
    declared? decls key ≠ some (.type spec) := by
  intro hdeclared
  have hfind := find?_typesAll hdeclared
  exact h spec (List.mem_of_find?_eq_some hfind) (by simpa using List.find?_some hfind)

theorem untyped_remove (key : String) (decls : List Decl) : Untyped key (remove key decls) := by
  intro t ht
  rw [typesAll_remove] at ht
  simpa using (List.mem_filter.1 ht).2

theorem Untyped.remove (h : Untyped key decls) (k : String) : Untyped key (remove k decls) := by
  intro t ht
  rw [typesAll_remove] at ht
  exact h t (List.mem_filter.1 ht).1

/-- A renaming to another name brings no type, and it takes the old name away. -/
theorem untyped_renameAll (hnew : key ≠ r.new) (h : key = r.old ∨ Untyped key decls) :
    Untyped key (renameAll r decls) := by
  intro t' ht'
  rw [typesAll_renameAll] at ht'
  obtain ⟨t, ht, rfl⟩ := List.mem_map.1 ht'
  simp only [TypeSpec.rename, Renaming.apply_root]
  split
  · exact Ne.symm hnew
  · next hne =>
    rcases h with rfl | h
    · exact hne
    · exact h t ht

theorem Untyped.set {i : Nat} {f : FuncDecl} (h : Untyped key decls)
    (hi : decls[i]? = some (.func f)) (f' : FuncDecl) :
    Untyped key (decls.set i (.func f')) := by
  rwa [Untyped, typesAll_set hi]

end Decl

end GoWeave
