import GoWeave.Proofs.Declaration.Removal

/-!
# Blank variables under removal

A blank variable has no key and is there for what its initializer does. Removing the key of another
name of its spec leaves it in place as long as the spec has some other name. A spec whose only name
is the key goes as a whole, though, and its blank variables go with it: this is meant for a spec
with one initializer for all its names, but where each name has its own, what the blank ones do is
lost.
-/
namespace GoWeave

theorem List.eraseIdx_of_idxOf? {key : String} {names : List String} {i : Nat}
    (h : names.idxOf? key = some i) : names.eraseIdx i = names.erase key := by
  obtain ⟨before, after, rfl, rfl, hkey⟩ := List.split_of_idxOf? h
  rw [List.eraseIdx_append_of_length_le (Nat.le_refl _), Nat.sub_self, List.eraseIdx_cons_zero,
    List.erase_append_right _ hkey, List.erase_cons_head]

/-- The value spec that a spec is. -/
def Spec.value? : Spec → Option ValueSpec
  | .value v => some v
  | _ => none

namespace ValueSpec

/-- The declared type and the initializer of every blank name, where each name has an initializer of
its own. -/
def blanks (v : ValueSpec) : List (Option Expr × Expr) :=
  if v.isPaired then
    ((v.names.zip v.values).filter fun p => isBlank p.1).map fun p => (v.ty, p.2)
  else []

/-- Whether all names of a spec are blank but for one, which is the key. -/
def namesOnly (key : String) (v : ValueSpec) : Bool :=
  v.names.contains key && (v.names.erase key).all isBlank

theorem length_values_of_isPaired {v : ValueSpec} (h : v.isPaired = true) :
    v.values.length = v.names.length := by
  simpa [isPaired] using h

theorem blanks_eq_nil_iff (v : ValueSpec) :
    v.blanks = [] ↔ (v.isPaired = true → "_" ∉ v.names) := by
  unfold blanks
  split
  · next hpaired =>
    have hlength := length_values_of_isPaired hpaired
    have hnames : v.names = (v.names.zip v.values).map (·.1) := by
      rw [List.map_fst_zip (by omega)]
    rw [List.map_eq_nil_iff, List.filter_eq_nil_iff]
    constructor
    · intro h _ hmem
      rw [hnames] at hmem
      obtain ⟨p, hp, hblank⟩ := List.mem_map.1 hmem
      exact h p hp (by simp [isBlank, hblank])
    · intro h p hp hblank
      refine h hpaired ?_
      rw [hnames]
      exact List.mem_map.2 ⟨p, hp, by simpa [isBlank] using hblank⟩
  · next hpaired => simp [hpaired]

/-- A name that is not blank goes with its own initializer. -/
theorem blanks_eraseIdx {v : ValueSpec} (hpaired : v.isPaired = true) {key : String} {i : Nat}
    (hkey : isBlank key = false) (hi : v.names.idxOf? key = some i) :
    blanks ⟨v.names.eraseIdx i, v.ty, v.values.eraseIdx i⟩ = v.blanks := by
  have hlength := length_values_of_isPaired hpaired
  have hpaired' : isPaired ⟨v.names.eraseIdx i, v.ty, v.values.eraseIdx i⟩ = true := by
    simp [isPaired, List.length_eraseIdx, hlength]
  obtain ⟨before, after, hnames, rfl, -⟩ := List.split_of_idxOf? hi
  have hlt : before.length < v.values.length := by
    rw [hlength, hnames]
    simp
  have hvalues : v.values = v.values.take before.length ++
      v.values[before.length] :: v.values.drop (before.length + 1) := by
    rw [← List.drop_eq_getElem_cons hlt, List.take_append_drop]
  have htake : before.length = (v.values.take before.length).length := by
    rw [List.length_take]
    omega
  have herase : v.names.eraseIdx before.length = before ++ after := by
    rw [hnames, List.eraseIdx_append_of_length_le (Nat.le_refl _), Nat.sub_self,
      List.eraseIdx_cons_zero]
  rw [blanks, blanks, if_pos hpaired, if_pos hpaired']
  dsimp only
  rw [herase, List.eraseIdx_eq_take_drop_succ, List.zip_append htake, hnames]
  conv_rhs => rw [hvalues, List.zip_append htake, List.zip_cons_cons]
  simp [hkey]

/-- A spec without initializers of their own stays one. -/
theorem blanks_dropName_of_not_isPaired {v : ValueSpec} (h : v.isPaired = false) (i : Nat) :
    (v.dropName i false).blanks = [] := by
  have hlength : v.values.length ≠ v.names.length := by simpa [isPaired] using h
  unfold dropName
  split
  · next hcut =>
    have hempty : v.values = [] := by simpa [h] using hcut
    simp [blanks, h, hempty]
  · simp [blanks, isPaired, hlength]

/-- Without its key a spec keeps its blank names, unless the key is its only name. -/
theorem blanks_without {key : String} (hkey : isBlank key = false) (v : ValueSpec) :
    (((Spec.value v).without key false).bind Spec.value?).toList.flatMap blanks =
      if v.namesOnly key then [] else v.blanks := by
  rw [Spec.without]
  split
  · next hnone =>
    have hmem : key ∉ v.names := List.idxOf?_eq_none_iff.1 hnone
    have hnot : v.namesOnly key = false := by simp [namesOnly, hmem]
    simp [hnot, Spec.value?]
  · next i hi =>
    have hmem : key ∈ v.names := List.mem_of_getElem? (List.getElem?_of_idxOf? hi)
    cases hpaired : v.isPaired with
    | false =>
      have hnil : v.blanks = [] := by simp [blanks, hpaired]
      rw [hnil, ite_self]
      dsimp only
      split
      · simp [Spec.value?, blanks_dropName_of_not_isPaired hpaired]
      · rfl
    | true =>
      have hdrop : v.dropName i false = ⟨v.names.eraseIdx i, v.ty, v.values.eraseIdx i⟩ := by
        simp [dropName, hpaired]
      have honly : v.namesOnly key = (v.dropName i false).allBlank := by
        rw [hdrop, allBlank, namesOnly, List.eraseIdx_of_idxOf? hi]
        simp [hmem]
      rw [honly]
      dsimp only
      cases hblank : (v.dropName i false).allBlank with
      | true => rfl
      | false =>
        have hblanks := blanks_eraseIdx hpaired hkey hi
        rw [← hdrop] at hblanks
        simp [Spec.value?, hblanks]

end ValueSpec

namespace Decl

/-- The specs of a group of variables. -/
def vars : Decl → List ValueSpec
  | .group g => if g.tok = .var then g.specs.filterMap Spec.value? else []
  | _ => []

/-- The blank variables of some declarations that have an initializer of their own, in source
order. -/
def blanks (decls : List Decl) : List (Option Expr × Expr) :=
  (decls.flatMap vars).flatMap ValueSpec.blanks

end Decl

/-- The specs of a group of variables without a key. No place is pinned there. -/
theorem Spec.blanks_withoutAll {key : String} (hkey : isBlank key = false) (specs : List Spec) :
    ((withoutAll key false specs).filterMap value?).flatMap ValueSpec.blanks =
      ((specs.filterMap value?).filter (!·.namesOnly key)).flatMap ValueSpec.blanks := by
  induction specs with
  | nil => rfl
  | cons s ss ih =>
    have hpinned : s.isPinned false ss.isEmpty = false := by
      cases s <;> rfl
    rw [withoutAll, hpinned, List.filterMap_append, List.flatMap_append, ih]
    cases s with
    | imported spec => rfl
    | type t =>
      rw [without]
      split <;> rfl
    | value v =>
      have hvalue := ValueSpec.blanks_without hkey v
      have hfilter : ((Spec.value v).without key false).toList.filterMap value? =
          (((Spec.value v).without key false).bind value?).toList := by
        cases (Spec.value v).without key false with
        | none => rfl
        | some s => cases hs : s.value? <;> simp [hs]
      rw [hfilter, hvalue, List.filterMap_cons]
      cases hv : v.namesOnly key <;> simp [value?, hv]

namespace Decl

theorem blanks_without {key : String} (hkey : isBlank key = false) (d : Decl) :
    blanks (d.without key).toList =
      (d.vars.filter (!·.namesOnly key)).flatMap ValueSpec.blanks := by
  cases d with
  | bad node => rfl
  | func f =>
    rw [without]
    split <;> rfl
  | group g =>
    by_cases htok : g.tok = .var
    · have hspecs := Spec.blanks_withoutAll hkey g.specs
      have himport : g.tok ≠ .import_ := by simp [htok]
      have hconst : (g.tok == Token.const) = false := by simp [htok]
      rw [vars, if_pos htok, ← hspecs, without, if_neg himport, DeclGroup.without, hconst]
      split
      · next hgone =>
        simp only [Bool.false_and, Bool.or_false, Bool.and_eq_true, List.isEmpty_iff] at hgone
        rw [hgone.2]
        rfl
      · simp [blanks, vars, htok]
    · have hsame : ∀ d ∈ (Decl.without key (.group g)).toList, d.vars = [] := by
        intro d hd
        rw [Option.mem_toList, without] at hd
        split at hd
        · cases hd
          simp [vars, htok]
        · obtain ⟨g', hg', rfl⟩ := Option.map_eq_some_iff.1 hd
          rw [(DeclGroup.eq_of_without hg').1]
          simp [vars, htok]
      rw [blanks, List.flatMap_eq_nil_iff.2 hsame, vars, if_neg htok]
      rfl

theorem blanks_remove_eq {key : String} (hkey : isBlank key = false) (decls : List Decl) :
    blanks (remove key decls) =
      ((decls.flatMap vars).filter (!·.namesOnly key)).flatMap ValueSpec.blanks := by
  induction decls with
  | nil => rfl
  | cons d ds ih =>
    have hhead := blanks_without hkey d
    rw [blanks] at ih hhead ⊢
    rw [remove_cons, List.flatMap_append, List.flatMap_append, ih, hhead, List.flatMap_cons,
      List.filter_append, List.flatMap_append]

end Decl

theorem List.length_flatMap_filter_le {α β : Type} (p : α → Bool) (f : α → List β) (xs : List α) :
    ((xs.filter p).flatMap f).length ≤ (xs.flatMap f).length := by
  induction xs with
  | nil => exact Nat.le_refl _
  | cons x xs ih =>
    rw [List.filter_cons]
    split <;> simp only [List.flatMap_cons, List.length_append] <;> omega

/-- What is left out of a concatenation is missed unless it is empty. -/
theorem List.flatMap_filter_eq_iff {α β : Type} {p : α → Bool} {f : α → List β} {xs : List α} :
    (xs.filter p).flatMap f = xs.flatMap f ↔ ∀ x ∈ xs, p x = false → f x = [] := by
  induction xs with
  | nil => simp
  | cons x xs ih =>
    rw [List.filter_cons, List.flatMap_cons, List.forall_mem_cons, ← ih]
    cases hx : p x with
    | true => simp
    | false =>
      have hle := List.length_flatMap_filter_le p f xs
      constructor
      · intro h
        have hlength := congrArg List.length h
        simp only [Bool.false_eq_true, if_false, List.length_append] at hlength
        have hnil : f x = [] := List.length_eq_zero_iff.1 (by omega)
        exact ⟨fun _ => hnil, by simpa [hnil] using h⟩
      · rintro ⟨hnil, h⟩
        simp [hnil rfl, h]

namespace Decl

/-- Removing a key leaves the blank variables that have an initializer of their own, in their order,
except those of the specs that have no other name than the key. So all of them stay exactly if no
spec with a blank name is among those. -/
theorem blanks_remove {key : String} (hkey : key ≠ "_") (decls : List Decl) :
    blanks (remove key decls) =
        ((decls.flatMap vars).filter (!·.namesOnly key)).flatMap ValueSpec.blanks ∧
      (blanks (remove key decls) = blanks decls ↔
        ∀ v ∈ decls.flatMap vars, v.isPaired = true → v.namesOnly key = true →
          "_" ∉ v.names) := by
  have hleft := blanks_remove_eq (by simpa [isBlank] using hkey) decls
  refine ⟨hleft, ?_⟩
  rw [hleft, blanks, List.flatMap_filter_eq_iff]
  refine forall₂_congr fun v _ => ?_
  rw [ValueSpec.blanks_eq_nil_iff]
  simp only [Bool.not_eq_false']
  exact imp.swap

/-- The variable `A` goes from between two blank ones, which stay since `B` does. -/
theorem blanks_remove_between :
    let call (name : String) : Expr := .call (.ident name) [] false
    let decls : List Decl := [.group ⟨.var, [.value ⟨["_", "A", "_", "B"], none,
      [call "f", call "g", call "h", call "k"]⟩], false⟩]
    "A" ≠ "_" ∧ blanks (remove "A" decls) = blanks decls ∧
      (blanks decls).map (·.2.text) = ["f()", "h()"] := by
  intro call decls
  refine ⟨by decide, (blanks_remove (by decide) decls).2.2 ?_, by decide⟩
  intro v hv
  obtain rfl : v = _ := by simpa [decls, vars, Spec.value?] using hv
  decide

/-- In `var _, A = f(), g()` the blank variable goes with the only name, and `f` is called no
more. -/
theorem exists_lost_blank :
    ∃ (decls : List Decl) (key : String) (v : ValueSpec) (value : Expr), key ≠ "_" ∧
      v ∈ decls.flatMap vars ∧ v.values.length = v.names.length ∧
      ("_", value) ∈ v.names.zip v.values ∧ remove key decls = [] := by
  let call (name : String) : Expr := .call (.ident name) [] false
  let v : ValueSpec := ⟨["_", "A"], none, [call "f", call "g"]⟩
  refine ⟨[.group ⟨.var, [.value v], false⟩], "A", v, call "f", by decide, ?_, rfl, ?_, rfl⟩
  · simp [vars, Spec.value?]
  · exact List.mem_cons_self

end Decl

end GoWeave
