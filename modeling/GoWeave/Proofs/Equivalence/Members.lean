import GoWeave.Proofs.Equivalence.Clean
import Mathlib.Order.Bounds.Defs

/-!
# Members of a field list

A field set lists the members of a field list one by one. Grouping is all that is lost: the entries,
each as a field of its own, are the field list without groups, and they have the same field set. A
name that is there twice is found at the first position that repeats an earlier one.
-/
namespace GoWeave

variable {position : Nat} {f : Field} {fields : List Field} {e : FieldEntry} {names : List String}

/-! ## Fields without groups -/

namespace Field

/-- The members of a field as fields of their own. -/
def ungroup (f : Field) : List Field :=
  if f.names.isEmpty then [f] else f.names.map fun name => ⟨[name], f.ty, f.tag⟩

/-- Names with a common type have the entries that each of them has by itself. -/
theorem entriesFrom_singles (role : FieldRole) (position : Nat) (names : List String) (ty : Expr)
    (tag : Option Literal) (more : List Field) :
    entriesFrom role position ((names.map fun name => ⟨[name], ty, tag⟩) ++ more) =
      (names.map fun name => (name, false)).mapIdx (fun i m =>
          (⟨FieldEntry.keyAt (position + i) m.1, m.1, m.2, ty, tag⟩ : FieldEntry)) ++
        entriesFrom role (position + names.length) more := by
  induction names generalizing position with
  | nil => rfl
  | cons name names ih =>
    have hnext : ∀ i, position + 1 + i = position + (i + 1) := by omega
    rw [List.map_cons, List.cons_append, entriesFrom, List.map_cons, List.mapIdx_cons,
      List.cons_append]
    refine congrArg (List.cons _) ((ih (position + 1)).trans ?_)
    simp only [hnext, List.length_cons]

theorem entriesFrom_ungroup_append (role : FieldRole) (position : Nat) (f : Field)
    (more : List Field) :
    entriesFrom role position (f.ungroup ++ more) =
      f.entries role position ++ entriesFrom role (position + f.width) more := by
  by_cases hnames : f.names.isEmpty = true
  · rw [ungroup, if_pos hnames, List.singleton_append, entriesFrom]
  · rw [ungroup, if_neg hnames, entriesFrom_singles, entries, members, if_neg hnames, width,
      if_neg hnames]

/-- Grouping does not show in the entries. -/
theorem entriesFrom_flatMap_ungroup (role : FieldRole) (position : Nat) (fields : List Field) :
    entriesFrom role position (fields.flatMap ungroup) = entriesFrom role position fields := by
  induction fields generalizing position with
  | nil => rfl
  | cons f fs ih => rw [List.flatMap_cons, entriesFrom_ungroup_append, ih, entriesFrom]

theorem map_toField_entries (position : Nat) (f : Field) :
    (f.entries .member position).map FieldEntry.toField = f.ungroup := by
  obtain ⟨names, ty, tag⟩ := f
  by_cases hnames : names.isEmpty = true
  · obtain rfl := List.isEmpty_iff.1 hnames
    rfl
  · rw [ungroup, if_neg hnames, entries, members, if_neg hnames]
    apply List.ext_getElem?
    simp [FieldEntry.toField, Function.comp_def]

theorem map_toField_entriesFrom (position : Nat) (fields : List Field) :
    (entriesFrom .member position fields).map FieldEntry.toField = fields.flatMap ungroup := by
  induction fields generalizing position with
  | nil => rfl
  | cons f fs ih =>
    rw [entriesFrom, List.map_append, map_toField_entries, ih, List.flatMap_cons]

theorem map_name_entries (position : Nat) (f : Field) :
    (f.entries .member position).map (·.name) = (f.labels .member).filterMap id := by
  unfold entries members labels
  by_cases hnames : f.names.isEmpty = true
  · rw [if_pos hnames, if_pos hnames]
    rfl
  · rw [if_neg hnames, if_neg hnames]
    apply List.ext_getElem?
    simp [Function.comp_def]

theorem map_name_entriesFrom (position : Nat) (fields : List Field) :
    (entriesFrom .member position fields).map (·.name) = memberNames .member fields := by
  unfold memberNames
  induction fields generalizing position with
  | nil => rfl
  | cons f fs ih =>
    rw [entriesFrom, List.map_append, map_name_entries, ih, List.flatMap_cons,
      List.filterMap_append]

end Field

/-! ## Repeated names -/

/-- A position whose name, not a blank, stands at an earlier position already. -/
def RepeatsAt (names : List String) (j : Nat) : Prop :=
  ∃ i < j, ∃ name, names[i]? = some name ∧ names[j]? = some name ∧ name ≠ "_"

theorem nodup_filter_iff :
    (names.filter (!isBlank ·)).Nodup ↔ ∀ j, ¬RepeatsAt names j := by
  rw [List.Nodup, List.pairwise_filter, List.pairwise_iff_getElem]
  constructor
  · rintro h j ⟨i, hij, name, hi, hj, hname⟩
    obtain ⟨hlt, rfl⟩ := List.getElem?_eq_some_iff.1 hi
    obtain ⟨hlt', hsame⟩ := List.getElem?_eq_some_iff.1 hj
    have hblank : isBlank names[i] = false := by simpa [isBlank] using hname
    exact h i j hlt hlt' hij (by simp [hblank]) (by simp [hsame, hblank]) hsame.symm
  · intro h i j hi hj hij hblank _ hsame
    refine h j ⟨i, hij, names[i], List.getElem?_eq_getElem hi, ?_, by simpa [isBlank] using hblank⟩
    rw [hsame, List.getElem?_eq_getElem hj]

namespace FieldSet

/-- The name that a failure reports stands at the first position that repeats an earlier one. -/
theorem isLeast_of_ofFields (hash : Field.Unhashed .member fields) {fault : Fault}
    (h : ofFields .member fields = .error fault) :
    ∃ j name, IsLeast {j | RepeatsAt (Field.memberNames .member fields) j} j ∧
      (Field.memberNames .member fields)[j]? = some name ∧ fault = .duplicateMember name := by
  rw [ofFields_eq] at h
  obtain ⟨before, e, after, s, hes, rfl, hblank, hmem, hbefore⟩ := exists_of_extend h
  have hentry : ∀ e' ∈ before, e' ∈ Field.entriesFrom .member 0 fields := by
    intro e' he'
    rw [hes]
    exact List.mem_append_left _ he'
  have hnames := Field.map_name_entriesFrom 0 fields
  rw [hes, List.map_append, List.map_cons] at hnames
  unfold Field.Unhashed at hash
  rw [← hnames] at hash ⊢
  have hat : (before.map (·.name) ++ e.name :: after.map (·.name))[before.length]? =
      some e.name := by
    simp
  have hne : e.name ≠ "_" := by simpa [isBlank] using hblank
  refine ⟨before.length, e.name, ⟨?_, fun j hj => ?_⟩, hat, rfl⟩
  · obtain ⟨e', he', hkey⟩ := List.mem_map.1 hmem
    obtain ⟨position, hposition⟩ := Field.exists_key_eq_keyAt (hentry e' he')
    -- The key is the name itself, since a key made from a position would show in the name.
    have hname : e'.name = e.name :=
      FieldEntry.eq_of_keyAt ⟨hne, hash e.name (by simp)⟩ (hposition.symm.trans hkey)
    obtain ⟨i, hi⟩ := List.mem_iff_getElem?.1 he'
    have hlt := (List.getElem?_eq_some_iff.1 hi).1
    refine ⟨i, hlt, e.name, ?_, hat, hne⟩
    rw [List.getElem?_append_left (by simpa using hlt), List.getElem?_map, hi, Option.map_some,
      hname]
  · by_contra hlt
    obtain ⟨i, hij, name, hi, hj, hname⟩ := hj
    rw [List.getElem?_append_left (by simp; omega)] at hi hj
    obtain ⟨-, hnodup⟩ := nodup_of_extend
      (fun e' he' => Field.key_eq_name (hentry e' he')) hbefore
    exact nodup_filter_iff.1 hnodup j ⟨i, hij, name, hi, hj, hname⟩

theorem ofFields_flatMap_ungroup (role : FieldRole) (fields : List Field) :
    ofFields role (fields.flatMap Field.ungroup) = ofFields role fields := by
  rw [ofFields_eq, ofFields_eq, Field.entriesFrom_flatMap_ungroup]

/-- A field set of members is faithful to its field list. There is none exactly if a name other than
the blank one is there twice, and the name that is reported stands at the first position that
repeats an earlier one. Else the keys are distinct, looking up a key gives the entry that is listed
under it, the entries are the members in the order of the list, and they have the same field set
again when each is made a field of its own. -/
theorem ofFields_faithful (hash : Field.Unhashed .member fields) :
    ((∃ fault, ofFields .member fields = .error fault) ↔
        ∃ j, RepeatsAt (Field.memberNames .member fields) j) ∧
      (∀ fault, ofFields .member fields = .error fault →
        ∃ j name, IsLeast {j | RepeatsAt (Field.memberNames .member fields) j} j ∧
          (Field.memberNames .member fields)[j]? = some name ∧ fault = .duplicateMember name) ∧
      ∀ s, ofFields .member fields = .ok s →
        s.keys.Nodup ∧
          (∀ key e, s.get? key = some e ↔ e ∈ s.entries ∧ key = e.key) ∧
          s.entries.map (·.name) = Field.memberNames .member fields ∧
          s.entries.map FieldEntry.toField = fields.flatMap Field.ungroup ∧
          ofFields .member (s.entries.map FieldEntry.toField) = .ok s := by
  refine ⟨⟨?_, ?_⟩, fun fault => isLeast_of_ofFields hash, ?_⟩
  · rintro ⟨fault, hfault⟩
    obtain ⟨j, name, hj, -⟩ := isLeast_of_ofFields hash hfault
    exact ⟨j, hj.1⟩
  · rintro ⟨j, hj⟩
    cases hfields : ofFields .member fields with
    | error fault => exact ⟨fault, rfl⟩
    | ok s => exact absurd hj (nodup_filter_iff.1 (distinct_of_ofFields hfields) j)
  · intro s hs
    have hentries := entries_of_ofFields hs
    have hnodup : s.keys.Nodup := by
      rw [keys, hentries]
      exact nodup_keys (distinct_of_ofFields hs) hash 0
    have hungrouped : s.entries.map FieldEntry.toField = fields.flatMap Field.ungroup := by
      rw [hentries, Field.map_toField_entriesFrom]
    refine ⟨hnodup, fun key e => get?_eq_some_iff hnodup, ?_, hungrouped, ?_⟩
    · rw [hentries, Field.map_name_entriesFrom]
    · rw [hungrouped, ofFields_flatMap_ungroup, hs]

/-- Blanks, an embedded member seen through a pointer, a package and a type argument, and then the
same list with two more names that are there already. -/
theorem ofFields_faithful_mixed :
    let int : Expr := .ident "int"
    let list : List Field := [⟨["a", "_"], int, none⟩,
      ⟨[], .star (.index (.selector (.ident "pkg") "T") int), none⟩, ⟨["_", "b"], int, none⟩]
    let more : List Field := list ++ [⟨["c", "T", "a"], int, none⟩]
    (∃ s, ofFields .member list = .ok s ∧ s.keys = ["a", "_#1", "T", "_#3", "b"] ∧ s.keys.Nodup ∧
        ofFields .member (s.entries.map FieldEntry.toField) = .ok s) ∧
      ofFields .member more = .error (.duplicateMember "T") ∧
      ∃ j, IsLeast {j | RepeatsAt (Field.memberNames .member more) j} j ∧
        (Field.memberNames .member more)[j]? = some "T" := by
  intro int list more
  have hlist : Field.Unhashed .member list := by
    unfold Field.Unhashed
    decide +kernel
  have hmore : Field.Unhashed .member more := by
    unfold Field.Unhashed
    decide +kernel
  obtain ⟨-, -, hok⟩ := ofFields_faithful hlist
  obtain ⟨-, herror, -⟩ := ofFields_faithful hmore
  have hset : ofFields .member list = .ok (ofEntries (Field.entriesFrom .member 0 list)) := rfl
  have hfault : ofFields .member more = .error (.duplicateMember "T") := rfl
  obtain ⟨hnodup, -, -, -, hagain⟩ := hok _ hset
  obtain ⟨j, name, hj, hname, heq⟩ := herror _ hfault
  obtain rfl := Fault.duplicateMember.inj heq
  exact ⟨⟨_, hset, by decide +kernel, hnodup, hagain⟩, hfault, j, hj, hname⟩

end FieldSet

end GoWeave
