import GoWeave.FieldSet
import Mathlib.Data.List.Induction

/-!
# Field sets and their indexes

The index of a field set leads from a key to the last entry under it, however the set was made. The
names of a field list are entered one by one, and the set has the entries of the fields one after
the other. It fails at the first name that repeats a key.
-/
namespace GoWeave

/-! ## Indexes -/

namespace FieldEntry

theorem positions_concat (es : List FieldEntry) (e : FieldEntry) :
    positions (es ++ [e]) = (e.key, es.length) :: positions es := by
  simp [positions, List.zipIdx_append]

theorem map_fst_positions (es : List FieldEntry) :
    (positions es).map Prod.fst = (es.map (·.key)).reverse := by
  induction es using List.reverseRecOn with
  | nil => rfl
  | append_singleton es e ih => simp [positions_concat, ih]

/-- The position of a key is the last one at which it stands. -/
theorem lookup_positions {es : List FieldEntry} {key : String} {i : Nat} :
    (positions es).lookup key = some i ↔
      (es.map (·.key))[i]? = some key ∧ ∀ j, i < j → (es.map (·.key))[j]? ≠ some key := by
  induction es using List.reverseRecOn with
  | nil => simp [positions]
  | append_singleton es e ih =>
    rw [positions_concat, List.lookup_cons, List.map_append, List.map_singleton]
    by_cases hkey : key = e.key
    · grind
    · rw [beq_false_of_ne hkey]
      grind

end FieldEntry

namespace FieldSet

variable {s s' : FieldSet} {key : String} {e : FieldEntry} {es : List FieldEntry}

/-- Field sets with the same entries have the same index. -/
@[ext] theorem ext (h : s.entries = s'.entries) : s = s' := by
  obtain ⟨es, index, rfl⟩ := s
  obtain ⟨es', index', rfl⟩ := s'
  obtain rfl : es = es' := h
  rfl

/-- The field set of some entries. -/
def ofEntries (es : List FieldEntry) : FieldSet :=
  ⟨es, FieldEntry.positions es, rfl⟩

theorem keys_ofEntries (es : List FieldEntry) :
    (ofEntries es).keys = es.map (·.key) :=
  rfl

@[simp] theorem keys_push (s : FieldSet) (e : FieldEntry) :
    (s.push e).keys = s.keys ++ [e.key] := by
  simp [keys, push]

/-- The index is consistent with the entries. -/
theorem lookup_index {i : Nat} :
    s.index.lookup key = some i ↔
      s.keys[i]? = some key ∧ ∀ j, i < j → s.keys[j]? ≠ some key := by
  rw [s.index_eq]
  exact FieldEntry.lookup_positions

@[simp] theorem contains_iff : s.contains key = true ↔ key ∈ s.keys := by
  rw [contains, List.lookup_isSome_iff, keys, ← List.mem_reverse, ← FieldEntry.map_fst_positions,
    ← s.index_eq]
  simp [List.mem_map]

theorem mem_of_get? (h : s.get? key = some e) : e ∈ s.entries ∧ e.key = key := by
  obtain ⟨i, hi, he⟩ := Option.bind_eq_some_iff.1 h
  have hkey := (lookup_index.1 hi).1
  rw [keys, List.getElem?_map, he] at hkey
  exact ⟨List.mem_of_getElem? he, Option.some.inj hkey⟩

theorem exists_get? (h : key ∈ s.keys) : ∃ e ∈ s.entries, s.get? key = some e ∧ e.key = key := by
  obtain ⟨i, hi⟩ := Option.isSome_iff_exists.1 (contains_iff.2 h)
  have hkey := (lookup_index.1 hi).1
  rw [keys, List.getElem?_map] at hkey
  obtain ⟨e, he, hkey⟩ := Option.map_eq_some_iff.1 hkey
  exact ⟨e, List.mem_of_getElem? he, by rw [get?, hi, Option.bind_some, he], hkey⟩

theorem get?_eq_none_iff : s.get? key = none ↔ key ∉ s.keys := by
  constructor
  · intro hnone hmem
    obtain ⟨e, -, hsome, -⟩ := exists_get? hmem
    simp [hnone] at hsome
  · intro hmem
    cases hget : s.get? key with
    | none => rfl
    | some e =>
      obtain ⟨he, rfl⟩ := mem_of_get? hget
      exact absurd (List.mem_map.2 ⟨e, he, rfl⟩) hmem

end FieldSet

/-! ## Entries -/

namespace Field

/-- The entries of a field whose first entry has the given position in its list. -/
def entries (role : FieldRole) (position : Nat) (f : Field) : List FieldEntry :=
  (f.members role position).mapIdx fun i m =>
    ⟨FieldEntry.keyAt (position + i) m.1, m.1, m.2, f.ty, f.tag⟩

/-- The entries of a list of fields. -/
def entriesFrom (role : FieldRole) (position : Nat) : List Field → List FieldEntry
  | [] => []
  | f :: fs => f.entries role position ++ entriesFrom role (position + f.width) fs

end Field

namespace FieldSet

/-- The field set with some entries at its end, unless one of them repeats a key by its name. -/
def extend (s : FieldSet) : List FieldEntry → Except Fault FieldSet
  | [] => .ok s
  | e :: es =>
    if !isBlank e.name && s.contains e.name then .error (.duplicateMember e.name)
    else (s.push e).extend es

variable {s s' : FieldSet} {es : List FieldEntry} {role : FieldRole} {fields : List Field}

theorem entries_of_extend (h : s.extend es = .ok s') : s'.entries = s.entries ++ es := by
  induction es generalizing s with
  | nil =>
    obtain rfl := Except.ok.inj h
    rw [List.append_nil]
  | cons e es ih =>
    rw [extend] at h
    split_ifs at h
    rw [ih h, push, List.append_assoc, List.singleton_append]

/-- The repeated name that is reported is the first one: the entries before it can be entered. -/
theorem exists_of_extend {fault : Fault} (h : s.extend es = .error fault) :
    ∃ before e after s', es = before ++ e :: after ∧ fault = .duplicateMember e.name ∧
      isBlank e.name = false ∧ e.name ∈ s.keys ++ before.map (·.key) ∧
      s.extend before = .ok s' := by
  induction es generalizing s with
  | nil => cases h
  | cons e es ih =>
    rw [extend] at h
    split_ifs at h with hrepeated
    · simp only [Bool.and_eq_true, Bool.not_eq_true', contains_iff] at hrepeated
      exact ⟨[], e, es, s, rfl, (Except.error.inj h).symm, hrepeated.1,
        List.mem_append_left _ hrepeated.2, rfl⟩
    · obtain ⟨before, e', after, s', rfl, hfault, hblank, hmem, hbefore⟩ := ih h
      refine ⟨e :: before, e', after, s', rfl, hfault, hblank, ?_, ?_⟩
      · simpa using hmem
      · rw [extend, if_neg hrepeated, hbefore]

theorem extend_append (s : FieldSet) (es es' : List FieldEntry) :
    s.extend (es ++ es') = s.extend es >>= (·.extend es') := by
  induction es generalizing s with
  | nil => rfl
  | cons e es ih =>
    rw [List.cons_append, extend, extend]
    split_ifs
    · rfl
    · exact ih _

theorem foldlM_insert (s : FieldSet) (f : Field) (members : List (String × Bool)) :
    members.foldlM (fun s m => s.insert f m.1 m.2) s =
      s.extend (members.mapIdx fun i m =>
        ⟨FieldEntry.keyAt (s.entries.length + i) m.1, m.1, m.2, f.ty, f.tag⟩) := by
  induction members generalizing s with
  | nil => rfl
  | cons m members ih =>
    rw [List.foldlM_cons, List.mapIdx_cons, extend, insert]
    split_ifs
    · rfl
    · -- What is pushed moves the positions of the other names by one.
      refine (ih _).trans ?_
      simp only [push, List.length_append, List.length_singleton, Nat.add_assoc, Nat.add_comm 1,
        Nat.add_zero]

/-- The names of a field are entered with the entries of the field. -/
theorem insertField_eq (s : FieldSet) (f : Field) :
    s.insertField role f = s.extend (f.entries role s.entries.length) :=
  foldlM_insert s f _

theorem foldlM_insertField (s : FieldSet) (fields : List Field) :
    fields.foldlM (insertField role) s =
      s.extend (Field.entriesFrom role s.entries.length fields) := by
  induction fields generalizing s with
  | nil => rfl
  | cons f fs ih =>
    rw [List.foldlM_cons, Field.entriesFrom, extend_append, insertField_eq]
    cases hfield : s.extend (f.entries role s.entries.length) with
    | error fault => rfl
    | ok s' =>
      have hlength : s'.entries.length = s.entries.length + f.width := by
        simp [entries_of_extend hfield, Field.entries]
      exact hlength ▸ ih s'

/-- The field set of a list has the entries of its fields. -/
theorem ofFields_eq (role : FieldRole) (fields : List Field) :
    ofFields role fields = empty.extend (Field.entriesFrom role 0 fields) :=
  foldlM_insertField empty fields

theorem entries_of_ofFields (h : ofFields role fields = .ok s) :
    s.entries = Field.entriesFrom role 0 fields := by
  rw [ofFields_eq] at h
  exact entries_of_extend h

theorem exists_fault_of_ofFields {fault : Fault} (h : ofFields role fields = .error fault) :
    ∃ name, fault = .duplicateMember name := by
  rw [ofFields_eq] at h
  obtain ⟨before, e, after, s', -, hfault, -⟩ := exists_of_extend h
  exact ⟨e.name, hfault⟩

end FieldSet

end GoWeave
