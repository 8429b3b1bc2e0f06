import GoWeave.Equivalence
import GoWeave.Proofs.FieldSet
import GoWeave.Scope

/-!
# Comparisons that find no difference

A comparison is put together from smaller ones, and it finds no difference exactly if none of them
does. Two field lists without a difference have the same keys, and a member of the left list agrees
with the member of the right list under its key.
-/
namespace GoWeave

namespace Comparison

@[simp] theorem orElse_eq_none {c d : Comparison} : (c <|> d) = none ↔ c = none ∧ d = none := by
  cases c <;> simp

@[simp] theorem within_eq_none {what : String} {c : Comparison} : c.within what = none ↔ c = none :=
  Option.map_eq_none_iff

@[simp] theorem require_eq_none {same : Bool} {description : String} :
    require same description = none ↔ same = true := by
  cases same <;> simp [require]

@[simp] theorem names_eq_none {a b : String} : names a b = none ↔ a = b := by
  simp [names]

@[simp] theorem literals_eq_none {a b : Literal} : literals a b = none ↔ a = b := by
  simp [literals]

@[simp] theorem tokens_eq_none {what : String} {a b : Token} : tokens what a b = none ↔ a = b := by
  simp [tokens]

@[simp] theorem lists_eq_none {α : Type} {what : String} {a b : List α}
    {pairwise : String → Comparison} :
    lists what a b pairwise = none ↔ a.length = b.length ∧ pairwise what = none := by
  simp [lists]

@[simp] theorem oneSided_ne_none : oneSided ≠ none := by
  simp [oneSided]

theorem optional_eq_none {α : Type} {cmp : α → α → Comparison} {a b : Option α}
    (h : optional cmp a b = none) :
    a = none ∧ b = none ∨ ∃ x y, a = some x ∧ b = some y ∧ cmp x y = none := by
  cases a <;> cases b <;> simp_all [optional]

theorem nameLists_eq_none {what : String} {i : Nat} {as bs : List String}
    (hlength : as.length = bs.length) (h : nameLists what i as bs = none) : as = bs := by
  induction as generalizing i bs with
  | nil => exact (List.length_eq_zero_iff.1 hlength.symm).symm
  | cons a as ih =>
    cases bs with
    | nil => simp at hlength
    | cons b bs =>
      simp only [nameLists, orElse_eq_none, within_eq_none, names_eq_none] at h
      rw [h.1, ih (by simpa using hlength) h.2]

theorem optional_eq_none_iff {α : Type} {cmp : α → α → Comparison} {a b : Option α}
    (hcmp : ∀ x y, cmp x y = none ↔ x = y) : optional cmp a b = none ↔ a = b := by
  cases a <;> cases b <;> simp [optional, hcmp]

theorem nameLists_self (what : String) (i : Nat) (names : List String) :
    nameLists what i names names = none := by
  induction names generalizing i with
  | nil => rfl
  | cons name names ih => simp [nameLists, ih]

theorem nameLists_eq_none_iff {what : String} {i : Nat} {as bs : List String} :
    as.length = bs.length ∧ nameLists what i as bs = none ↔ as = bs := by
  constructor
  · rintro ⟨hlength, h⟩
    exact nameLists_eq_none hlength h
  · rintro rfl
    exact ⟨rfl, nameLists_self what i as⟩

end Comparison

@[simp] theorem Expr.unlike_ne_none (kind : String) (x : Expr) : x.unlike kind ≠ none := by
  cases x <;> simp [Expr.unlike]

@[simp] theorem Stmt.unlike_ne_none (kind : String) (s : Stmt) : s.unlike kind ≠ none := by
  cases s <;> simp [Stmt.unlike]

/-! ## Entries -/

namespace Field

theorem mem_entries {role : FieldRole} {position : Nat} {f : Field} {e : FieldEntry} :
    e ∈ f.entries role position ↔ ∃ i m, (f.members role position)[i]? = some m ∧
      e = ⟨FieldEntry.keyAt (position + i) m.1, m.1, m.2, f.ty, f.tag⟩ := by
  rw [entries, List.mem_iff_getElem?]
  constructor
  · rintro ⟨i, hi⟩
    rw [List.getElem?_mapIdx] at hi
    obtain ⟨m, hm, rfl⟩ := Option.map_eq_some_iff.1 hi
    exact ⟨i, m, hm, rfl⟩
  · rintro ⟨i, m, hm, rfl⟩
    exact ⟨i, by rw [List.getElem?_mapIdx, hm]; rfl⟩

/-- Every field has an entry. -/
theorem exists_mem_entries (role : FieldRole) (position : Nat) (f : Field) :
    ∃ e ∈ f.entries role position, e.ty = f.ty := by
  have hpos : 0 < (f.members role position).length := by
    rw [length_members, width]
    split
    · exact Nat.one_pos
    · next h => exact List.length_pos_iff.2 (by simpa using h)
  exact ⟨_, mem_entries.2 ⟨0, _, List.getElem?_eq_getElem hpos, rfl⟩, rfl⟩

theorem exists_field_of_mem_entriesFrom {role : FieldRole} {position : Nat} {fields : List Field}
    {e : FieldEntry} (h : e ∈ entriesFrom role position fields) : ∃ f ∈ fields, e.ty = f.ty := by
  induction fields generalizing position with
  | nil => simp [entriesFrom] at h
  | cons f fs ih =>
    rw [entriesFrom, List.mem_append] at h
    rcases h with h | h
    · obtain ⟨i, m, -, rfl⟩ := mem_entries.1 h
      exact ⟨f, List.mem_cons_self, rfl⟩
    · obtain ⟨g, hg, hty⟩ := ih h
      exact ⟨g, List.mem_cons_of_mem f hg, hty⟩

end Field

/-- Names that a member may be called by and that stand for no position. -/
def Ordinary (name : String) : Prop :=
  name ≠ "_" ∧ '#' ∉ name.toList

instance (name : String) : Decidable (Ordinary name) :=
  inferInstanceAs (Decidable (_ ∧ _))

/-- A key that is made up from a position can be told from an ordinary name. -/
theorem hash_mem_toList (before : String) (position : Nat) :
    '#' ∈ (before ++ "#" ++ toString position).toList := by
  have hash : '#' ∈ "#".toList := by decide
  rw [String.toList_append, String.toList_append]
  exact List.mem_append_left _ (List.mem_append_right _ hash)

theorem FieldEntry.keyAt_of_ne {name : String} (h : name ≠ "_") (position : Nat) :
    keyAt position name = name := by
  simp [keyAt, isBlank, h]

theorem FieldEntry.eq_of_keyAt {name key : String} (hkey : Ordinary key) {position : Nat}
    (h : keyAt position name = key) : name = key := by
  unfold keyAt at h
  split at h
  · exact absurd (h ▸ hash_mem_toList "_" position) hkey.2
  · exact h

/-- The names that parameters declare can be read off the keys. -/
theorem Field.mem_declared_iff {name : String} (hname : Ordinary name) (position : Nat)
    (fields : List Field) :
    name ∈ Field.declared fields ↔
      name ∈ (Field.entriesFrom .param position fields).map (·.key) := by
  have hentry : ∀ (position : Nat) (f : Field),
      name ∈ f.names ↔ name ∈ (f.entries .param position).map (·.key) := by
    intro position f
    simp only [List.mem_map, mem_entries]
    constructor
    · intro hmem
      obtain ⟨i, hi⟩ := List.mem_iff_getElem?.1 hmem
      refine ⟨_, ⟨i, (name, false), ?_, rfl⟩, FieldEntry.keyAt_of_ne hname.1 _⟩
      rw [members, if_neg (by simpa using List.ne_nil_of_mem hmem), List.getElem?_map, hi]
      rfl
    · rintro ⟨e, ⟨i, m, hm, rfl⟩, hkey⟩
      have hm' := List.mem_of_getElem? hm
      have hfst := FieldEntry.eq_of_keyAt hname hkey
      unfold members at hm'
      split at hm'
      · -- An unnamed parameter is called by its position.
        rw [List.mem_singleton.1 hm'] at hfst
        exact absurd (hfst ▸ hash_mem_toList "" position) hname.2
      · obtain ⟨n, hn, rfl⟩ := List.mem_map.1 hm'
        exact hfst ▸ hn
  induction fields generalizing position with
  | nil => simp [Field.declared, Field.entriesFrom]
  | cons f fs ih =>
    have hcons : name ∈ Field.declared (f :: fs) ↔ name ∈ f.names ∨ name ∈ Field.declared fs := by
      simp [Field.declared]
    rw [hcons, Field.entriesFrom, List.map_append, List.mem_append]
    exact or_congr (hentry position f) (ih (position + f.width))

/-! ## Field sets -/

/-- What two field lists without a difference have in common. -/
structure FieldsAgree (role : FieldRole) (a b : List Field) (shared : FieldSet → Comparison)
    (left right : FieldSet) : Prop where
  left_eq : FieldSet.ofFields role a = .ok left
  right_eq : FieldSet.ofFields role b = .ok right
  shared_eq : shared right = none
  keys_iff : ∀ key, key ∈ left.keys ↔ key ∈ right.keys

theorem Comparison.exists_fieldsAgree {role : FieldRole} {a b : List Field}
    {shared : FieldSet → Comparison} (h : fieldSets role a b shared = none) :
    ∃ left right, FieldsAgree role a b shared left right := by
  unfold fieldSets at h
  split at h
  · simp at h
  · next left hleft =>
    split at h
    · simp at h
    · next right hright =>
      simp only [orElse_eq_none] at h
      obtain ⟨hshared, hkeys⟩ := h
      split at hkeys
      · simp at hkeys
      · next hmissing =>
        split at hkeys
        · simp at hkeys
        · next hadded =>
          refine ⟨left, right, hleft, hright, hshared, fun key => ⟨fun hkey => ?_, fun hkey => ?_⟩⟩
          · have hall : ∀ key ∈ left.keys, right.contains key = true := by simpa using hmissing
            simpa using hall key hkey
          · have hall : ∀ key ∈ right.keys, left.contains key = true := by simpa using hadded
            simpa using hall key hkey

/-- Parameter lists without a difference declare the same names. -/
theorem Comparison.mem_declared_iff {name : String} (hname : Ordinary name) {a b : List Field}
    {shared : FieldSet → Comparison} (h : fieldSets .param a b shared = none) :
    name ∈ Field.declared a ↔ name ∈ Field.declared b := by
  obtain ⟨left, right, hagree⟩ := exists_fieldsAgree h
  have hkeys := hagree.keys_iff name
  rw [FieldSet.keys, FieldSet.keys, FieldSet.entries_of_ofFields hagree.left_eq,
    FieldSet.entries_of_ofFields hagree.right_eq] at hkeys
  rw [Field.mem_declared_iff hname 0, Field.mem_declared_iff hname 0, hkeys]

/-! ## Members -/

theorem Comparison.memberIn_eq_none_iff {other : FieldSet} {key : String} {embedded : Bool}
    {tag : Option Literal} {same : Expr → Comparison} :
    memberIn other key embedded tag same = none ↔
      ∀ e, other.get? key = some e →
        embedded = e.embedded ∧ tag = e.tag ∧ same e.ty = none := by
  have htag : ∀ e : FieldEntry, optional literals tag e.tag = none ↔ tag = e.tag :=
    fun e => optional_eq_none_iff fun _ _ => literals_eq_none
  cases hget : other.get? key with
  | none => simp [memberIn, hget]
  | some e => simp [memberIn, hget, htag]

theorem Comparison.fieldIn_eq_none_iff {other : FieldSet} {position : Nat} {tag : Option Literal}
    {same : Expr → Comparison} {members : List (String × Bool)} :
    fieldIn other position tag same members = none ↔
      ∀ i m, members[i]? = some m →
        memberIn other (FieldEntry.keyAt (position + i) m.1) m.2 tag same = none := by
  induction members generalizing position with
  | nil => simp [fieldIn]
  | cons m members ih =>
    rw [fieldIn, orElse_eq_none, ih]
    constructor
    · rintro ⟨hhead, htail⟩ i m' hm'
      cases i with
      | zero =>
        obtain rfl : m = m' := by simpa using hm'
        exact hhead
      | succ i =>
        have hrest := htail i m' (by simpa using hm')
        rwa [Nat.add_assoc, Nat.add_comm 1] at hrest
    · intro h
      refine ⟨h 0 m rfl, fun i m' hm' => ?_⟩
      rw [Nat.add_assoc, Nat.add_comm 1]
      exact h (i + 1) m' hm'

/-- Whether an entry agrees with the entry of its key on the other side. -/
def FieldEntry.Agrees (e e' : FieldEntry) : Prop :=
  e.embedded = e'.embedded ∧ e.tag = e'.tag ∧ e.ty.compare e'.ty = none

/-- The entries of a field against the entries of their keys on the other side. -/
theorem Field.compareMembers_eq_none_iff {role : FieldRole} {position : Nat} {other : FieldSet}
    {f : Field} :
    f.compareMembers role position other = none ↔
      ∀ e ∈ f.entries role position, ∀ e', other.get? e.key = some e' → e.Agrees e' := by
  obtain ⟨names, ty, tag⟩ := f
  rw [Field.compareMembers, Comparison.fieldIn_eq_none_iff]
  constructor
  · intro h e he e' he'
    obtain ⟨i, m, hm, rfl⟩ := mem_entries.1 he
    exact Comparison.memberIn_eq_none_iff.1 (h i m hm) e' he'
  · intro h i m hm
    exact Comparison.memberIn_eq_none_iff.2 (h _ (mem_entries.2 ⟨i, m, hm, rfl⟩))

theorem Field.compareAll_eq_none_iff {role : FieldRole} {position : Nat} {other : FieldSet}
    {fields : List Field} :
    Field.compareAll role position other fields = none ↔
      ∀ e ∈ Field.entriesFrom role position fields, ∀ e', other.get? e.key = some e' →
        e.Agrees e' := by
  induction fields generalizing position with
  | nil => simp [Field.compareAll, Field.entriesFrom]
  | cons f fs ih =>
    rw [Field.compareAll, Comparison.orElse_eq_none, Field.compareMembers_eq_none_iff, ih,
      Field.entriesFrom, List.forall_mem_append]

end GoWeave
