import GoWeave.Proofs.Equivalence.Copies
import GoWeave.Proofs.Equivalence.Decision

/-!
# Members that only one side has

A comparison reports added members only where two struct types, two interface types or two member
lists are its root, or the types of its root. Then the left side has no member that the right side
lacks, the other direction is a mismatch, and the left side with the added members compares as
equal. Below the root, and for every other kind of node, added members are a mismatch.
-/
namespace GoWeave

open Comparison

/-! ## Comparisons that report no added members -/

namespace Comparison

theorem plain_none : Plain none := by
  simp [Plain]

/-- Whether the outcome of a comparison is that members are added. -/
def adds : Comparison → Bool
  | some (.additional _ _) => true
  | _ => false

theorem plain_of_adds {c : Comparison} (h : c.adds = false) : Plain c := by
  rintro missing added rfl
  simp [adds] at h

theorem plain_lists {α : Type} {what : String} {a b : List α} {pairwise : String → Comparison}
    (h : ∀ what, Plain (pairwise what)) : Plain (lists what a b pairwise) :=
  (plain_require _ _).orElse (h what)

end Comparison

theorem Expr.plain_compareFrom (what : String) (i : Nat) (xs ys : List Expr) :
    Plain (Expr.compareFrom what i xs ys) := by
  induction xs generalizing i ys with
  | nil => exact plain_none
  | cons x xs ih =>
    cases ys with
    | nil => exact plain_none
    | cons y ys => exact (plain_within _ _).orElse (ih (i + 1) ys)

theorem Stmt.plain_compareFrom (what : String) (i : Nat) (xs ys : List Stmt) :
    Plain (Stmt.compareFrom what i xs ys) := by
  induction xs generalizing i ys with
  | nil => exact plain_none
  | cons x xs ih =>
    cases ys with
    | nil => exact plain_none
    | cons y ys => exact (plain_within _ _).orElse (ih (i + 1) ys)

theorem Spec.plain_compareFrom (what : String) (i : Nat) (xs ys : List Spec) :
    Plain (Spec.compareFrom what i xs ys) := by
  induction xs generalizing i ys with
  | nil => exact plain_none
  | cons x xs ih =>
    cases ys with
    | nil => exact plain_none
    | cons y ys => exact (plain_within _ _).orElse (ih (i + 1) ys)

theorem Comparison.plain_nameLists (what : String) (i : Nat) (as bs : List String) :
    Plain (nameLists what i as bs) := by
  induction as generalizing i bs with
  | nil => exact plain_none
  | cons a as ih =>
    cases bs with
    | nil => exact plain_none
    | cons b bs => exact (plain_within _ _).orElse (ih (i + 1) bs)

theorem Signature.plain_compare (a b : Signature) : Plain (a.compare b) := by
  cases a
  cases b
  exact (plain_within _ _).orElse ((plain_within _ _).orElse (plain_within _ _))

theorem FuncDecl.plain_compare (a b : FuncDecl) : Plain (a.compare b) :=
  (plain_require _ _).orElse
    ((plain_within _ _).orElse ((plain_within _ _).orElse (plain_within _ _)))

theorem ValueSpec.plain_compare (a b : ValueSpec) : Plain (a.compare b) := by
  cases a
  cases b
  exact (plain_within _ _).orElse
    ((plain_lists fun _ => plain_nameLists _ _ _ _).orElse
      (plain_lists fun _ => Expr.plain_compareFrom _ _ _ _))

theorem DeclGroup.plain_compare (a b : DeclGroup) : Plain (a.compare b) := by
  cases a
  cases b
  exact (plain_require _ _).orElse (plain_lists fun _ => Spec.plain_compareFrom _ _ _ _)

/-- The members of a struct or interface type. -/
def Expr.members? : Expr → Option (List Field)
  | .structType fields _ => some fields
  | .interfaceType methods _ => some methods
  | _ => none

/-- Only types with members can add some. -/
theorem Expr.plain_compare {x : Expr} (hx : x.members? = none) (y : Expr) :
    Plain (x.compare y) := by
  cases x with
  | structType fields incomplete => simp [members?] at hx
  | interfaceType methods incomplete => simp [members?] at hx
  | bad node => exact plain_of_adds rfl
  | ident name =>
    cases y with
    | ident name' => exact plain_require _ _
    | _ => exact plain_of_adds rfl
  | ellipsis elt =>
    cases y with
    | ellipsis elt' => exact plain_within _ _
    | _ => exact plain_of_adds rfl
  | literal value =>
    cases y with
    | literal value' => exact plain_require _ _
    | _ => exact plain_of_adds rfl
  | funcLit sig body =>
    cases y with
    | funcLit sig' body' => exact (plain_within _ _).orElse (plain_within _ _)
    | _ => exact plain_of_adds rfl
  | composite ty elts incomplete =>
    cases y with
    | composite ty' elts' incomplete' =>
      exact (plain_require _ _).orElse ((plain_within _ _).orElse
        (plain_lists fun _ => plain_compareFrom _ _ _ _))
    | _ => exact plain_of_adds rfl
  | paren x =>
    cases y with
    | paren y => exact plain_within _ _
    | _ => exact plain_of_adds rfl
  | selector x sel =>
    cases y with
    | selector y sel' => exact (plain_within _ _).orElse (plain_within _ _)
    | _ => exact plain_of_adds rfl
  | index x arg =>
    cases y with
    | index y arg' => exact (plain_within _ _).orElse (plain_within _ _)
    | _ => exact plain_of_adds rfl
  | indexList x args =>
    cases y with
    | indexList y args' =>
      exact (plain_lists fun _ => plain_compareFrom _ _ _ _).orElse (plain_within _ _)
    | _ => exact plain_of_adds rfl
  | slice x low high max three =>
    cases y with
    | slice y low' high' max' three' =>
      exact (plain_require _ _).orElse ((plain_within _ _).orElse ((plain_within _ _).orElse
        ((plain_within _ _).orElse (plain_within _ _))))
    | _ => exact plain_of_adds rfl
  | typeAssert x ty =>
    cases y with
    | typeAssert y ty' => exact (plain_within _ _).orElse (plain_within _ _)
    | _ => exact plain_of_adds rfl
  | call fn args spread =>
    cases y with
    | call fn' args' spread' =>
      exact (plain_require _ _).orElse ((plain_within _ _).orElse
        (plain_lists fun _ => plain_compareFrom _ _ _ _))
    | _ => exact plain_of_adds rfl
  | star x =>
    cases y with
    | star y => exact plain_within _ _
    | _ => exact plain_of_adds rfl
  | unary op x =>
    cases y with
    | unary op' y => exact (plain_require _ _).orElse (plain_within _ _)
    | _ => exact plain_of_adds rfl
  | binary op x₁ x₂ =>
    cases y with
    | binary op' y₁ y₂ =>
      exact (plain_require _ _).orElse ((plain_within _ _).orElse (plain_within _ _))
    | _ => exact plain_of_adds rfl
  | keyValue key value =>
    cases y with
    | keyValue key' value' => exact (plain_within _ _).orElse (plain_within _ _)
    | _ => exact plain_of_adds rfl
  | arrayType len elt =>
    cases y with
    | arrayType len' elt' => exact (plain_within _ _).orElse (plain_within _ _)
    | _ => exact plain_of_adds rfl
  | funcType sig =>
    cases y with
    | funcType sig' => exact Signature.plain_compare _ _
    | _ => exact plain_of_adds rfl
  | mapType key value =>
    cases y with
    | mapType key' value' => exact (plain_within _ _).orElse (plain_within _ _)
    | _ => exact plain_of_adds rfl
  | chanType dir value =>
    cases y with
    | chanType dir' value' => exact (plain_require _ _).orElse (plain_within _ _)
    | _ => exact plain_of_adds rfl

/-! ## Added members of a field list -/

namespace FieldSet

theorem not_contains (s : FieldSet) :
    (fun key => !s.contains key) = fun key => decide (key ∉ s.keys) := by
  funext key
  rw [Bool.eq_iff_iff]
  simp [← contains_iff]

/-- The entries of a field set whose keys another one lacks. -/
def beyond (left right : FieldSet) : List FieldEntry :=
  right.entries.filter fun e => e.key ∉ left.keys

theorem map_key_beyond (left right : FieldSet) :
    (left.beyond right).map (·.key) = right.keys.filter (· ∉ left.keys) := by
  simp only [beyond, keys, List.filter_map, Function.comp_def]

theorem nodup_keys_of_ofFields {list : List Field} {s : FieldSet}
    (h : ofFields .member list = .ok s) (hash : (Node.fields list).Unhashed) : s.keys.Nodup := by
  rw [keys, entries_of_ofFields h]
  exact nodup_keys (distinct_of_ofFields h) (hash _ List.mem_cons_self) 0

end FieldSet

namespace Field

theorem entriesFrom_append (role : FieldRole) (position : Nat) (fields more : List Field) :
    ∃ next, entriesFrom role position (fields ++ more) =
      entriesFrom role position fields ++ entriesFrom role next more := by
  induction fields generalizing position with
  | nil => exact ⟨position, rfl⟩
  | cons f fs ih =>
    obtain ⟨next, h⟩ := ih (position + f.width)
    exact ⟨next, by rw [List.cons_append, entriesFrom, h, entriesFrom, List.append_assoc]⟩

/-- A member with a name is the same member when it is a field of its own. -/
theorem entries_toField {position : Nat} {fields : List Field} {e : FieldEntry}
    (he : e ∈ entriesFrom .member position fields) (hname : isBlank e.name = false) (next : Nat) :
    e.toField.entries .member next = [e] := by
  have hne : e.name ≠ "_" := by simpa [isBlank] using hname
  have hkey := key_eq_name he hname
  have hmember : e.toField.members .member next = [(e.name, e.embedded)] := by
    induction fields generalizing position with
    | nil => simp [entriesFrom] at he
    | cons f fs ih =>
      rw [entriesFrom, List.mem_append] at he
      rcases he with he | he
      · obtain ⟨i, m, hm, rfl⟩ := mem_entries.1 he
        have hm := List.mem_of_getElem? hm
        unfold members at hm
        split at hm
        · -- The name of an embedded member is implied by its type, which stays.
          rw [List.mem_singleton.1 hm]
          rfl
        · obtain ⟨name, -, rfl⟩ := List.mem_map.1 hm
          rfl
      · exact ih he
  rw [entries, hmember, List.mapIdx_singleton, Nat.add_zero, FieldEntry.keyAt_of_ne hne]
  obtain ⟨key, name, embedded, ty, tag⟩ := e
  dsimp only at hkey
  rw [hkey]
  rfl

theorem entriesFrom_map_toField {position : Nat} {fields : List Field} {es : List FieldEntry}
    (hes : ∀ e ∈ es, e ∈ entriesFrom .member position fields)
    (hnames : ∀ e ∈ es, isBlank e.name = false) (next : Nat) :
    entriesFrom .member next (es.map FieldEntry.toField) = es := by
  induction es generalizing next with
  | nil => rfl
  | cons e es ih =>
    obtain ⟨he, hes⟩ := List.forall_mem_cons.1 hes
    obtain ⟨hname, hnames⟩ := List.forall_mem_cons.1 hnames
    rw [List.map_cons, entriesFrom, entries_toField he hname, ih hes hnames]
    rfl

end Field

/-- A blank member has the key of its position. -/
theorem Field.isBlank_eq_false {position : Nat} {fields : List Field} {e : FieldEntry}
    (he : e ∈ entriesFrom .member position fields)
    (hkey : ∀ n, e.key ≠ FieldEntry.keyAt n "_") : isBlank e.name = false := by
  induction fields generalizing position with
  | nil => simp [entriesFrom] at he
  | cons f fs ih =>
    rw [entriesFrom, List.mem_append] at he
    rcases he with he | he
    · obtain ⟨i, m, -, rfl⟩ := mem_entries.1 he
      by_contra hblank
      have hname : m.1 = "_" := by simpa [isBlank] using hblank
      exact hkey (position + i) (by rw [hname])
    · exact ih he

theorem Expr.compare_symm {x y : Expr} (hx : ∀ s ∈ x.sites, s.Unhashed)
    (hy : ∀ s ∈ y.sites, s.Unhashed) (h : x.compare y = none) : y.compare x = none := by
  obtain ⟨hleft, hright, hsame⟩ := (x.decides_compare y hx hy).1 h
  exact (y.decides_compare x hy hx).2 ⟨hright, hleft, hsame.symm⟩

theorem Expr.compare_self {x : Expr} (hx : ∀ s ∈ x.sites, s.Unhashed)
    (hclean : ∀ s ∈ x.sites, s.Clean) : x.compare x = none :=
  (x.decides_compare x hx hx).2 ⟨hclean, hclean, rfl⟩

namespace Comparison

variable {role : FieldRole} {a b : List Field} {shared : FieldSet → Comparison}
  {left right : FieldSet}

/-- Field lists whose shared members agree are compared by the keys that only one of them has. -/
theorem fieldSets_eq (hleft : FieldSet.ofFields role a = .ok left)
    (hright : FieldSet.ofFields role b = .ok right) (hshared : shared right = none) :
    fieldSets role a b shared =
      let missing := left.keys.filter (· ∉ right.keys)
      let added := right.keys.filter (· ∉ left.keys)
      if missing ≠ [] then
        some (.mismatch ("members missing from incoming side: " ++ Layout.commaSep missing))
      else if added ≠ [] then some (.additional missing added)
      else none := by
  have hempty : ∀ keys : List String, (!keys.isEmpty) = decide (keys ≠ []) := by
    intro keys
    cases keys <;> rfl
  simp only [fieldSets, hleft, hright, hshared, FieldSet.not_contains, hempty, decide_eq_true_eq]
  rfl

end Comparison

namespace Field

variable {a b : List Field} {left right : FieldSet}

/-- The members of `a` are all in `b` and agree with it, and `b` has more. -/
structure OnlyAdds (a b : List Field) (left right : FieldSet) : Prop where
  left_eq : FieldSet.ofFields .member a = .ok left
  right_eq : FieldSet.ofFields .member b = .ok right
  shared : ∀ e ∈ left.entries, ∀ e', right.get? e.key = some e' → e.Agrees e'
  missing : left.keys.filter (· ∉ right.keys) = []
  added : right.keys.filter (· ∉ left.keys) ≠ []

theorem exists_onlyAdds {missing added : List String}
    (h : compareLists a b = some (.additional missing added)) :
    ∃ left right, OnlyAdds a b left right ∧ missing = [] ∧
      added = right.keys.filter (· ∉ left.keys) := by
  obtain ⟨left, right, hleft, hright, hshared, -, -⟩ :=
    exists_of_fieldSets (fun other => plain_compareAll .member 0 other a) h
  rw [compareLists, fieldSets_eq hleft hright hshared] at h
  dsimp only at h
  split_ifs at h with hmissing hadded
  · simp at h
  · have hmissing := not_ne_iff.1 hmissing
    obtain ⟨hnone, hmore⟩ := Difference.additional.inj (Option.some.inj h)
    rw [compareAll_eq_none_iff, ← FieldSet.entries_of_ofFields hleft] at hshared
    exact ⟨left, right, ⟨hleft, hright, hshared, hmissing, hadded⟩, hnone.symm.trans hmissing,
      hmore.symm⟩

namespace OnlyAdds

/-- Seen from the other side, members are missing. -/
theorem exists_mismatch (h : OnlyAdds a b left right) (ha : (Node.fields a).Unhashed)
    (hb : (Node.fields b).Unhashed) : ∃ reason, compareLists b a = some (.mismatch reason) := by
  have hright := FieldSet.nodup_keys_of_ofFields h.right_eq hb
  have hasha := (forall_mem_sitesAll .member 0 a).1 (List.forall_mem_cons.1 ha).2
  have hashb := (forall_mem_sitesAll .member 0 b).1 (List.forall_mem_cons.1 hb).2
  rw [← FieldSet.entries_of_ofFields h.left_eq] at hasha
  rw [← FieldSet.entries_of_ofFields h.right_eq] at hashb
  have hshared : compareAll .member 0 left b = none := by
    rw [compareAll_eq_none_iff, ← FieldSet.entries_of_ofFields h.right_eq]
    intro e he e' hget
    obtain ⟨he', hkey⟩ := FieldSet.mem_of_get? hget
    have hback : right.get? e'.key = some e := hkey ▸ FieldSet.get?_key hright he
    obtain ⟨hembedded, htag, hty⟩ := h.shared e' he' e hback
    exact ⟨hembedded.symm, htag.symm, Expr.compare_symm (hasha e' he') (hashb e he) hty⟩
  rw [compareLists, fieldSets_eq h.right_eq h.left_eq hshared]
  dsimp only
  rw [if_pos h.added]
  exact ⟨_, rfl⟩

/-- The left list with the added members at its end. -/
theorem ofFields_append (h : OnlyAdds a b left right) (ha : (Node.fields a).Unhashed)
    (hb : (Node.fields b).Unhashed) (hblank : ∀ e ∈ left.beyond right, isBlank e.name = false) :
    FieldSet.ofFields .member (a ++ (left.beyond right).map FieldEntry.toField) =
      .ok (.ofEntries (left.entries ++ left.beyond right)) := by
  have hmem : ∀ e ∈ left.beyond right, e ∈ entriesFrom .member 0 b := by
    intro e he
    rw [← FieldSet.entries_of_ofFields h.right_eq]
    exact List.mem_of_mem_filter he
  obtain ⟨next, hentries⟩ :=
    entriesFrom_append .member 0 a ((left.beyond right).map FieldEntry.toField)
  rw [entriesFrom_map_toField hmem hblank, ← FieldSet.entries_of_ofFields h.left_eq] at hentries
  have hnodup : ((left.entries ++ left.beyond right).map (·.key)).Nodup := by
    rw [List.map_append, FieldSet.map_key_beyond]
    have hleft := FieldSet.nodup_keys_of_ofFields h.left_eq ha
    have hright := FieldSet.nodup_keys_of_ofFields h.right_eq hb
    refine hleft.append (hright.filter _) fun key hkey hmore => ?_
    exact of_decide_eq_true (List.mem_filter.1 hmore).2 hkey
  rw [FieldSet.ofFields_of_nodup (hentries ▸ hnodup), hentries]

/-- With the added members at its end, the left list is equal to the right one. -/
theorem compareLists_append (h : OnlyAdds a b left right) (ha : (Node.fields a).Unhashed)
    (hb : (Node.fields b).Unhashed) (hblank : ∀ e ∈ left.beyond right, isBlank e.name = false)
    (hclean : ∀ e ∈ left.beyond right, (Node.expr e.ty).Clean) :
    compareLists (a ++ (left.beyond right).map FieldEntry.toField) b = none := by
  have hwide := h.ofFields_append ha hb hblank
  have hashb := (forall_mem_sitesAll .member 0 b).1 (List.forall_mem_cons.1 hb).2
  rw [← FieldSet.entries_of_ofFields h.right_eq] at hashb
  have hshared : compareAll .member 0 right
      (a ++ (left.beyond right).map FieldEntry.toField) = none := by
    rw [compareAll_eq_none_iff, ← FieldSet.entries_of_ofFields hwide]
    refine List.forall_mem_append.2 ⟨h.shared, fun e he e' hget => ?_⟩
    -- An added member meets itself.
    have hmem := List.mem_of_mem_filter he
    rw [FieldSet.get?_key (FieldSet.nodup_keys_of_ofFields h.right_eq hb) hmem] at hget
    obtain rfl := Option.some.inj hget
    exact ⟨rfl, rfl, Expr.compare_self (hashb e hmem) (hclean e he)⟩
  have hkeys : ∀ key, key ∈ (FieldSet.ofEntries (left.entries ++ left.beyond right)).keys ↔
      key ∈ right.keys := by
    have hsub : ∀ key ∈ left.keys, key ∈ right.keys := by
      simpa [List.filter_eq_nil_iff] using h.missing
    intro key
    rw [FieldSet.keys_ofEntries, List.map_append, FieldSet.map_key_beyond, List.mem_append,
      List.mem_filter, decide_eq_true_eq]
    constructor
    · rintro (hkey | hkey)
      · exact hsub key hkey
      · exact hkey.1
    · intro hkey
      by_cases hold : key ∈ left.keys
      · exact .inl hold
      · exact .inr ⟨hkey, hold⟩
  rw [compareLists, fieldSets_eq hwide h.right_eq hshared]
  simp [List.filter_eq_nil_iff, hkeys]

end OnlyAdds

end Field

/-! ## Added members of a node -/

/-- The struct or interface type with more members at the end. -/
def Expr.addMembers (more : List Field) : Expr → Expr
  | .structType fields incomplete => .structType (fields ++ more) incomplete
  | .interfaceType methods incomplete => .interfaceType (methods ++ more) incomplete
  | x => x

namespace Node

/-- The member list of a struct type, an interface type, a type declared as one, or the list
itself. -/
def members? : Node → Option (List Field)
  | expr x => x.members?
  | typeSpec spec => spec.ty.members?
  | fields list => some list
  | _ => none

/-- The node with more members at the end of its member list. -/
def addMembers (more : List Field) : Node → Node
  | expr x => expr (x.addMembers more)
  | typeSpec spec => typeSpec { spec with ty := spec.ty.addMembers more }
  | fields list => fields (list ++ more)
  | a => a

/-- The node `b` has all that `a` has, and its member list has more. -/
structure OnlyAdds (a b : Node) (missing added : List String) (left right : FieldSet) : Prop where
  left_eq : ∃ list, a.members? = some list ∧ FieldSet.ofFields .member list = .ok left
  right_eq : ∃ list, b.members? = some list ∧ FieldSet.ofFields .member list = .ok right
  missing_eq : missing = []
  added_ne : added ≠ []
  added_eq : added = right.keys.filter (· ∉ left.keys)
  reverse : ∃ reason, b.compare a = some (.mismatch reason)
  widened : (∀ key ∈ added, ∀ position, key ≠ FieldEntry.keyAt position "_") →
    (∀ e ∈ left.beyond right, (expr e.ty).Clean) →
      (a.addMembers ((left.beyond right).map FieldEntry.toField)).compare b = none

variable {a b a' b' : Node} {missing added : List String} {left right : FieldSet}

/-- Nodes that are compared as the nodes of their member lists are. -/
theorem OnlyAdds.congr (h : OnlyAdds a b missing added left right)
    (ha : a'.members? = a.members?) (hb : b'.members? = b.members?)
    (hreverse : b'.compare a' = b.compare a)
    (hwidened : ∀ more, (a'.addMembers more).compare b' = (a.addMembers more).compare b) :
    OnlyAdds a' b' missing added left right where
  left_eq := ha ▸ h.left_eq
  right_eq := hb ▸ h.right_eq
  missing_eq := h.missing_eq
  added_ne := h.added_ne
  added_eq := h.added_eq
  reverse := hreverse ▸ h.reverse
  widened := fun hkeys hclean => (hwidened _).trans (h.widened hkeys hclean)

theorem exists_onlyAdds_fields {list list' : List Field} (ha : (fields list).Unhashed)
    (hb : (fields list').Unhashed)
    (h : Field.compareLists list list' = some (.additional missing added)) :
    ∃ left right, OnlyAdds (fields list) (fields list') missing added left right := by
  obtain ⟨left, right, hadds, rfl, rfl⟩ := Field.exists_onlyAdds h
  refine ⟨left, right, ⟨list, rfl, hadds.left_eq⟩, ⟨list', rfl, hadds.right_eq⟩, rfl, hadds.added,
    rfl, hadds.exists_mismatch ha hb, fun hkeys hclean => ?_⟩
  refine hadds.compareLists_append ha hb (fun e he => ?_) hclean
  have hmem : e ∈ Field.entriesFrom .member 0 list' :=
    FieldSet.entries_of_ofFields hadds.right_eq ▸ List.mem_of_mem_filter he
  refine Field.isBlank_eq_false hmem (hkeys e.key ?_)
  rw [← FieldSet.map_key_beyond]
  exact List.mem_map_of_mem he

theorem exists_onlyAdds_expr {x y : Expr} (hx : (expr x).Unhashed) (hy : (expr y).Unhashed)
    (h : x.compare y = some (.additional missing added)) :
    ∃ left right, OnlyAdds (expr x) (expr y) missing added left right := by
  -- Struct and interface types are compared as their member lists if both are complete.
  have hlists : ∀ {list list' : List Field} {incomplete incomplete' : Bool} {what : String},
      (∀ s ∈ Site.flag incomplete ++ (fields list).sites, s.Unhashed) →
      (∀ s ∈ Site.flag incomplete' ++ (fields list').sites, s.Unhashed) →
      (require (!incomplete && !incomplete') what <|> Field.compareLists list list') =
        some (.additional missing added) →
      (incomplete = false ∧ incomplete' = false) ∧
        ∃ left right, OnlyAdds (fields list) (fields list') missing added left right := by
    intro list list' incomplete incomplete' what ha hb h
    obtain ⟨hcomplete, h⟩ := (plain_require _ _).eq_of_orElse h
    refine ⟨by simpa [require] using hcomplete, ?_⟩
    exact exists_onlyAdds_fields (List.forall_mem_append.1 ha).2 (List.forall_mem_append.1 hb).2 h
  cases hmembers : x.members? with
  | none => exact absurd h (Expr.plain_compare hmembers y missing added)
  | some list =>
    cases x with
    | structType list incomplete =>
      cases y with
      | structType list' incomplete' =>
        obtain ⟨⟨rfl, rfl⟩, left, right, hadds⟩ := hlists hx hy h
        exact ⟨left, right, hadds.congr rfl rfl rfl fun _ => rfl⟩
      | _ => exact absurd h (plain_of_adds rfl missing added)
    | interfaceType list incomplete =>
      cases y with
      | interfaceType list' incomplete' =>
        obtain ⟨⟨rfl, rfl⟩, left, right, hadds⟩ := hlists hx hy h
        exact ⟨left, right, hadds.congr rfl rfl rfl fun _ => rfl⟩
      | _ => exact absurd h (plain_of_adds rfl missing added)
    | _ => simp [Expr.members?] at hmembers

theorem exists_onlyAdds_typeSpec {spec spec' : TypeSpec} (ha : (typeSpec spec).Unhashed)
    (hb : (typeSpec spec').Unhashed)
    (h : spec.compare spec' = some (.additional missing added)) :
    ∃ left right, OnlyAdds (typeSpec spec) (typeSpec spec') missing added left right := by
  obtain ⟨name, typeParams, isAlias, ty⟩ := spec
  obtain ⟨name', typeParams', isAlias', ty'⟩ := spec'
  obtain ⟨hparamsa, htya⟩ := List.forall_mem_append.1 ha
  obtain ⟨hparamsb, htyb⟩ := List.forall_mem_append.1 hb
  obtain ⟨hname, hrest⟩ := (plain_require _ _).eq_of_orElse h
  obtain ⟨halias, hrest⟩ := (plain_require _ _).eq_of_orElse hrest
  obtain ⟨hparams, hty⟩ := (plain_within _ _).eq_of_orElse hrest
  obtain rfl : name = name' := by simpa using hname
  obtain rfl : isAlias = isAlias' := by simpa using halias
  have hdecides := @Field.decides_fieldSetsOpt typeParams typeParams'
    fun f _ => f.ty.decides_compare
  have hdecides' := @Field.decides_fieldSetsOpt typeParams' typeParams
    fun f _ => f.ty.decides_compare
  have hparams := within_eq_none.1 hparams
  obtain ⟨hcleana, hcleanb, hsame⟩ := (hdecides hparamsa hparamsb).1 hparams
  have hparams' := (hdecides' hparamsb hparamsa).2 ⟨hcleanb, hcleana, hsame.symm⟩
  obtain ⟨left, right, hadds⟩ := exists_onlyAdds_expr htya htyb hty
  refine ⟨left, right, hadds.congr rfl rfl ?_ fun more => ?_⟩
  · simp [compare, TypeSpec.compare, hparams', names, require, Comparison.within]
  · simp [compare, addMembers, TypeSpec.compare, hparams, names, require, Comparison.within]

/-- Added members are reported from the root of a comparison only, and never of a function, a value
specification, a declaration group or a block. Where they are, they are the members that only the
right side has, in its order; the reverse comparison is a mismatch; and the left side with these
members at its end is equal to the right side. -/
theorem compare_additional :
    (∀ f b, Plain ((func f).compare b)) ∧ (∀ spec b, Plain ((valueSpec spec).compare b)) ∧
      (∀ g b, Plain ((group g).compare b)) ∧ (∀ list b, Plain ((block list).compare b)) ∧
      ∀ a b : Node, (∀ s, a ≠ stmt s) → a.Unhashed → b.Unhashed → ∀ missing added,
        a.compare b = some (.additional missing added) →
          ∃ left right, OnlyAdds a b missing added left right := by
  have hfunc : ∀ f b, Plain ((func f).compare b) := by
    intro f b
    cases b with
    | func g => exact f.plain_compare g
    | _ => exact plain_of_adds rfl
  have hvalue : ∀ spec b, Plain ((valueSpec spec).compare b) := by
    intro spec b
    cases b with
    | valueSpec spec' => exact spec.plain_compare spec'
    | _ => exact plain_of_adds rfl
  have hgroup : ∀ g b, Plain ((group g).compare b) := by
    intro g b
    cases b with
    | group g' => exact g.plain_compare g'
    | _ => exact plain_of_adds rfl
  have hblock : ∀ list b, Plain ((block list).compare b) := by
    intro list b
    cases b with
    | block list' => exact plain_lists fun _ => Stmt.plain_compareFrom _ _ _ _
    | _ => exact plain_of_adds rfl
  refine ⟨hfunc, hvalue, hgroup, hblock, fun a b hstmt ha hb missing added h => ?_⟩
  cases a with
  | stmt s => exact absurd rfl (hstmt s)
  | func f => exact absurd h (hfunc f b missing added)
  | valueSpec spec => exact absurd h (hvalue spec b missing added)
  | group g => exact absurd h (hgroup g b missing added)
  | block list => exact absurd h (hblock list b missing added)
  | expr x =>
    cases b with
    | expr y => exact exists_onlyAdds_expr ha hb h
    | _ => exact absurd h (plain_of_adds rfl missing added)
  | typeSpec spec =>
    cases b with
    | typeSpec spec' => exact exists_onlyAdds_typeSpec ha hb h
    | _ => exact absurd h (plain_of_adds rfl missing added)
  | fields list =>
    cases b with
    | fields list' => exact exists_onlyAdds_fields ha hb h
    | _ => exact absurd h (plain_of_adds rfl missing added)

/-- A generic struct that gains a name within a group, a tagged and an embedded member. -/
theorem compare_additional_generic :
    let int := Expr.ident "int"
    let declare := fun list : List Field =>
      typeSpec ⟨"T", some [⟨["P"], .ident "any", none⟩], false, .structType list false⟩
    let shared : Field := ⟨["x", "_"], int, none⟩
    let tagged : Field := ⟨["z"], .ident "P", some ⟨.string, "`json`"⟩⟩
    let embedded : Field := ⟨[], .star (.selector (.ident "p") "E"), none⟩
    let a := declare [shared]
    let b := declare [⟨["y", "_", "x"], int, none⟩, tagged, embedded]
    (a.Unhashed ∧ b.Unhashed) ∧ a.compare b = some (.additional [] ["y", "z", "E"]) ∧
      (∃ reason, b.compare a = some (.mismatch reason)) ∧
      (declare [shared, ⟨["y"], int, none⟩, tagged, embedded]).compare b = none := by
  intro int declare shared tagged embedded a b
  have ha : a.Unhashed := by decide
  have hb : b.Unhashed := by decide
  have hcompare : a.compare b = some (.additional [] ["y", "z", "E"]) := by decide +kernel
  obtain ⟨left, right, h⟩ := compare_additional.2.2.2.2 a b nofun ha hb _ _ hcompare
  refine ⟨⟨ha, hb⟩, hcompare, h.reverse, ?_⟩
  obtain ⟨_, hlist, hleft⟩ := h.left_eq
  obtain ⟨_, hlist', hright⟩ := h.right_eq
  obtain rfl := Option.some.inj hlist
  obtain rfl := Option.some.inj hlist'
  rw [FieldSet.ofFields_of_nodup (by decide)] at hleft hright
  obtain rfl := Except.ok.inj hleft
  obtain rfl := Except.ok.inj hright
  have hash : ∀ key ∈ ["y", "z", "E"], '#' ∉ key.toList := by decide
  have hwidened := h.widened
    (fun key hkey position heq => hash key hkey (heq ▸ hash_mem_toList "_" position)) (by decide)
  have hmore : (FieldSet.beyond (.ofEntries (Field.entriesFrom .member 0 [shared]))
      (.ofEntries (Field.entriesFrom .member 0
        [⟨["y", "_", "x"], int, none⟩, tagged, embedded]))).map FieldEntry.toField =
      [⟨["y"], int, none⟩, tagged, embedded] := by
    with_unfolding_all rfl
  rw [hmore] at hwidened
  exact hwidened

end Node

end GoWeave
