import GoWeave.Proofs.Equivalence.Fields
import Mathlib.Data.List.Nodup

/-!
# Clean trees

A comparison is refused at some places of a tree whatever the other side is: at a bad node, at a
type or literal that is not complete, and at a field list that has a name twice. The sites of a tree
are the places to look at, in one list, and a condition on a tree is a condition on its sites.
-/
namespace GoWeave

/-! ## Keys of a field list -/

/-- The names that a field contributes. An unnamed parameter contributes a place without a name. -/
def Field.labels (role : FieldRole) (f : Field) : List (Option String) :=
  if f.names.isEmpty then
    match role with
    | .member => [some f.ty.impliedName]
    | .param => [none]
  else f.names.map some

/-- The names, written or implied, of the members of a field list. -/
def Field.memberNames (role : FieldRole) (fields : List Field) : List String :=
  (fields.flatMap (labels role)).filterMap id

namespace FieldEntry

/-- The key of a label at a position. -/
def keyOf (position : Nat) : Option String → String
  | some name => keyAt position name
  | none => s!"#{position}"

theorem toList_keyOf_none (n : Nat) : (keyOf n none).toList = '#' :: Nat.toDigits 10 n := by
  rw [← Nat.toList_repr]
  exact String.toList_append

theorem toList_keyOf_blank (n : Nat) :
    (keyOf n (some "_")).toList = '_' :: '#' :: Nat.toDigits 10 n := by
  rw [← Nat.toList_repr]
  exact String.toList_append

theorem keyAt_keyOf_none (n : Nat) : keyAt n (keyOf n none) = keyOf n none := by
  refine keyAt_of_ne (fun h => ?_) n
  have hlist := congrArg String.toList h
  rw [toList_keyOf_none] at hlist
  exact absurd (List.cons.inj hlist).1 (by decide)

theorem toDigits_inj {n n' : Nat} (h : Nat.toDigits 10 n = Nat.toDigits 10 n') : n = n' := by
  rw [← @Nat.ofDigitChars_ten_toDigits n, h, Nat.ofDigitChars_ten_toDigits]

theorem keyOf_name {name : String} (h : isBlank name = false) (n : Nat) :
    keyOf n (some name) = name :=
  keyAt_of_ne (by simpa [isBlank] using h) n

/-- Labels at two positions have one key only if both are the same name, which is not blank. -/
theorem eq_or_of_keyOf {n n' : Nat} {l l' : Option String} (hl : ∀ name ∈ l, '#' ∉ name.toList)
    (hl' : ∀ name ∈ l', '#' ∉ name.toList) (h : keyOf n l = keyOf n' l') :
    n = n' ∨ ∃ name, isBlank name = false ∧ l = some name ∧ l' = some name := by
  have hlist := congrArg String.toList h
  -- A label without a name, a blank and any other name.
  have hcases : ∀ l : Option String, l = none ∨ l = some "_" ∨
      ∃ name, isBlank name = false ∧ l = some name := by
    intro l
    cases l with
    | none => exact .inl rfl
    | some name =>
      cases hname : isBlank name with
      | true => exact .inr (.inl (by rw [eq_of_beq hname]))
      | false => exact .inr (.inr ⟨name, hname, rfl⟩)
  rcases hcases l with rfl | rfl | ⟨name, hname, rfl⟩ <;>
    rcases hcases l' with rfl | rfl | ⟨name', hname', rfl⟩
  · rw [toList_keyOf_none, toList_keyOf_none] at hlist
    exact .inl (toDigits_inj (List.cons.inj hlist).2)
  · rw [toList_keyOf_none, toList_keyOf_blank] at hlist
    exact absurd (List.cons.inj hlist).1 (by decide)
  · rw [toList_keyOf_none, keyOf_name hname'] at hlist
    exact absurd (hlist ▸ List.mem_cons_self) (hl' name' rfl)
  · rw [toList_keyOf_none, toList_keyOf_blank] at hlist
    exact absurd (List.cons.inj hlist).1 (by decide)
  · rw [toList_keyOf_blank, toList_keyOf_blank] at hlist
    exact .inl (toDigits_inj (List.cons.inj (List.cons.inj hlist).2).2)
  · rw [toList_keyOf_blank, keyOf_name hname'] at hlist
    exact absurd (hlist ▸ List.mem_cons_of_mem _ List.mem_cons_self) (hl' name' rfl)
  · rw [toList_keyOf_none, keyOf_name hname] at hlist
    exact absurd (hlist ▸ List.mem_cons_self) (hl name rfl)
  · rw [toList_keyOf_blank, keyOf_name hname] at hlist
    exact absurd (hlist ▸ List.mem_cons_of_mem _ List.mem_cons_self) (hl name rfl)
  · rw [keyOf_name hname, keyOf_name hname'] at h
    exact .inr ⟨name, hname, rfl, by rw [h]⟩

theorem nodup_keyOf {labels : List (Option String)}
    (hnodup : ((labels.filterMap id).filter (!isBlank ·)).Nodup)
    (hash : ∀ name ∈ labels.filterMap id, '#' ∉ name.toList) (n : Nat) :
    ((labels.zipIdx n).map fun p => keyOf p.2 p.1).Nodup := by
  induction labels generalizing n with
  | nil => exact List.nodup_nil
  | cons l labels ih =>
    have hmem : ∀ l' ∈ l :: labels, ∀ name ∈ l', '#' ∉ name.toList := fun l' hl' name hname =>
      hash name (List.mem_filterMap.2 ⟨l', hl', hname⟩)
    have hrest : (labels.filterMap id).Sublist ((l :: labels).filterMap id) :=
      (List.sublist_cons_self l labels).filterMap id
    rw [List.zipIdx_cons, List.map_cons, List.nodup_cons]
    refine ⟨fun hkey => ?_, ih (hnodup.sublist (hrest.filter _))
      (fun name hname => hash name (hrest.subset hname)) (n + 1)⟩
    obtain ⟨⟨l', n'⟩, hl', heq⟩ := List.mem_map.1 hkey
    have hlt : n + 1 ≤ n' := (List.mem_zipIdx hl').1
    have hl' : l' ∈ labels := (List.mem_zipIdx hl').2.2 ▸ List.getElem_mem _
    have hsame := eq_or_of_keyOf (hmem l' (List.mem_cons_of_mem l hl')) (hmem l List.mem_cons_self)
      heq
    rcases hsame with hn | ⟨name, hname, rfl, rfl⟩
    · omega
    · -- The name would be there twice.
      have hcons : (some name :: labels).filterMap id = name :: labels.filterMap id := rfl
      rw [hcons, List.filter_cons_of_pos (by simpa using hname)] at hnodup
      refine (List.nodup_cons.1 hnodup).1 (List.mem_filter.2 ⟨?_, by simpa using hname⟩)
      exact List.mem_filterMap.2 ⟨some name, hl', rfl⟩

end FieldEntry

namespace Field

theorem map_key_entries (role : FieldRole) (position : Nat) (f : Field) :
    (f.entries role position).map (·.key) =
      ((f.labels role).zipIdx position).map fun p => FieldEntry.keyOf p.2 p.1 := by
  unfold entries labels members
  split
  · cases role with
    | member => rfl
    | param => exact congrArg (fun key => [key]) (FieldEntry.keyAt_keyOf_none position)
  · refine List.ext_getElem? fun i => ?_
    simp only [List.getElem?_map, List.getElem?_mapIdx, List.getElem?_zipIdx, Option.map_map]
    cases f.names[i]? <;> rfl

theorem length_labels (role : FieldRole) (f : Field) : (f.labels role).length = f.width := by
  unfold labels width
  split
  · cases role <;> rfl
  · exact List.length_map _

theorem map_key_entriesFrom (role : FieldRole) (position : Nat) (fields : List Field) :
    (entriesFrom role position fields).map (·.key) =
      ((fields.flatMap (labels role)).zipIdx position).map fun p => FieldEntry.keyOf p.2 p.1 := by
  induction fields generalizing position with
  | nil => rfl
  | cons f fs ih =>
    rw [entriesFrom, List.map_append, ih, map_key_entries, List.flatMap_cons, List.zipIdx_append,
      List.map_append, length_labels, Nat.add_comm position]

/-- The key of an entry is made from its name and some position. -/
theorem exists_key_eq_keyAt {role : FieldRole} {position : Nat} {fields : List Field}
    {e : FieldEntry} (he : e ∈ entriesFrom role position fields) :
    ∃ i, e.key = FieldEntry.keyAt i e.name := by
  induction fields generalizing position with
  | nil => cases he
  | cons f fs ih =>
    rw [entriesFrom, List.mem_append] at he
    rcases he with he | he
    · obtain ⟨i, m, -, rfl⟩ := mem_entries.1 he
      exact ⟨position + i, rfl⟩
    · exact ih he

/-- A name that is not blank is its own key. -/
theorem key_eq_name {role : FieldRole} {position : Nat} {fields : List Field} {e : FieldEntry}
    (he : e ∈ entriesFrom role position fields) (hname : isBlank e.name = false) :
    e.key = e.name := by
  obtain ⟨i, hi⟩ := exists_key_eq_keyAt he
  rw [hi, FieldEntry.keyAt_of_ne (by simpa [isBlank] using hname)]

end Field

/-! ## Distinct names -/

/-- No name but the blank one is there twice. -/
def Field.Distinct (role : FieldRole) (fields : List Field) : Prop :=
  ((memberNames role fields).filter (!isBlank ·)).Nodup

/-- No name can be taken for the key of a position. -/
def Field.Unhashed (role : FieldRole) (fields : List Field) : Prop :=
  ∀ name ∈ memberNames role fields, '#' ∉ name.toList

namespace FieldSet

/-- Entries under new and distinct keys can all be entered. -/
theorem extend_eq_ok {s : FieldSet} {es : List FieldEntry}
    (hname : ∀ e ∈ es, isBlank e.name = false → e.key = e.name)
    (hnew : ∀ e ∈ es, e.key ∉ s.keys) (hnodup : (es.map (·.key)).Nodup) :
    ∃ s', s.extend es = .ok s' := by
  induction es generalizing s with
  | nil => exact ⟨s, rfl⟩
  | cons e es ih =>
    obtain ⟨hfirst, hnodup⟩ := List.nodup_cons.1 hnodup
    rw [extend, if_neg]
    · refine ih (fun e' he' => hname e' (List.mem_cons_of_mem e he')) (fun e' he' => ?_) hnodup
      rw [keys_push, List.mem_append, List.mem_singleton, not_or]
      refine ⟨hnew e' (List.mem_cons_of_mem e he'), ?_⟩
      exact fun heq => hfirst (List.mem_map.2 ⟨e', he', heq⟩)
    · intro hrepeated
      simp only [Bool.and_eq_true, Bool.not_eq_true', contains_iff] at hrepeated
      refine hnew e List.mem_cons_self ?_
      rw [hname e List.mem_cons_self hrepeated.1]
      exact hrepeated.2

variable {role : FieldRole} {fields : List Field}

theorem nodup_keys (hdistinct : Field.Distinct role fields) (hash : Field.Unhashed role fields)
    (position : Nat) : ((Field.entriesFrom role position fields).map (·.key)).Nodup := by
  rw [Field.map_key_entriesFrom]
  exact FieldEntry.nodup_keyOf hdistinct hash position

theorem ofFields_of_nodup (h : ((Field.entriesFrom role 0 fields).map (·.key)).Nodup) :
    ofFields role fields = .ok (ofEntries (Field.entriesFrom role 0 fields)) := by
  have hname : ∀ e ∈ Field.entriesFrom role 0 fields, isBlank e.name = false → e.key = e.name :=
    fun _ he => Field.key_eq_name he
  obtain ⟨s, hs⟩ := extend_eq_ok (s := empty) hname (by simp [keys, empty]) h
  rw [ofFields_eq, hs]
  exact congrArg Except.ok (ext (entries_of_extend hs))

theorem ofFields_eq_ok (hdistinct : Field.Distinct role fields)
    (hash : Field.Unhashed role fields) :
    ofFields role fields = .ok (ofEntries (Field.entriesFrom role 0 fields)) :=
  ofFields_of_nodup (nodup_keys hdistinct hash 0)

/-- Each entry is found under its key. -/
theorem get?_key {s : FieldSet} (hnodup : s.keys.Nodup) {e : FieldEntry} (he : e ∈ s.entries) :
    s.get? e.key = some e := by
  have hmem : e.key ∈ s.keys := List.mem_map.2 ⟨e, he, rfl⟩
  obtain ⟨e', he', hget, hkey⟩ := exists_get? hmem
  rw [hget, List.inj_on_of_nodup_map hnodup he' he hkey]

/-- Under distinct keys, an entry is what its key leads to. -/
theorem get?_eq_some_iff {s : FieldSet} (hnodup : s.keys.Nodup) {key : String}
    {e : FieldEntry} : s.get? key = some e ↔ e ∈ s.entries ∧ key = e.key := by
  constructor
  · intro hget
    exact (mem_of_get? hget).imp_right Eq.symm
  · rintro ⟨he, rfl⟩
    exact get?_key hnodup he

end FieldSet

/-- The names of a field list are among the names of its entries, in order. -/
theorem Field.memberNames_sublist (role : FieldRole) (position : Nat) (fields : List Field) :
    (Field.memberNames role fields).Sublist
      ((Field.entriesFrom role position fields).map (·.name)) := by
  have hfield : ∀ (position : Nat) (f : Field),
      ((f.labels role).filterMap id).Sublist ((f.entries role position).map (·.name)) := by
    intro position f
    have hnames : (f.entries role position).map (·.name) =
        (f.members role position).map (·.1) := by
      apply List.ext_getElem?
      simp [Field.entries, Function.comp_def]
    rw [hnames]
    unfold Field.labels Field.members
    split
    · cases role with
      | member => exact .refl _
      | param => exact List.nil_sublist _
    · simp [List.filterMap_map, Function.comp_def]
  induction fields generalizing position with
  | nil => exact .refl _
  | cons f fs ih =>
    unfold Field.memberNames at ih ⊢
    rw [Field.entriesFrom, List.map_append, List.flatMap_cons, List.filterMap_append]
    exact (hfield position f).append (ih (position + f.width))

namespace FieldSet

/-- Entries that could all be entered have names, up to blanks, that are distinct and new. -/
theorem nodup_of_extend {s s' : FieldSet} {es : List FieldEntry}
    (hname : ∀ e ∈ es, isBlank e.name = false → e.key = e.name) (h : s.extend es = .ok s') :
    (∀ name ∈ (es.map (·.name)).filter (!isBlank ·), name ∉ s.keys) ∧
      ((es.map (·.name)).filter (!isBlank ·)).Nodup := by
  induction es generalizing s with
  | nil => simp
  | cons e es ih =>
    rw [extend] at h
    split_ifs at h with hrepeated
    obtain ⟨hkey, hname⟩ := List.forall_mem_cons.1 hname
    obtain ⟨hnew, hnodup⟩ := ih hname h
    simp only [keys_push, List.mem_append, List.mem_singleton, not_or] at hnew
    rw [List.map_cons, List.filter_cons]
    split_ifs with hblank
    · have hblank : isBlank e.name = false := by simpa using hblank
      have hfirst : e.name ∉ s.keys := by simpa [hblank] using hrepeated
      rw [hkey hblank] at hnew
      constructor
      · intro name hmem
        rcases List.mem_cons.1 hmem with rfl | hmem
        · exact hfirst
        · exact (hnew name hmem).1
      · exact List.nodup_cons.2 ⟨fun hmem => (hnew _ hmem).2 rfl, hnodup⟩
    · exact ⟨fun name hmem => (hnew name hmem).1, hnodup⟩

theorem distinct_of_ofFields {role : FieldRole} {fields : List Field} {s : FieldSet}
    (h : ofFields role fields = .ok s) : Field.Distinct role fields := by
  rw [ofFields_eq] at h
  obtain ⟨-, hnodup⟩ := nodup_of_extend (fun _ he => Field.key_eq_name he) h
  exact hnodup.sublist ((Field.memberNames_sublist role 0 fields).filter _)

end FieldSet

/-- Field lists without a difference have distinct names and the same keys. -/
theorem Comparison.fieldSets_eq_none_iff {role : FieldRole} {a b : List Field}
    (ha : Field.Unhashed role a) (hb : Field.Unhashed role b) {shared : FieldSet → Comparison} :
    fieldSets role a b shared = none ↔
      Field.Distinct role a ∧ Field.Distinct role b ∧
        shared (.ofEntries (Field.entriesFrom role 0 b)) = none ∧
        ∀ key, key ∈ (Field.entriesFrom role 0 a).map (·.key) ↔
          key ∈ (Field.entriesFrom role 0 b).map (·.key) := by
  constructor
  · intro h
    obtain ⟨left, right, hagree⟩ := exists_fieldsAgree h
    have hleft := FieldSet.entries_of_ofFields hagree.left_eq
    have hright := FieldSet.entries_of_ofFields hagree.right_eq
    have hkeys := hagree.keys_iff
    rw [FieldSet.keys, FieldSet.keys, hleft, hright] at hkeys
    have hshared := hagree.shared_eq
    rw [show right = .ofEntries (Field.entriesFrom role 0 b) from FieldSet.ext hright] at hshared
    exact ⟨FieldSet.distinct_of_ofFields hagree.left_eq,
      FieldSet.distinct_of_ofFields hagree.right_eq, hshared, hkeys⟩
  · rintro ⟨hleft, hright, hshared, hkeys⟩
    simp only [fieldSets, FieldSet.ofFields_eq_ok hleft ha, FieldSet.ofFields_eq_ok hright hb]
    have hcovered : ∀ es es' : List FieldEntry,
        (∀ key ∈ es.map (·.key), key ∈ es'.map (·.key)) →
          (es.map (·.key)).filter (!(FieldSet.ofEntries es').contains ·) = [] := by
      intro es es' h
      rw [List.filter_eq_nil_iff]
      intro key hkey
      simpa [FieldSet.keys_ofEntries] using h key hkey
    have hmissing := hcovered _ _ fun key => (hkeys key).1
    have hadded := hcovered _ _ fun key => (hkeys key).2
    refine orElse_eq_none.2 ⟨hshared, ?_⟩
    simp only [FieldSet.keys_ofEntries, hmissing, hadded]
    rfl

/-! ## Sites -/

/-- A place at which a comparison may be refused. -/
inductive Site where
  | bad (node : BadNode)
  | incomplete
  | fields (role : FieldRole) (list : List Field)

/-- The site of a type or literal that is flagged as incomplete. -/
def Site.flag (incomplete : Bool) : List Site :=
  if incomplete then [.incomplete] else []

mutual

def Expr.sites : Expr → List Site
  | .bad node => [.bad node]
  | .ident _ => []
  | .ellipsis elt => Expr.sitesOpt elt
  | .literal _ => []
  | .funcLit sig body => sig.sites ++ Stmt.sitesAll body
  | .composite ty elts incomplete =>
    Site.flag incomplete ++ (Expr.sitesOpt ty ++ Expr.sitesAll elts)
  | .paren x => x.sites
  | .selector x _ => x.sites
  | .index x arg => x.sites ++ arg.sites
  | .indexList x args => x.sites ++ Expr.sitesAll args
  | .slice x low high max _ =>
    x.sites ++ (Expr.sitesOpt low ++ (Expr.sitesOpt high ++ Expr.sitesOpt max))
  | .typeAssert x ty => x.sites ++ Expr.sitesOpt ty
  | .call fn args _ => fn.sites ++ Expr.sitesAll args
  | .star x => x.sites
  | .unary _ x => x.sites
  | .binary _ x y => x.sites ++ y.sites
  | .keyValue key value => key.sites ++ value.sites
  | .arrayType len elt => Expr.sitesOpt len ++ elt.sites
  | .structType fields incomplete =>
    Site.flag incomplete ++ .fields .member fields :: Field.sitesAll fields
  | .funcType sig => sig.sites
  | .interfaceType methods incomplete =>
    Site.flag incomplete ++ .fields .member methods :: Field.sitesAll methods
  | .mapType key value => key.sites ++ value.sites
  | .chanType _ value => value.sites

def Expr.sitesOpt : Option Expr → List Site
  | none => []
  | some x => x.sites

def Expr.sitesAll : List Expr → List Site
  | [] => []
  | x :: xs => x.sites ++ Expr.sitesAll xs

/-- The sites in the types of some fields. -/
def Field.sitesAll : List Field → List Site
  | [] => []
  | ⟨_, ty, _⟩ :: fs => ty.sites ++ Field.sitesAll fs

/-- A list of parameters, if there is one, with the sites in their types. -/
def Field.sitesOpt : Option (List Field) → List Site
  | none => []
  | some fields => .fields .param fields :: Field.sitesAll fields

def Signature.sites : Signature → List Site
  | ⟨typeParams, params, results⟩ =>
    Field.sitesOpt typeParams ++
      (.fields .param params :: Field.sitesAll params ++ Field.sitesOpt results)

def Stmt.sites : Stmt → List Site
  | .bad node => [.bad node]
  | .decl group => group.sites
  | .empty => []
  | .labeled _ stmt => stmt.sites
  | .expr x => x.sites
  | .send chan value => chan.sites ++ value.sites
  | .incDec x _ => x.sites
  | .assign lhs _ rhs => Expr.sitesAll lhs ++ Expr.sitesAll rhs
  | .goCall x => x.sites
  | .deferCall x => x.sites
  | .ret results => Expr.sitesAll results
  | .branch .. => []
  | .block list => Stmt.sitesAll list
  | .ifElse init cond body orElse =>
    Stmt.sitesOpt init ++ (cond.sites ++ (Stmt.sitesAll body ++ Stmt.sitesOpt orElse))
  | .switch init tag body => Stmt.sitesOpt init ++ (Expr.sitesOpt tag ++ Clause.sitesAll body)
  | .typeSwitch init guard body => Stmt.sitesOpt init ++ (guard.sites ++ Clause.sitesAll body)
  | .loop init cond post body =>
    Stmt.sitesOpt init ++ (Expr.sitesOpt cond ++ (Stmt.sitesOpt post ++ Stmt.sitesAll body))
  | .range key value _ x body =>
    Expr.sitesOpt key ++ (Expr.sitesOpt value ++ (x.sites ++ Stmt.sitesAll body))

def Stmt.sitesOpt : Option Stmt → List Site
  | none => []
  | some s => s.sites

def Stmt.sitesAll : List Stmt → List Site
  | [] => []
  | s :: ss => s.sites ++ Stmt.sitesAll ss

def Clause.sites : Clause → List Site
  | .matching list body => Expr.sitesAll list ++ Stmt.sitesAll body
  | .otherwise body => Stmt.sitesAll body

def Clause.sitesAll : List Clause → List Site
  | [] => []
  | c :: cs => c.sites ++ Clause.sitesAll cs

def ValueSpec.sites : ValueSpec → List Site
  | ⟨_, ty, values⟩ => Expr.sitesOpt ty ++ Expr.sitesAll values

def TypeSpec.sites : TypeSpec → List Site
  | ⟨_, typeParams, _, ty⟩ => Field.sitesOpt typeParams ++ ty.sites

def Spec.sites : Spec → List Site
  | .imported _ => []
  | .value spec => spec.sites
  | .type spec => spec.sites

def Spec.sitesAll : List Spec → List Site
  | [] => []
  | s :: ss => s.sites ++ Spec.sitesAll ss

def DeclGroup.sites : DeclGroup → List Site
  | ⟨_, specs, _⟩ => Spec.sitesAll specs

end

def FuncDecl.sites (f : FuncDecl) : List Site :=
  Field.sitesOpt f.recv ++ (f.sig.sites ++ Stmt.sitesAll (f.body.getD []))

def Decl.sites : Decl → List Site
  | .bad node => [.bad node]
  | .group g => g.sites
  | .func f => f.sites

/-- Whether a comparison gets past a site: nothing is bad or incomplete, and the keys of a field
list are distinct. -/
def Site.Comparable : Site → Prop
  | .bad _ => False
  | .incomplete => False
  | .fields role list => Field.Distinct role list ∧ Field.Unhashed role list

instance : (s : Site) → Decidable s.Comparable
  | .bad _ => inferInstanceAs (Decidable False)
  | .incomplete => inferInstanceAs (Decidable False)
  | .fields _ _ => inferInstanceAs (Decidable (List.Nodup _ ∧ ∀ _ ∈ _, _))

/-- Nothing is bad or incomplete, and no name of a field list is there twice. -/
def Site.Clean : Site → Prop
  | .bad _ => False
  | .incomplete => False
  | .fields role list => Field.Distinct role list

/-- No name of a field list can be taken for the key of a position. -/
def Site.Unhashed : Site → Prop
  | .bad _ => True
  | .incomplete => True
  | .fields role list => Field.Unhashed role list

instance : (s : Site) → Decidable s.Clean
  | .bad _ => inferInstanceAs (Decidable False)
  | .incomplete => inferInstanceAs (Decidable False)
  | .fields _ _ => inferInstanceAs (Decidable (List.Nodup _))

instance : (s : Site) → Decidable s.Unhashed
  | .bad _ => inferInstanceAs (Decidable True)
  | .incomplete => inferInstanceAs (Decidable True)
  | .fields _ _ => inferInstanceAs (Decidable (∀ _ ∈ _, _))

theorem Site.comparable_iff {s : Site} : s.Comparable ↔ s.Clean ∧ s.Unhashed := by
  cases s <;> simp [Comparable, Clean, Unhashed]

end GoWeave
