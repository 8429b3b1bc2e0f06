import GoWeave.Proofs.Declaration.Slots
import GoWeave.Proofs.Tagging

/-!
# Heads of declarations

A head is what identifies one declared name: its kind and its name, with the receiver for a method.
The keys of a list of declarations are those of its heads, and looking a key up finds the first head
that bears it. The collected entries are the heads that come first for their key.
-/
namespace GoWeave

inductive Head where
  | type (name : String) (isStruct : Bool)
  | value (name : String)
  | func (name : String)
  /-- The receiver is absent if its type has no name at the root. -/
  | method (recv : Option String) (name : String)
  deriving DecidableEq, Repr

namespace Head

def key? : Head → Option String
  | type name _ => if isBlank name then none else some name
  | value name => if isBlank name then none else some name
  | func name => if isBlank name || name == "init" then none else some name
  | method recv name => if isBlank name then none else recv.map fun recv => recv ++ "." ++ name

/-- The name of a type, a value or a plain function. -/
def plain? : Head → Option String
  | type name _ => some name
  | value name => some name
  | func name => some name
  | method .. => none

def isMethod : Head → Bool
  | method .. => true
  | _ => false

/-- The identifiers that a head is made of. -/
def parts : Head → List String
  | type name _ => [name]
  | value name => [name]
  | func name => [name]
  | method recv name => recv.toList ++ [name]

/-- The first head that bears a key. -/
def first? (key : String) (hs : List Head) : Option Head :=
  hs.find? fun h => h.key? == some key

theorem plain?_of_key? {h : Head} {key : String} (hk : h.key? = some key)
    (hm : h.isMethod = false) : h.plain? = some key ∧ key ≠ "_" := by
  cases h with
  | type name isStruct => by_cases hb : name = "_" <;> simp_all [key?, plain?, isBlank]
  | value name => by_cases hb : name = "_" <;> simp_all [key?, plain?, isBlank]
  | func name => by_cases hb : name = "_" <;> simp_all [key?, plain?, isBlank]
  | method recv name => simp [isMethod] at hm

theorem mem_parts_of_plain? {h : Head} {name : String} (hname : h.plain? = some name) :
    name ∈ h.parts := by
  cases h <;> simp_all [plain?, parts]

theorem mem_of_first? {key : String} {hs : List Head} {h : Head} (hfirst : first? key hs = some h) :
    h ∈ hs ∧ h.key? = some key :=
  ⟨List.mem_of_find?_eq_some hfirst, by simpa using List.find?_some hfirst⟩

theorem first?_cons (key : String) (h : Head) (hs : List Head) :
    first? key (h :: hs) = if h.key? = some key then some h else first? key hs := by
  rw [first?, List.find?_cons, first?]
  by_cases hk : h.key? = some key
  · simp [hk]
  · rw [if_neg hk, (by simpa using hk : (h.key? == some key) = false)]

/-- Among heads with distinct keys the one that bears a key is the first that does. -/
theorem first?_of_nodup {key : String} {hs : List Head} (hnodup : (hs.filterMap key?).Nodup)
    {h : Head} (hh : h ∈ hs) (hkey : h.key? = some key) : first? key hs = some h := by
  induction hs with
  | nil => simp at hh
  | cons b hs ih =>
    rw [first?_cons]
    rcases List.mem_cons.1 hh with rfl | hh
    · rw [if_pos hkey]
    · have hne : b.key? ≠ some key := by
        intro hb
        rw [List.filterMap_cons, hb, List.nodup_cons] at hnodup
        exact hnodup.1 (List.mem_filterMap.2 ⟨h, hh, hkey⟩)
      rw [if_neg hne]
      refine ih (hnodup.sublist ?_) hh
      exact (List.sublist_cons_self b hs).filterMap key?

theorem method_of_key? {h : Head} {key : String} (hk : h.key? = some key)
    (hm : h.isMethod = true) :
    ∃ recv name, h = method (some recv) name ∧ name ≠ "_" ∧ key = recv ++ "." ++ name := by
  cases h with
  | type name isStruct => simp [isMethod] at hm
  | value name => simp [isMethod] at hm
  | func name => simp [isMethod] at hm
  | method recv name =>
    simp only [key?, Option.ite_none_left_eq_some, Option.map_eq_some_iff] at hk
    obtain ⟨hname, r, rfl, rfl⟩ := hk
    exact ⟨r, name, rfl, by simpa [isBlank] using hname, rfl⟩

theorem dotted_of_isMethod {h : Head} {key : String} (hk : h.key? = some key)
    (hm : h.isMethod = true) : Dotted key := by
  obtain ⟨recv, name, -, -, rfl⟩ := method_of_key? hk hm
  simp [dotted_append, dotted_dot]

theorem isBlank_of_key? {h : Head} {key : String} (hk : h.key? = some key) :
    isBlank key = false := by
  have hne : key ≠ "_" := by
    cases hm : h.isMethod with
    | false => exact (plain?_of_key? hk hm).2
    | true =>
      rintro rfl
      exact absurd (dotted_of_isMethod hk hm) (by decide)
  simpa [isBlank] using hne

end Head

/-! ## The heads of a tree -/

def FuncDecl.head (f : FuncDecl) : Head :=
  if f.recv.isSome then .method f.receiverName? f.name else .func f.name

def Spec.heads : Spec → List Head
  | .imported _ => []
  | .type t => [.type t.name t.ty.isStructType]
  | .value v => v.names.map .value

def Decl.heads : Decl → List Head
  | .bad _ => []
  | .func f => [f.head]
  | .group g => if g.tok = .import_ then [] else g.specs.flatMap Spec.heads

/-- The heads of a list of declarations, in source order. -/
def Decl.headsAll (decls : List Decl) : List Head :=
  decls.flatMap Decl.heads

@[simp] theorem Decl.headsAll_cons (d : Decl) (ds : List Decl) :
    Decl.headsAll (d :: ds) = d.heads ++ Decl.headsAll ds := rfl

@[simp] theorem Decl.headsAll_append (ds es : List Decl) :
    Decl.headsAll (ds ++ es) = Decl.headsAll ds ++ Decl.headsAll es :=
  List.flatMap_append

/-- The head of one keyed declaration. -/
def Declared.head : Declared → Head
  | .func f => f.head
  | .type spec => .type spec.name spec.ty.isStructType
  | .value _ spec _ => .value (spec.names.headD "_")

@[simp] theorem FuncDecl.key?_head (f : FuncDecl) : f.head.key? = f.key? := by
  unfold FuncDecl.head FuncDecl.key?
  cases hrecv : f.recv with
  | none => by_cases h : isBlank f.name <;> simp [Head.key?, h]
  | some fields => simp [Head.key?]

theorem FuncDecl.isMethod_head (f : FuncDecl) : f.head.isMethod = f.recv.isSome := by
  unfold FuncDecl.head
  cases f.recv <;> rfl

/-- The head of a method, under its own name and under any other. -/
theorem FuncDecl.head_of_method {f : FuncDecl} (hf : f.head.isMethod = true) (name : String) :
    f.head = .method f.receiverName? f.name ∧
      ({ f with name } : FuncDecl).head = .method f.receiverName? name := by
  rw [isMethod_head] at hf
  unfold FuncDecl.head
  simp only [hf, if_true]
  exact ⟨trivial, rfl⟩

theorem Spec.map_fst_slots (s : Spec) (i j : Nat) :
    (s.slots i j).map (·.1) = s.heads.filterMap Head.key? := by
  cases s with
  | imported spec => rfl
  | type t =>
    simp only [slots, heads, Head.key?]
    by_cases h : isBlank t.name <;> simp [h, Head.key?]
  | value v =>
    have hfst : v.names = v.names.zipIdx.map (·.1) := by simp
    simp only [slots, heads, List.map_filterMap, List.filterMap_map]
    conv_rhs => rw [hfst, List.filterMap_map]
    congr 1
    funext p
    by_cases h : isBlank p.1 <;> simp [h, Head.key?]

namespace Decl

theorem map_fst_slots (d : Decl) (i : Nat) :
    (d.slots i).map (·.1) = d.heads.filterMap Head.key? := by
  cases d with
  | bad node => rfl
  | func f => cases h : f.key? <;> simp [slots, heads, h]
  | group g =>
    simp only [slots, heads]
    split
    · rfl
    · have hfst : g.specs = g.specs.zipIdx.map (·.1) := by simp
      rw [List.map_flatMap, List.filterMap_flatMap]
      conv_rhs => rw [hfst, List.flatMap_map]
      congr 1
      funext p
      exact p.1.map_fst_slots i p.2

theorem keys_eq (decls : List Decl) : keys decls = (headsAll decls).filterMap Head.key? := by
  suffices h : ∀ n, (slotsFrom n decls).map (·.1) = (headsAll decls).filterMap Head.key? by
    rw [keys, slotsIn_all, h]
  induction decls with
  | nil => intro n; rfl
  | cons d ds ih =>
    intro n
    rw [slotsFrom, List.map_append, map_fst_slots, ih, headsAll_cons, List.filterMap_append]

theorem mem_keys_iff {decls : List Decl} {key : String} :
    key ∈ keys decls ↔ ∃ h ∈ headsAll decls, h.key? = some key := by
  rw [keys_eq, List.mem_filterMap]

end Decl

/-! ## Look-up -/

/-- At a slot stands a declaration with a head. -/
def Decl.Shows (decls : List Decl) (slot : Slot) (h : Head) : Prop :=
  ∃ found, snapshot? decls slot = some found ∧ found.head = h

theorem Head.rel_findSome?_first? {α : Type} {R : Slot → Head → Prop} {key : String}
    {slot? : α → Option Slot} {heads : α → List Head} {xs : List α}
    (h : ∀ x ∈ xs, Option.Rel R (slot? x) (first? key (heads x))) :
    Option.Rel R (xs.findSome? slot?) (first? key (xs.flatMap heads)) := by
  induction xs with
  | nil => exact .none
  | cons x xs ih =>
    have hx := h x List.mem_cons_self
    have hxs := ih fun y hy => h y (List.mem_cons_of_mem x hy)
    rw [List.findSome?_cons, first?, List.flatMap_cons, List.find?_append]
    rw [first?] at hx hxs
    cases hslot : slot? x with
    | none =>
      rw [hslot] at hx
      cases hfirst : (heads x).find? fun h => h.key? == some key with
      | none => simpa using hxs
      | some b => rw [hfirst] at hx; cases hx
    | some slot =>
      rw [hslot] at hx
      cases hfirst : (heads x).find? fun h => h.key? == some key with
      | none => rw [hfirst] at hx; cases hx
      | some b => rw [hfirst] at hx; simpa using hx

theorem List.split_of_idxOf? {key : String} {names : List String} {i : Nat}
    (h : names.idxOf? key = some i) :
    ∃ before after, names = before ++ key :: after ∧ before.length = i ∧ key ∉ before := by
  induction names generalizing i with
  | nil => simp at h
  | cons name names ih =>
    rw [List.idxOf?_cons] at h
    split at h
    · next heq =>
      cases h
      exact ⟨[], names, by simp_all, rfl, by simp⟩
    · next hne =>
      obtain ⟨j, hj, rfl⟩ := Option.map_eq_some_iff.1 h
      obtain ⟨before, after, rfl, rfl, hkey⟩ := ih hj
      have hne : name ≠ key := by simpa using hne
      exact ⟨name :: before, after, rfl, rfl, by simp [hkey, hne.symm]⟩

theorem Head.first?_values {key : String} (hkey : isBlank key = false) (names : List String) :
    first? key (names.map .value) = (names.idxOf? key).map fun _ => .value key := by
  induction names with
  | nil => rfl
  | cons name names ih =>
    rw [first?] at ih
    rw [first?, List.map_cons, List.find?_cons, List.idxOf?_cons, ih]
    by_cases h : name = key
    · subst h
      simp [key?, hkey]
    · have hne : ((value name).key? == some key) = false := by
        by_cases hb : isBlank name <;> simp [key?, hb, h]
      rw [hne, if_neg (by simpa using h : ¬(name == key) = true), Option.map_map]
      rfl

namespace Decl

theorem rel_spec_locate? {decls : List Decl} {g : DeclGroup} {s : Spec} {i j : Nat} {key : String}
    (hkey : isBlank key = false) (hd : decls[i]? = some (.group g)) (hs : g.specs[j]? = some s) :
    Option.Rel (Shows decls) (s.locate? key i j) (Head.first? key s.heads) := by
  cases s with
  | imported spec => exact .none
  | type t =>
    by_cases h : t.name = key
    · subst h
      have hfirst : Head.first? t.name (Spec.type t).heads =
          some (.type t.name t.ty.isStructType) := by
        simp [Head.first?, Spec.heads, Head.key?, hkey]
      rw [hfirst, Spec.locate?, if_pos rfl]
      exact .some ⟨.type t, by simp [snapshot?, typeSpecAt?, hd, hs], rfl⟩
    · have hfirst : Head.first? key (Spec.type t).heads = none := by
        by_cases hb : isBlank t.name <;> simp [Head.first?, Spec.heads, Head.key?, hb, h]
      rw [hfirst, Spec.locate?, if_neg h]
      exact .none
  | value v =>
    rw [Spec.heads, Head.first?_values hkey, Spec.locate?]
    cases hn : v.names.idxOf? key with
    | none => exact .none
    | some n =>
      obtain ⟨before, after, hnames, rfl, -⟩ := List.split_of_idxOf? hn
      have hget : v.names[before.length]? = some key := by simp [hnames]
      exact .some ⟨g.declaredValue j v before.length key, by simp [snapshot?, hd, hs, hget], rfl⟩

theorem rel_locateIn? {decls : List Decl} {d : Decl} {i : Nat} {key : String}
    (hkey : isBlank key = false) (hd : decls[i]? = some d) :
    Option.Rel (Shows decls) (d.locateIn? key i) (Head.first? key d.heads) := by
  cases d with
  | bad node => exact .none
  | func f =>
    rw [locateIn?, heads, Head.first?, List.find?_cons, FuncDecl.key?_head]
    by_cases h : f.key? = some key
    · simp only [h, if_true, beq_self_eq_true]
      exact .some ⟨.func f, by simp [snapshot?, hd], rfl⟩
    · rw [if_neg h, (by simpa using h : (f.key? == some key) = false)]
      exact .none
  | group g =>
    rw [locateIn?, heads]
    split
    · exact .none
    · have hfst : g.specs = g.specs.zipIdx.map (·.1) := by simp
      conv => arg 3; rw [hfst, List.flatMap_map]
      refine Head.rel_findSome?_first? fun p hp => ?_
      exact rel_spec_locate? hkey hd (List.mk_mem_zipIdx_iff_getElem?.1 hp)

/-- Looking up a key finds the slot of the first head that bears it. -/
theorem rel_locate? {key : String} (hkey : isBlank key = false) (decls : List Decl) :
    Option.Rel (Shows decls) (locate? decls key) (Head.first? key (headsAll decls)) := by
  have hfst : decls = decls.zipIdx.map (·.1) := by simp
  rw [locate?, headsAll]
  conv => arg 3; rw [hfst, List.flatMap_map]
  refine Head.rel_findSome?_first? fun p hp => ?_
  exact rel_locateIn? hkey (List.mk_mem_zipIdx_iff_getElem?.1 hp)

theorem locate?_eq_none_iff {key : String} (hkey : isBlank key = false) (decls : List Decl) :
    locate? decls key = none ↔ key ∉ keys decls := by
  have h := rel_locate? hkey decls
  constructor
  · intro hnone
    rw [hnone] at h
    generalize hfirst : Head.first? key (headsAll decls) = first at h
    cases h
    intro hmem
    obtain ⟨b, hb, hbkey⟩ := mem_keys_iff.1 hmem
    exact absurd hbkey (by simpa using List.find?_eq_none.1 hfirst b hb)
  · intro hmem
    generalize locate? decls key = slot at h
    generalize hfirst : Head.first? key (headsAll decls) = first at h
    cases h with
    | none => rfl
    | some _ =>
      have hbkey := List.find?_some hfirst
      exact absurd (mem_keys_iff.2 ⟨_, List.mem_of_find?_eq_some hfirst, by simpa using hbkey⟩) hmem

theorem first?_of_locate? {key : String} (hkey : isBlank key = false) {decls : List Decl}
    {slot : Slot} (h : locate? decls key = some slot) {found : Declared}
    (hfound : snapshot? decls slot = some found) :
    Head.first? key (headsAll decls) = some found.head := by
  have hrel := rel_locate? hkey decls
  rw [h] at hrel
  generalize Head.first? key (headsAll decls) = first at hrel
  cases hrel with
  | some hshows =>
    obtain ⟨found', hfound', rfl⟩ := hshows
    rw [hfound] at hfound'
    cases hfound'
    rfl

end Decl

/-! ## Entries -/

/-- A group of one of the four kinds of declaration that a file has. -/
def Decl.Regular : Decl → Prop
  | .group g => g.tok = .import_ ∨ g.tok = .const ∨ g.tok = .var ∨ g.tok = .type
  | _ => True

instance : (d : Decl) → Decidable d.Regular
  | .group _ => inferInstanceAs (Decidable (_ ∨ _))
  | .bad _ => .isTrue trivial
  | .func _ => .isTrue trivial

/-- The key of a head and whether it is the key of a method. -/
def Head.keyed? (h : Head) : Option (String × Bool) :=
  h.key?.map fun key => (key, h.isMethod)

theorem Spec.isMethod_of_mem_heads {s : Spec} {h : Head} (hh : h ∈ s.heads) :
    h.isMethod = false := by
  cases s with
  | imported spec => simp [heads] at hh
  | type t =>
    rw [heads, List.mem_singleton] at hh
    rw [hh]
    rfl
  | value v =>
    obtain ⟨name, -, rfl⟩ := List.mem_map.1 hh
    rfl

/-- The names that are collected from a spec are the keys of its heads. -/
theorem Spec.keyNames_eq (s : Spec) : s.keyNames = s.heads.filterMap Head.key? := by
  cases s with
  | imported spec => rfl
  | type t => cases hblank : isBlank t.name <;> simp [keyNames, heads, Head.key?, hblank]
  | value v =>
    rw [keyNames, heads, List.filterMap_map]
    induction v.names with
    | nil => rfl
    | cons name names ih =>
      cases hblank : isBlank name <;> simp [Head.key?, hblank, ih]

theorem Spec.map_entries (s : Spec) :
    (s.keyNames.map fun key => (key, false)) = s.heads.filterMap Head.keyed? := by
  have hentry : ∀ h ∈ s.heads, h.keyed? = h.key?.map fun key => (key, false) := by
    intro h hh
    rw [Head.keyed?, isMethod_of_mem_heads hh]
  rw [List.filterMap_congr hentry, ← List.map_filterMap, keyNames_eq]

namespace Decl

theorem map_entries {d : Decl} (hd : d.Regular) :
    (d.entries.map fun e => (e.1, decide (e.2 = .method))) = d.heads.filterMap Head.keyed? := by
  cases d with
  | bad node => rfl
  | func f =>
    cases hkey : f.key? with
    | none => simp [entries, heads, Head.keyed?, hkey]
    | some key =>
      cases hrecv : f.recv.isSome <;>
        simp [entries, heads, Head.keyed?, hkey, FuncDecl.isMethod_head, hrecv]
  | group g =>
    -- The token decides the kind of all keys of the group, and none is a method.
    have hkind : ∀ kind : DeclKind, kind ≠ .method →
        ((g.specs.flatMap fun spec => spec.keyNames.map fun key => (key, kind)).map
          fun e => (e.1, decide (e.2 = .method))) =
            (g.specs.flatMap Spec.heads).filterMap Head.keyed? := by
      intro kind hne
      rw [List.map_flatMap, List.filterMap_flatMap]
      congr 1
      funext s
      rw [List.map_map, ← Spec.map_entries]
      simp [Function.comp_def, hne]
    rcases hd with h | h | h | h
    · simp [entries, heads, h, DeclKind.ofToken?]
    · simpa [entries, heads, h, DeclKind.ofToken?] using hkind .const (by decide)
    · simpa [entries, heads, h, DeclKind.ofToken?] using hkind .var (by decide)
    · simpa [entries, heads, h, DeclKind.ofToken?] using hkind .type (by decide)

theorem map_flatMap_entries {decls : List Decl} (hreg : ∀ d ∈ decls, d.Regular) :
    ((decls.flatMap entries).map fun e => (e.1, decide (e.2 = .method))) =
      (headsAll decls).filterMap Head.keyed? := by
  rw [headsAll, List.map_flatMap, List.filterMap_flatMap]
  exact List.flatMap_congr fun d hd => map_entries (hreg d hd)

theorem mem_firstOfKey {seen : List String} {es : List (String × DeclKind)} {key : String}
    {kind : DeclKind} :
    (key, kind) ∈ firstOfKey seen es ↔ key ∉ seen ∧ es.lookup key = some kind := by
  induction es generalizing seen with
  | nil => simp [firstOfKey]
  | cons e es ih =>
    obtain ⟨k, kd⟩ := e
    rw [firstOfKey]
    by_cases hk : k = key
    · subst hk
      by_cases hseen : k ∈ seen
      · simp [hseen, ih]
      · simp [hseen, ih, eq_comm]
    · rw [List.lookup_cons_of_ne hk]
      have hk' : key ≠ k := fun h => hk h.symm
      split
      · exact ih
      · simp [ih, hk']

theorem nodup_firstOfKey (seen : List String) (es : List (String × DeclKind)) :
    ((firstOfKey seen es).map (·.1)).Nodup := by
  induction es generalizing seen with
  | nil => exact List.nodup_nil
  | cons e es ih =>
    rw [firstOfKey]
    split
    · exact ih seen
    · rw [List.map_cons, List.nodup_cons]
      refine ⟨fun hmem => ?_, ih _⟩
      obtain ⟨p, hp, hpe⟩ := List.mem_map.1 hmem
      have hp : (e.1, p.2) ∈ firstOfKey (e.1 :: seen) es := hpe ▸ hp
      exact (mem_firstOfKey.1 hp).1 List.mem_cons_self

theorem lookup_map_entries (key : String) (es : List (String × DeclKind)) :
    (es.map fun e => (e.1, decide (e.2 = .method))).lookup key =
      (es.lookup key).map fun kind => decide (kind = .method) := by
  induction es with
  | nil => rfl
  | cons e es ih =>
    rw [List.map_cons, List.lookup_cons, List.lookup_cons, ih]
    split <;> rfl

theorem lookup_filterMap_keyed? (key : String) (hs : List Head) :
    (hs.filterMap Head.keyed?).lookup key = (Head.first? key hs).map Head.isMethod := by
  induction hs with
  | nil => rfl
  | cons h hs ih =>
    rw [Head.first?] at ih
    rw [Head.first?, List.find?_cons, List.filterMap_cons, Head.keyed?]
    cases hkey : h.key? with
    | none => simpa using ih
    | some k =>
      by_cases hk : k = key
      · simp [hk]
      · have hne : (some k == some key) = false := by simpa using hk
        rw [hne]
        exact (List.lookup_cons_of_ne hk _ _).trans ih

/-- A key is collected with the kind of the first head that bears it. -/
theorem exists_mem_collect_iff {decls : List Decl} (hreg : ∀ d ∈ decls, d.Regular) {key : String}
    {isMethod : Bool} :
    (∃ kind, (key, kind) ∈ collect decls ∧ decide (kind = .method) = isMethod) ↔
      ∃ h, Head.first? key (headsAll decls) = some h ∧ h.isMethod = isMethod := by
  have hlookup := lookup_map_entries key (decls.flatMap entries)
  rw [map_flatMap_entries hreg, lookup_filterMap_keyed?] at hlookup
  simp only [collect, mem_firstOfKey, List.not_mem_nil, not_false_eq_true, true_and,
    ← Option.map_eq_some_iff]
  rw [hlookup]

theorem kind_ne_method_of_mem_entries {g : DeclGroup} {e : String × DeclKind}
    (h : e ∈ (Decl.group g).entries) : e.2 ≠ .method := by
  simp only [entries] at h
  split at h
  · simp at h
  · next kind hkind =>
    obtain ⟨spec, -, he⟩ := List.mem_flatMap.1 h
    obtain ⟨p, -, rfl⟩ := List.mem_map.1 he
    rintro rfl
    cases htok : g.tok <;> simp [htok, DeclKind.ofToken?] at hkind

theorem ne_func_of_mem_heads {g : DeclGroup} {h : Head} (hh : h ∈ (Decl.group g).heads)
    (name : String) : h ≠ .func name := by
  simp only [heads] at hh
  split at hh
  · simp at hh
  · obtain ⟨spec, -, hh⟩ := List.mem_flatMap.1 hh
    cases spec with
    | imported spec => simp [Spec.heads] at hh
    | type t =>
      rw [Spec.heads, List.mem_singleton] at hh
      simp [hh]
    | value v =>
      obtain ⟨n, -, rfl⟩ := List.mem_map.1 hh
      simp

/-- A key that is collected as a method is not borne first by a plain function, whatever groups
there are. -/
theorem first?_ne_func_of_mem_collect {decls : List Decl} {key : String}
    (h : (key, .method) ∈ collect decls) (name : String) :
    Head.first? key (headsAll decls) ≠ some (.func name) := by
  have hlookup := (mem_firstOfKey.1 h).2
  clear h
  induction decls with
  | nil => simp at hlookup
  | cons d ds ih =>
    rw [List.flatMap_cons, List.lookup_append] at hlookup
    rw [headsAll_cons, Head.first?, List.find?_append]
    cases d with
    | bad node => exact ih hlookup
    | func f =>
      by_cases hkey : f.key? = some key
      · have hrecv : f.recv.isSome = true := by
          simpa [entries, hkey, Option.isSome_iff_ne_none] using hlookup
        have hmethod := f.isMethod_head
        simp only [heads, List.find?_singleton, FuncDecl.key?_head, hkey, beq_self_eq_true, if_true,
          Option.some_or, ne_eq, Option.some.injEq]
        intro hfunc
        rw [hfunc, hrecv] at hmethod
        simp [Head.isMethod] at hmethod
      · have hentries : (Decl.func f).entries.lookup key = none := by
          cases hf : f.key? with
          | none => simp [entries, hf]
          | some k =>
            rw [hf, Option.some.injEq] at hkey
            rw [entries, hf, Option.toList_some, List.map_singleton, List.lookup_cons_of_ne hkey]
            rfl
        rw [hentries, Option.none_or] at hlookup
        simpa [Head.first?, heads, hkey] using ih hlookup
    | group g =>
      cases hfirst : (Decl.group g).heads.find? fun h => h.key? == some key with
      | some b => simpa using ne_func_of_mem_heads (List.mem_of_find?_eq_some hfirst) name
      | none =>
        refine ih ?_
        cases hgroup : (Decl.group g).entries.lookup key with
        | none => simpa [hgroup] using hlookup
        | some kind =>
          rw [hgroup, Option.some_or, Option.some.injEq] at hlookup
          obtain ⟨before, after, heq, -⟩ := List.lookup_eq_some_iff.1 hgroup
          have hmem : (key, kind) ∈ (Decl.group g).entries := by simp [heq]
          exact absurd hlookup (kind_ne_method_of_mem_entries hmem)

end Decl

end GoWeave
