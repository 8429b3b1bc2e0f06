import GoWeave.Proofs.Equivalence.Clean
import Mathlib.Data.List.Sort
import Mathlib.Data.String.Basic

/-!
# Normal forms

The normal form of a tree is the same tree with every field list in one shape. Each member of a list
is a field of its own, called by its key, and the fields are in the order of their keys. A list of
receivers, results or type parameters is never absent, and no declaration group has parentheses.
Nothing else changes.
-/
namespace GoWeave

/-! ## Members -/

/-- What a normal form keeps of an entry of a field list. -/
structure Field.Member where
  key : String
  embedded : Bool
  tag : Option Literal
  ty : Expr

namespace Field.Member

/-- The member as a field that is called by its key. An empty name in front tells an embedded member
from one that is called so. -/
def toField (m : Field.Member) : Field :=
  ⟨if m.embedded then ["", m.key] else [m.key], m.ty, m.tag⟩

theorem toField_injective : Function.Injective toField := by
  rintro ⟨key, embedded, tag, ty⟩ ⟨key', embedded', tag', ty'⟩ h
  cases embedded <;> cases embedded' <;> simp_all [toField]

/-- Whether a member stands before another. -/
def Before (m m' : Field.Member) : Prop :=
  m.key ≤ m'.key

instance : DecidableRel Before :=
  fun m m' => inferInstanceAs (Decidable (m.key ≤ m'.key))

instance : Std.Total Before :=
  ⟨fun m m' => le_total m.key m'.key⟩

instance : IsTrans Field.Member Before :=
  ⟨fun m _ _ h h' => le_trans (a := m.key) h h'⟩

end Field.Member

namespace Field

/-- The members as fields, in the order of their keys. -/
def arrange (ms : List Field.Member) : List Field :=
  (ms.insertionSort Member.Before).map Member.toField

/-- Under distinct keys the order of the members does not matter, and nothing else is lost. -/
theorem arrange_eq_iff {ms ms' : List Field.Member} (h : (ms.map (·.key)).Nodup)
    (h' : (ms'.map (·.key)).Nodup) :
    arrange ms = arrange ms' ↔ ∀ m, m ∈ ms ↔ m ∈ ms' := by
  have hsort := fun ms => List.perm_insertionSort Member.Before ms
  constructor
  · intro heq m
    have hsorted := List.map_injective_iff.2 Member.toField_injective heq
    rw [← (hsort ms).mem_iff, hsorted, (hsort ms').mem_iff]
  · intro hmem
    have hperm : (ms.insertionSort Member.Before).Perm (ms'.insertionSort Member.Before) := by
      apply (hsort ms).trans
      apply List.Perm.trans _ (hsort ms').symm
      exact (List.perm_ext_iff_of_nodup h.of_map h'.of_map).2 hmem
    have hsame : ∀ m ∈ ms.insertionSort Member.Before, ∀ m' ∈ ms'.insertionSort Member.Before,
        Member.Before m m' → Member.Before m' m → m = m' := by
      intro m hm m' hm' hle hle'
      rw [List.mem_insertionSort] at hm hm'
      exact List.inj_on_of_nodup_map h hm ((hmem m').2 hm') (le_antisymm hle hle')
    have hpairwise := List.pairwise_insertionSort Member.Before
    unfold arrange
    rw [List.Perm.eq_of_pairwise (fun m m' hm hm' => hsame m hm m' hm') (hpairwise ms)
      (hpairwise ms') hperm]

end Field

/-! ## Normal forms -/

mutual

def Expr.normal : Expr → Expr
  | .bad node => .bad node
  | .ident name => .ident name
  | .ellipsis elt => .ellipsis (Expr.normalOpt elt)
  | .literal value => .literal value
  | .funcLit sig body => .funcLit sig.normal (Stmt.normalAll body)
  | .composite ty elts incomplete =>
    .composite (Expr.normalOpt ty) (Expr.normalAll elts) incomplete
  | .paren x => .paren x.normal
  | .selector x sel => .selector x.normal sel
  | .index x arg => .index x.normal arg.normal
  | .indexList x args => .indexList x.normal (Expr.normalAll args)
  | .slice x low high max three =>
    .slice x.normal (Expr.normalOpt low) (Expr.normalOpt high) (Expr.normalOpt max) three
  | .typeAssert x ty => .typeAssert x.normal (Expr.normalOpt ty)
  | .call fn args spread => .call fn.normal (Expr.normalAll args) spread
  | .star x => .star x.normal
  | .unary op x => .unary op x.normal
  | .binary op x y => .binary op x.normal y.normal
  | .keyValue key value => .keyValue key.normal value.normal
  | .arrayType len elt => .arrayType (Expr.normalOpt len) elt.normal
  | .structType fields incomplete =>
    .structType (Field.arrange (Field.normalMembers .member 0 fields)) incomplete
  | .funcType sig => .funcType sig.normal
  | .interfaceType methods incomplete =>
    .interfaceType (Field.arrange (Field.normalMembers .member 0 methods)) incomplete
  | .mapType key value => .mapType key.normal value.normal
  | .chanType dir value => .chanType dir value.normal

def Expr.normalOpt : Option Expr → Option Expr
  | none => none
  | some x => some x.normal

def Expr.normalAll : List Expr → List Expr
  | [] => []
  | x :: xs => x.normal :: Expr.normalAll xs

/-- The members of some fields, the first at the given position. -/
def Field.normalMembers (role : FieldRole) (position : Nat) : List Field → List Field.Member
  | [] => []
  | ⟨names, ty, tag⟩ :: fs =>
    (Field.entries role position ⟨names, ty, tag⟩).map
        (fun e => ⟨e.key, e.embedded, e.tag, ty.normal⟩) ++
      Field.normalMembers role (position + Field.width ⟨names, ty, tag⟩) fs

/-- An absent list of parameters has no members. -/
def Field.normalMembersOpt : Option (List Field) → List Field.Member
  | none => []
  | some fields => Field.normalMembers .param 0 fields

def Signature.normal : Signature → Signature
  | ⟨typeParams, params, results⟩ =>
    ⟨some (Field.arrange (Field.normalMembersOpt typeParams)),
      Field.arrange (Field.normalMembers .param 0 params),
      some (Field.arrange (Field.normalMembersOpt results))⟩

def Stmt.normal : Stmt → Stmt
  | .bad node => .bad node
  | .decl group => .decl group.normal
  | .empty => .empty
  | .labeled label stmt => .labeled label stmt.normal
  | .expr x => .expr x.normal
  | .send chan value => .send chan.normal value.normal
  | .incDec x tok => .incDec x.normal tok
  | .assign lhs tok rhs => .assign (Expr.normalAll lhs) tok (Expr.normalAll rhs)
  | .goCall x => .goCall x.normal
  | .deferCall x => .deferCall x.normal
  | .ret results => .ret (Expr.normalAll results)
  | .branch tok label => .branch tok label
  | .block list => .block (Stmt.normalAll list)
  | .ifElse init cond body orElse =>
    .ifElse (Stmt.normalOpt init) cond.normal (Stmt.normalAll body) (Stmt.normalOpt orElse)
  | .switch init tag body =>
    .switch (Stmt.normalOpt init) (Expr.normalOpt tag) (Clause.normalAll body)
  | .typeSwitch init guard body =>
    .typeSwitch (Stmt.normalOpt init) guard.normal (Clause.normalAll body)
  | .loop init cond post body =>
    .loop (Stmt.normalOpt init) (Expr.normalOpt cond) (Stmt.normalOpt post) (Stmt.normalAll body)
  | .range key value tok x body =>
    .range (Expr.normalOpt key) (Expr.normalOpt value) tok x.normal (Stmt.normalAll body)

def Stmt.normalOpt : Option Stmt → Option Stmt
  | none => none
  | some s => some s.normal

def Stmt.normalAll : List Stmt → List Stmt
  | [] => []
  | s :: ss => s.normal :: Stmt.normalAll ss

def Clause.normal : Clause → Clause
  | .matching list body => .matching (Expr.normalAll list) (Stmt.normalAll body)
  | .otherwise body => .otherwise (Stmt.normalAll body)

def Clause.normalAll : List Clause → List Clause
  | [] => []
  | c :: cs => c.normal :: Clause.normalAll cs

def ValueSpec.normal : ValueSpec → ValueSpec
  | ⟨names, ty, values⟩ => ⟨names, Expr.normalOpt ty, Expr.normalAll values⟩

def TypeSpec.normal : TypeSpec → TypeSpec
  | ⟨name, typeParams, isAlias, ty⟩ =>
    ⟨name, some (Field.arrange (Field.normalMembersOpt typeParams)), isAlias, ty.normal⟩

def Spec.normal : Spec → Spec
  | .imported spec => .imported spec
  | .value spec => .value spec.normal
  | .type spec => .type spec.normal

def Spec.normalAll : List Spec → List Spec
  | [] => []
  | s :: ss => s.normal :: Spec.normalAll ss

def DeclGroup.normal : DeclGroup → DeclGroup
  | ⟨tok, specs, _⟩ => ⟨tok, Spec.normalAll specs, false⟩

end

def FuncDecl.normal (f : FuncDecl) : FuncDecl :=
  ⟨some (Field.arrange (Field.normalMembersOpt f.recv)), f.name, f.sig.normal,
    f.body.map Stmt.normalAll⟩

def Node.normal : Node → Node
  | .expr x => .expr x.normal
  | .stmt s => .stmt s.normal
  | .block list => .block (Stmt.normalAll list)
  | .func f => .func f.normal
  | .group g => .group g.normal
  | .typeSpec spec => .typeSpec spec.normal
  | .valueSpec spec => .valueSpec spec.normal
  | .fields list => .fields (Field.arrange (Field.normalMembers .member 0 list))

/-- What the normal form keeps of an entry. -/
def FieldEntry.normal (e : FieldEntry) : Field.Member :=
  ⟨e.key, e.embedded, e.tag, e.ty.normal⟩

theorem Field.normalMembers_eq (role : FieldRole) (position : Nat) (fields : List Field) :
    Field.normalMembers role position fields =
      (Field.entriesFrom role position fields).map FieldEntry.normal := by
  induction fields generalizing position with
  | nil => rfl
  | cons f fs ih =>
    obtain ⟨names, ty, tag⟩ := f
    rw [Field.normalMembers, Field.entriesFrom, List.map_append, ih]
    congr 1
    apply List.map_congr_left
    intro e he
    obtain ⟨i, m, -, rfl⟩ := mem_entries.1 he
    rfl

/-! ## Entries with one key -/

namespace FieldEntry

variable {es es' : List FieldEntry}

theorem map_key_normal (es : List FieldEntry) :
    (es.map FieldEntry.normal).map Field.Member.key = es.map (·.key) :=
  List.map_map

/-- Two lists have the same members exactly if they have the same keys and the entries with one key
are the same member. -/
theorem mem_map_normal_iff (hnodup : (es'.map (·.key)).Nodup) :
    (∀ m, m ∈ es.map FieldEntry.normal ↔ m ∈ es'.map FieldEntry.normal) ↔
      (∀ key, key ∈ es.map (·.key) ↔ key ∈ es'.map (·.key)) ∧
        ∀ e ∈ es, ∀ e' ∈ es', e.key = e'.key → e.normal = e'.normal := by
  constructor
  · intro h
    constructor
    · intro key
      rw [← map_key_normal es, ← map_key_normal es', List.mem_map, List.mem_map]
      simp only [h]
    · intro e he e' he' hkey
      obtain ⟨e'', he'', hnormal⟩ := List.mem_map.1 ((h e.normal).1 (List.mem_map_of_mem he))
      have hkey' : e''.key = e'.key := (congrArg Field.Member.key hnormal).trans hkey
      rw [← hnormal, List.inj_on_of_nodup_map hnodup he'' he' hkey']
  · rintro ⟨hkeys, hsame⟩ m
    constructor
    · intro hm
      obtain ⟨e, he, rfl⟩ := List.mem_map.1 hm
      obtain ⟨e', he', hkey⟩ := List.mem_map.1 ((hkeys e.key).1 (List.mem_map_of_mem he))
      exact List.mem_map.2 ⟨e', he', (hsame e he e' he' hkey.symm).symm⟩
    · intro hm
      obtain ⟨e', he', rfl⟩ := List.mem_map.1 hm
      obtain ⟨e, he, hkey⟩ := List.mem_map.1 ((hkeys e'.key).2 (List.mem_map_of_mem he'))
      exact List.mem_map.2 ⟨e, he, hsame e he e' he' hkey⟩

theorem arrange_eq_iff (hnodup : (es.map (·.key)).Nodup) (hnodup' : (es'.map (·.key)).Nodup) :
    Field.arrange (es.map FieldEntry.normal) = Field.arrange (es'.map FieldEntry.normal) ↔
      (∀ key, key ∈ es.map (·.key) ↔ key ∈ es'.map (·.key)) ∧
        ∀ e ∈ es, ∀ e' ∈ es', e.key = e'.key → e.normal = e'.normal := by
  rw [← mem_map_normal_iff hnodup']
  rw [← map_key_normal] at hnodup hnodup'
  exact Field.arrange_eq_iff hnodup hnodup'

/-- Under the same keys, what holds of every two entries with one key holds on both sides. -/
theorem forall_of_matched (hkeys : ∀ key, key ∈ es.map (·.key) ↔ key ∈ es'.map (·.key))
    {P Q : FieldEntry → Prop} (h : ∀ e ∈ es, ∀ e' ∈ es', e.key = e'.key → P e ∧ Q e') :
    (∀ e ∈ es, P e) ∧ ∀ e' ∈ es', Q e' := by
  constructor
  · intro e he
    obtain ⟨e', he', hkey⟩ := List.mem_map.1 ((hkeys e.key).1 (List.mem_map_of_mem he))
    exact (h e he e' he' hkey.symm).1
  · intro e' he'
    obtain ⟨e, he, hkey⟩ := List.mem_map.1 ((hkeys e'.key).2 (List.mem_map_of_mem he'))
    exact (h e he e' he' hkey).2

end FieldEntry

end GoWeave
