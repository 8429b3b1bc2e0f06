import GoWeave.Fault
import GoWeave.Layout

/-!
# Field sets

A field list groups names that share a type, as in `FirstName, LastName string`. A field set has
one entry per name, in declaration order, under a key that makes entries of two lists comparable.

A blank name may repeat, so it is keyed by its position. An unnamed parameter is keyed by its
position too, while an embedded member is keyed by the name that its type implies.
-/
namespace GoWeave

/-- The field name that an embedded type implies: `T` for `*pkg.T[X]`. -/
def Expr.impliedName : Expr → String
  | .ident name => name
  | .selector _ sel => sel
  | .star x => x.impliedName
  | .paren x => x.impliedName
  | .index x _ => x.impliedName
  | .indexList x _ => x.impliedName
  | x => x.text

/-- How unnamed fields of a list are read: as embedded members, or as parameters by position. -/
inductive FieldRole where
  | member | param
  deriving DecidableEq, Repr

structure FieldEntry where
  key : String
  name : String
  /-- Whether the name is implied by the type and not written. -/
  embedded : Bool
  ty : Expr
  tag : Option Literal

namespace FieldEntry

/-- The entry as a field of its own. -/
def toField (e : FieldEntry) : Field :=
  ⟨if e.embedded then [] else [e.name], e.ty, e.tag⟩

/-- The key of a name at a position. -/
def keyAt (position : Nat) (name : String) : String :=
  if isBlank name then s!"_#{position}" else name

/-- The name and the embedding flag of an unnamed field at a position. -/
def unnamed (role : FieldRole) (position : Nat) (ty : Expr) : String × Bool :=
  match role with
  | .member => (ty.impliedName, true)
  | .param => (s!"#{position}", false)

end FieldEntry

namespace Field

/-- The names that a field contributes, with the embedding flag of each. -/
def members (role : FieldRole) (position : Nat) (f : Field) : List (String × Bool) :=
  if f.names.isEmpty then [FieldEntry.unnamed role position f.ty]
  else f.names.map fun name => (name, false)

/-- The number of entries of a field. -/
def width (f : Field) : Nat :=
  if f.names.isEmpty then 1 else f.names.length

@[simp] theorem length_members (role : FieldRole) (position : Nat) (f : Field) :
    (f.members role position).length = f.width := by
  unfold members width
  split <;> simp

end Field

/-- Where the keys of some entries stand, the last key first. -/
def FieldEntry.positions (entries : List FieldEntry) : List (String × Nat) :=
  (entries.zipIdx.map fun (e, i) => (e.key, i)).reverse

/-- The entries of a field list in declaration order, with an index from their keys to their
positions. A key that is entered again hides its older position. -/
structure FieldSet where
  entries : List FieldEntry
  index : List (String × Nat)
  index_eq : index = FieldEntry.positions entries

namespace FieldSet

def empty : FieldSet :=
  ⟨[], [], rfl⟩

/-- The field set with one more entry at its end. -/
def push (s : FieldSet) (e : FieldEntry) : FieldSet where
  entries := s.entries ++ [e]
  index := (e.key, s.entries.length) :: s.index
  index_eq := by simp [FieldEntry.positions, List.zipIdx_append, s.index_eq]

def keys (s : FieldSet) : List String :=
  s.entries.map (·.key)

def contains (s : FieldSet) (key : String) : Bool :=
  (s.index.lookup key).isSome

/-- The entry under a key; of several, the last. -/
def get? (s : FieldSet) (key : String) : Option FieldEntry :=
  (s.index.lookup key).bind (s.entries[·]?)

/-- Enters a name of a field, unless it is there already. Only a blank name may repeat. -/
def insert (s : FieldSet) (f : Field) (name : String) (embedded : Bool) : Except Fault FieldSet :=
  if !isBlank name && s.contains name then .error (.duplicateMember name)
  else .ok (s.push ⟨FieldEntry.keyAt s.entries.length name, name, embedded, f.ty, f.tag⟩)

/-- Enters the names of a field one after the other. -/
def insertField (role : FieldRole) (s : FieldSet) (f : Field) : Except Fault FieldSet :=
  (f.members role s.entries.length).foldlM (fun s m => s.insert f m.1 m.2) s

/-- The field set of a list, unless a name repeats. -/
def ofFields (role : FieldRole) (fields : List Field) : Except Fault FieldSet :=
  fields.foldlM (insertField role) empty

end FieldSet

end GoWeave
