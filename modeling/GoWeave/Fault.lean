/-!
# Faults

Why a set of source units cannot be merged. A `Fault` is the cause itself; a `MergeError` adds the
declaration and the unit in which the cause arose, as far as they are known.
-/
namespace GoWeave

/-- What is wrong with an import path literal. -/
inductive PathFault where
  | badEscape | notLiteral | emptyPath | badCharacter
  deriving DecidableEq, Repr

def PathFault.message : PathFault → String
  | badEscape => "invalid escape sequence"
  | notLiteral => "not a string literal"
  | emptyPath => "empty path"
  | badCharacter => "invalid character in path"

inductive Fault where
  | noUnits
  | missingTag (unit : Nat)
  | duplicateMember (name : String)
  /-- A construct of the given kind, at a line of its unit, about which nothing can be concluded. -/
  | unsupportedNode (kind : String) (line : Nat)
  | importPath (literal : String) (reason : PathFault)
  deriving DecidableEq, Repr

def Fault.message : Fault → String
  | noUnits => "no source units supplied"
  | missingTag unit => s!"source unit {unit} has no disambiguation tag"
  | duplicateMember name => s!"duplicate member `{name}` in one field list"
  | unsupportedNode kind line => s!"cannot compare unsupported syntax ({kind} at line {line})"
  | importPath literal reason => "invalid import path " ++ literal ++ ": " ++ reason.message

/-- A fault with the key of the declaration and the index and tag of the unit it arose in. -/
structure MergeError where
  fault : Fault
  declaration : Option String
  unit : Option (Nat × String)
  deriving DecidableEq, Repr

namespace MergeError

def ofFault (fault : Fault) : MergeError :=
  ⟨fault, none, none⟩

def inDeclaration (key : String) (fault : Fault) : MergeError :=
  ⟨fault, some key, none⟩

def inUnit (index : Nat) (tag : String) (e : MergeError) : MergeError :=
  { e with unit := some (index, tag) }

/-- The messages from the outermost to the innermost level; each contains the ones after it. -/
def trace (e : MergeError) : List String :=
  let root := e.fault.message
  let inner :=
    match e.declaration with
    | some key => [s!"declaration `{key}`: {root}", root]
    | none => [root]
  match e.unit with
  | some (index, tag) => s!"unit {index} (tag `{tag}`): {inner.headD root}" :: inner
  | none => inner

/-- The whole text, with the contexts in front. -/
def message (e : MergeError) : String :=
  e.trace.headD e.fault.message

end MergeError

end GoWeave
