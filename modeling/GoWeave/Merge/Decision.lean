import GoWeave.Layout

/-!
# Decisions

Every choice that a merge makes about a unit is recorded: imports added or renamed, declarations
dropped, structs widened, declarations and methods renamed.
-/
namespace GoWeave

inductive Action where
  | importAdded (name path : String)
  | importRenamed (old new path : String)
  | duplicateDropped (key : String)
  | fieldsMerged (key : String) (fields : List String)
  | renamed (old new reason : String)
  | methodRenamed (receiver old new reason : String)
  deriving DecidableEq, Repr

/-- An action, with the index and the tag of the unit it concerns. -/
structure Decision where
  unit : Nat
  tag : String
  action : Action
  deriving DecidableEq, Repr

namespace Action

/-- One line on the action. -/
def describe : Action → String
  | importAdded name path => s!"import {name} \"{path}\""
  | importRenamed old new path => s!"import \"{path}\" renamed {old} -> {new}"
  | duplicateDropped key => s!"dropped duplicate {key}"
  | fieldsMerged key fields => "merged fields [" ++ Layout.commaSep fields ++ "] into " ++ key
  | renamed old new reason => s!"renamed {old} -> {new} ({reason})"
  | methodRenamed receiver old new reason =>
    s!"renamed method {receiver}.{old} -> {new} ({reason})"

/-- Whether a name was given up for another. -/
def isRename : Action → Bool
  | importRenamed .. => true
  | renamed .. => true
  | methodRenamed .. => true
  | _ => false

end Action

end GoWeave
