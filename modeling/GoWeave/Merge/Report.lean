import GoWeave.Json
import GoWeave.Merge.Decision

/-!
# Reports

The decisions of a run as JSON.
-/
namespace GoWeave

/-- The name of an action and its details. -/
def Action.toJson : Action → String × List (String × Json)
  | importAdded name path => ("import_added", [("alias", .text name), ("path", .text path)])
  | importRenamed old new path =>
    ("import_renamed", [("from", .text old), ("to", .text new), ("path", .text path)])
  | duplicateDropped key => ("duplicate_dropped", [("key", .text key)])
  | fieldsMerged key fields =>
    ("fields_merged", [("key", .text key), ("fields", .array (fields.map .text))])
  | renamed old new reason =>
    ("renamed", [("from", .text old), ("to", .text new), ("reason", .text reason)])
  | methodRenamed receiver old new reason =>
    ("method_renamed",
      [("receiver", .text receiver), ("from", .text old), ("to", .text new),
        ("reason", .text reason)])

namespace Decision

def toJson (d : Decision) : Json :=
  let (name, details) := d.action.toJson
  .record
    (("action", .text name) :: ("unit", .ofNat d.unit) :: ("tag", .text d.tag) :: details)

/-- The text of a report. -/
def report (decisions : List Decision) : String :=
  (Json.array (decisions.map toJson)).pretty

end Decision

end GoWeave
