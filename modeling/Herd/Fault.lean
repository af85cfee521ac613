import Herd.Entity

/-!
# Faults

What can go wrong in a group operation, by cause. A pass over a group never
stops at a fault of one entity; the fault goes into the report of the pass. Two
causes only say that there was nothing to do, and are benign.
-/

namespace Herd

/-- The cause of a failed operation. -/
inductive Fault
  /-- A named tree, skin, group asset or scenario does not resolve. -/
  | resourceNotFound (name : String)
  /-- No entity carries the label. -/
  | emptyGroup (label : String)
  /-- The entity carries no hivemind. -/
  | notAHivemind (entity : EntityId)
  /-- There is no backup to return to. -/
  | missingPriorState (entity : EntityId)
  /-- The store refused a write. -/
  | writeFailure (entity : EntityId) (reason : String)
  /-- A snapshot meets a tree it was not taken over. -/
  | snapshotMismatch (expected actual : String)
  /-- The text names no resource. -/
  | invalidResourceId (text : String)
  /-- Settings that no scenario can run with. -/
  | invalidSettings (reason : String)
  /-- The text is not JSON, or not JSON of the expected shape. -/
  | malformedJson
deriving DecidableEq

namespace Fault

/-- The wording of a fault. -/
def message : Fault → String
  | resourceNotFound name => "Resource not found: " ++ name
  | emptyGroup label => "Group '" ++ label ++ "' has no members"
  | notAHivemind entity => entity.text ++ " is not a hivemind"
  | missingPriorState entity => "No backup recorded for " ++ entity.text
  | writeFailure entity reason => "Engine rejected write to " ++ entity.text ++ ": " ++ reason
  | snapshotMismatch expected actual =>
    "Snapshot taken over '" ++ expected ++ "' cannot resume '" ++ actual ++ "'"
  | invalidResourceId text => "Invalid resource id: " ++ text
  | invalidSettings reason => "Invalid configuration: " ++ reason
  | malformedJson => "Serialization error"

/-- Whether the fault only says that there was nothing to do. -/
def isBenign : Fault → Bool
  | emptyGroup _ | missingPriorState _ => true
  | _ => false

end Fault

end Herd
