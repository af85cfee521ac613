import Herd.Group.Report
import Herd.Group.Teardown
import Herd.World.Codec

/-!
# Reports in JSON

The written forms of operations, of the reasons to skip an entity, of faults, and
of the reports of group operations. A fault is written as its kind and message;
JSON that cannot be read has a kind only, and a line that would quote its message
is left out.
-/

namespace Herd

open Json (Value Decoder)

namespace Operation

def all : List Operation := [assignBehavior, assignCollective, recoverBackup, propagateSpeed]

def name : Operation → String
  | assignBehavior => "AssignBehavior"
  | assignCollective => "AssignCollective"
  | recoverBackup => "RecoverBackup"
  | propagateSpeed => "PropagateSpeed"

def toJson (o : Operation) : Value := .ofString o.name

def ofJson : Decoder Operation := .oneOf (all.map fun o => (o.name, o))

end Operation

namespace SkipReason

def toJson : SkipReason → Value
  | missingPriorState => .ofString "MissingPriorState"
  | missingComponent kind => .tagged "MissingComponent" kind.toJson
  | unchanged => .ofString "Unchanged"

def ofJson : Decoder SkipReason := fun room v => do
  let t ← Decoder.tagged room v
  match t.name with
  | "MissingPriorState" => if t.isPlain then some .missingPriorState else none
  | "Unchanged" => if t.isPlain then some .unchanged else none
  | "MissingComponent" => (t.payload ComponentKind.ofJson).map .missingComponent
  | _ => none

end SkipReason

namespace Fault

/-- The kind of a fault. -/
def kind : Fault → String
  | resourceNotFound _ => "ResourceNotFound"
  | emptyGroup _ => "EmptyGroup"
  | notAHivemind _ => "NotAHivemind"
  | missingPriorState _ => "MissingPriorState"
  | writeFailure _ _ => "EngineWriteFailure"
  | snapshotMismatch _ _ => "SnapshotMismatch"
  | invalidResourceId _ => "InvalidResourceId"
  | invalidSettings _ => "InvalidConfig"
  | malformedJson => "Serialization"

/-- The kind, and the message if there is one to quote. -/
def fields (f : Fault) : List (String × Value) :=
  ("error", .ofString f.kind) ::
    if f = malformedJson then [] else [("message", .ofString f.message)]

def toJson (f : Fault) : Value := .ofMembers f.fields

end Fault

namespace StoreFault

def kind : StoreFault → String
  | unknownEntity _ => "UnknownEntity"
  | rejected _ _ => "Rejected"

def toJson (f : StoreFault) : Value :=
  .ofMembers [
    ("error", .ofString f.kind),
    ("message", .ofString f.message),
    ("entity", f.entity.toJson)]

end StoreFault

namespace Report

/-- The entities that the report mentions, ascending and each once. -/
def mentioned (r : Report) : List EntityId :=
  let all := r.affected ++ r.skipped.map (·.1) ++ r.failures.map (·.1)
  (all.foldl (fun (t : Table EntityId Unit) e => t.insert e ()) .empty).keys

/-- The line about the pass, unless it would quote a fault without a message. -/
def textJson (r : Report) : Value :=
  if r.aborted = some .malformedJson then .null else .ofString r.text

def toJson (r : Report) : Value :=
  let entities (es : List EntityId) : Value := .array (es.map EntityId.toJson)
  .ofMembers [
    ("operation", r.operation.toJson),
    ("label", .ofString r.label),
    ("affected", entities r.affected),
    ("skipped", .array (r.skipped.map fun e => .array [e.1.toJson, e.2.toJson])),
    ("failures", .array (r.failures.map fun e => .array [e.1.toJson, e.2.toJson])),
    ("warnings", .array (r.warnings.map Fault.toJson)),
    ("aborted", .ofOption Fault.toJson r.aborted),
    ("display", r.textJson),
    ("success", .bool r.isSuccess),
    ("noop", .bool r.isNoop),
    ("affected_count", .ofNat r.affectedCount),
    ("was_skipped", entities (r.mentioned.filter r.wasSkipped)),
    ("failed", entities (r.mentioned.filter r.failed)),
    ("notices", .array (r.notices.map fun f =>
      .ofMembers (f.fields ++ [("benign", .bool f.isBenign)])))]

end Report

namespace TeardownReport

def toJson (r : TeardownReport) : Value :=
  .ofMembers [
    ("hiveminds", .array (r.hiveminds.map EntityId.toJson)),
    ("tagged", .array (r.tagged.map EntityId.toJson)),
    ("total", .ofNat r.total)]

end TeardownReport

end Herd
