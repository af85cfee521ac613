import Herd.Run.Solo
import Herd.Run.Collective
import Herd.Tree.Codec

/-!
# Runs in JSON

The written forms of actors, run states, snapshots and outcomes. Entities and
addresses are plain numbers; the memory of a run is an object whose keys are the
addresses in decimal.
-/

namespace Herd

open Json (Value Decoder)

namespace EntityId

def toJson (e : EntityId) : Value := .ofNat e.raw

def ofJson : Decoder EntityId := fun room v => (Decoder.natural room v).map EntityId.mk

end EntityId

namespace Actor

def toJson (a : Actor) : Value :=
  .ofMembers [
    ("entity", a.entity.toJson),
    ("blackboard", .ofMembers (a.blackboard.entries.map fun e => (e.1, .ofString e.2)))]

def ofJson : Decoder Actor := fun room v => do
  let f ← Decoder.fields ["entity", "blackboard"] room v
  let entity ← f.required "entity" EntityId.ofJson
  let blackboard ← f.required "blackboard" (.members Json.Key.text .text)
  return ⟨entity, .ofList blackboard⟩

end Actor

namespace NodeMemory

def toJson : NodeMemory → Value
  | cursor index => .tagged "Cursor" (.ofNat index)
  | finished slots => .tagged "Finished" (.array (slots.map (.ofOption Status.toJson)))
  | iterations count => .tagged "Iterations" (.ofNat count)
  | startedAt tick => .tagged "StartedAt" (.ofNat tick)

def ofJson : Decoder NodeMemory := fun room v => do
  let t ← Decoder.tagged room v
  match t.name with
  | "Cursor" => (t.payload .natural).map .cursor
  | "Finished" => (t.payload (.list (.nullable Status.ofJson))).map .finished
  | "Iterations" => (t.payload .natural).map .iterations
  | "StartedAt" => (t.payload .natural).map .startedAt
  | _ => none

end NodeMemory

namespace RunState

def toJson (s : RunState) : Value :=
  .ofMembers [
    ("tick_count", .ofNat s.tickCount),
    ("active", .ofOption .ofNat s.active),
    ("last_status", .ofOption Status.toJson s.lastStatus),
    ("memory", .ofMembers (s.memory.entries.map fun e => (toString e.1, e.2.toJson)))]

def ofJson : Decoder RunState := fun room v => do
  let f ← Decoder.fields ["tick_count", "active", "last_status", "memory"] room v
  let tickCount ← f.required "tick_count" .natural
  let active ← f.optional "active" .natural
  let lastStatus ← f.optional "last_status" Status.ofJson
  let memory ← f.required "memory" (.members Decoder.naturalKey NodeMemory.ofJson)
  return ⟨tickCount, active, lastStatus, .ofList memory⟩

end RunState

namespace Snapshot

def toJson (s : Snapshot) : Value :=
  .ofMembers [("tree", s.tree.toJson), ("actor", s.actor.toJson), ("state", s.state.toJson)]

def ofJson : Decoder Snapshot := fun room v => do
  let f ← Decoder.fields ["tree", "actor", "state"] room v
  let tree ← f.required "tree" ResourceId.ofJson
  let actor ← f.required "actor" Actor.ofJson
  let state ← f.required "state" RunState.ofJson
  return ⟨tree, actor, state⟩

end Snapshot

namespace CollectivePolicy

def name : CollectivePolicy → String
  | all => "All"
  | any => "Any"

def toJson (p : CollectivePolicy) : Value := .ofString p.name

def ofJson : Decoder CollectivePolicy := .oneOf ([all, any].map fun p => (p.name, p))

end CollectivePolicy

namespace LeafOutcome

def toJson (o : LeafOutcome) : Value :=
  .ofMembers [("node", .ofNat o.node), ("entity", o.entity.toJson), ("status", o.status.toJson)]

def ofJson : Decoder LeafOutcome := fun room v => do
  let f ← Decoder.fields ["node", "entity", "status"] room v
  return ⟨← f.required "node" .natural, ← f.required "entity" EntityId.ofJson,
    ← f.required "status" Status.ofJson⟩

end LeafOutcome

end Herd
