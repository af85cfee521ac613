import Herd.Run.Codec
import Herd.World.Component

/-!
# Components in JSON

The written forms of entities and what they carry, for those who look at a store.
Trees are shown by their ids; a tree's own record of a backup or a run is a
snapshot.
-/

namespace Herd

open Json (Value Decoder)

namespace RunState

/-- A run state with its notes as a list, and whether it is at the root. -/
def view (s : RunState) : Value :=
  .ofMembers [
    ("tick_count", .ofNat s.tickCount),
    ("active", .ofOption .ofNat s.active),
    ("last_status", .ofOption Status.toJson s.lastStatus),
    ("memory", .array (s.memory.entries.map fun e => .array [.ofNat e.1, e.2.toJson])),
    ("at_root", .bool s.isAtRoot)]

end RunState

namespace BehaviorTree

/-- A tree by its id. -/
def view (t : BehaviorTree) : Value := t.id.toJson

end BehaviorTree

namespace GroupTag

def view (t : GroupTag) : Value :=
  .ofMembers [
    ("group_label", .ofString t.label),
    ("group_assigned", .bool t.groupAssigned),
    ("has_backup", .bool t.hasBackup),
    ("backup_tree", .ofOption BehaviorTree.view t.backupTree),
    ("backup_state", .ofOption Snapshot.toJson t.backupState)]

end GroupTag

namespace Behavior

def view (b : Behavior) : Value :=
  .ofMembers [("tree", b.tree.view), ("snapshot", b.run.snapshot.toJson)]

end Behavior

namespace CollectiveBehavior

def view (c : CollectiveBehavior) : Value :=
  .ofMembers [
    ("record", .ofNat c.record),
    ("revision", .ofNat c.revision),
    ("tree", c.tree.view),
    ("interpreter_tree", c.run.tree.view),
    ("policy", c.run.policy.toJson),
    ("actors", .array (c.run.actors.map Actor.toJson)),
    ("state", c.run.state.view)]

end CollectiveBehavior

namespace Hivemind

def view (h : Hivemind) : Value :=
  .ofMembers [
    ("group_label", .ofString h.label),
    ("members", .array (h.members.map EntityId.toJson)),
    ("len", .ofNat h.members.length),
    ("is_empty", .bool h.members.isEmpty)]

end Hivemind

namespace SkeletalMesh

def view (m : SkeletalMesh) : Value :=
  .ofMembers [("material", .ofOption (fun s => s.id.toJson) m.material)]

end SkeletalMesh

namespace CharacterMovement

def view (m : CharacterMovement) : Value :=
  .ofMembers [("speed_multiplier", .ofFloat m.speedMultiplier.toFloat)]

end CharacterMovement

namespace ComponentKind

def toJson (k : ComponentKind) : Value := .ofString k.name

def ofJson : Decoder ComponentKind := .oneOf (all.map fun k => (k.name, k))

/-- A component of a kind. -/
def view : (k : ComponentKind) → k.Payload → Value
  | groupTag => GroupTag.view
  | behavior => Behavior.view
  | collectiveBehavior => CollectiveBehavior.view
  | hivemind => Hivemind.view
  | skeletalMesh => SkeletalMesh.view
  | characterMovement => CharacterMovement.view

end ComponentKind

namespace EntityRecord

/-- The name of an entity, and each component that it has under the name of its kind. -/
def view (r : EntityRecord) : Value :=
  .ofMembers (("name", .ofString r.name) ::
    ComponentKind.all.filterMap fun k => (r.get? k).map fun c => (k.name, k.view c))

end EntityRecord

end Herd
