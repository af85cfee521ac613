import Herd.Asset.Skin
import Herd.Run.Solo
import Herd.Run.Collective
import Herd.World.Label

/-!
# Components

What an entity can carry: at most one component of each of six kinds. The tag of
a group also holds the backup, which is what the entity ran before its group took
over: the tree and a snapshot of the run.
-/

namespace Herd

/-- An entity's own behavior. -/
structure Behavior where
  /-- The tree the entity was given. -/
  tree : BehaviorTree
  run : Run

namespace Behavior

/-- A run of `tree` from its root. -/
def start (entity : EntityId) (tree : BehaviorTree) : Behavior :=
  ⟨tree, .start (.ofEntity entity) tree⟩

end Behavior

/-- Membership of a group. -/
structure GroupTag where
  label : String
  backupTree : Option BehaviorTree
  backupState : Option Snapshot
  /-- Whether the behavior that the entity runs was assigned to its group. -/
  groupAssigned : Bool

namespace GroupTag

/-- A tag without a backup. -/
def ofLabel (label : String) : GroupTag := ⟨label, none, none, false⟩

/-- Whether the tag is of the group. An empty label is of no group. -/
def isIn (t : GroupTag) (label : String) : Bool := !t.label.isEmpty && labelsMatch t.label label

/-- A backup has two halves. -/
def hasBackup (t : GroupTag) : Bool := t.backupTree.isSome && t.backupState.isSome

/-- Keep a behavior to come back to. -/
def recordBackup (t : GroupTag) (b : Behavior) : GroupTag :=
  { t with backupTree := some b.tree, backupState := some b.run.snapshot }

def clearBackup (t : GroupTag) : GroupTag := { t with backupTree := none, backupState := none }

end GroupTag

/-- A tree that is run collectively for the members of a hivemind. -/
structure CollectiveBehavior where
  /-- The identity of the record, which rebinding keeps. -/
  record : Nat
  /-- How often the record was rebound. -/
  revision : Nat
  tree : BehaviorTree
  run : CollectiveRun

namespace CollectiveBehavior

/-- A new record under a fresh identity. -/
def create (record : Nat) (tree : BehaviorTree) (run : CollectiveRun) : CollectiveBehavior :=
  ⟨record, 0, tree, run⟩

/-- Replace tree and run. -/
def rebind (c : CollectiveBehavior) (tree : BehaviorTree) (run : CollectiveRun) : CollectiveBehavior :=
  { c with tree, run, revision := c.revision + 1 }

end CollectiveBehavior

/-- The members of a group at one instant, none of them twice. -/
structure Hivemind where
  label : String
  members : List EntityId
  distinct : members.Nodup
deriving DecidableEq

namespace Hivemind

def empty (label : String) : Hivemind := ⟨label, [], List.nodup_nil⟩

theorem nodup_append_singleton {entity : EntityId} {members : List EntityId}
    (hmembers : members.Nodup) (h : entity ∉ members) : (members ++ [entity]).Nodup := by
  refine List.nodup_append.mpr ⟨hmembers, List.pairwise_singleton _ _, fun a ha b hb => ?_⟩
  rintro rfl
  exact h (List.mem_singleton.mp hb ▸ ha)

/-- Append a member, unless it is one already. -/
def insert (h : Hivemind) (entity : EntityId) : Hivemind :=
  if hnew : entity ∈ h.members then h
  else ⟨h.label, h.members ++ [entity], nodup_append_singleton h.distinct hnew⟩

/-- The hivemind of a list of members. -/
def ofMembers (label : String) (members : List EntityId) : Hivemind :=
  members.foldl insert (empty label)

/-- The members as actors. -/
def actors (h : Hivemind) : List Actor := h.members.map .ofEntity

end Hivemind

/-- What an entity looks like. -/
structure SkeletalMesh where
  material : Option Skin
deriving DecidableEq

/-- How an entity moves. -/
structure CharacterMovement where
  speedMultiplier : Float32
deriving DecidableEq

namespace CharacterMovement

/-- Movement at plain speed. -/
def standard : CharacterMovement := ⟨1⟩

end CharacterMovement

/-- The kinds of components. -/
inductive ComponentKind
  | groupTag
  | behavior
  | collectiveBehavior
  | hivemind
  | skeletalMesh
  | characterMovement
deriving DecidableEq, Inhabited

namespace ComponentKind

def name : ComponentKind → String
  | groupTag => "GroupTag"
  | behavior => "Behavior"
  | collectiveBehavior => "CollectiveBehavior"
  | hivemind => "Hivemind"
  | skeletalMesh => "SkeletalMesh"
  | characterMovement => "CharacterMovement"

/-- The kinds, in the order in which records list them. -/
def all : List ComponentKind :=
  [groupTag, behavior, collectiveBehavior, hivemind, skeletalMesh, characterMovement]

/-- The type of the components of a kind. -/
abbrev Payload : ComponentKind → Type
  | groupTag => GroupTag
  | behavior => Behavior
  | collectiveBehavior => CollectiveBehavior
  | hivemind => Hivemind
  | skeletalMesh => SkeletalMesh
  | characterMovement => CharacterMovement

end ComponentKind

/-- A component of any kind. -/
abbrev Component := (kind : ComponentKind) × kind.Payload

/-- An entity's name and components. -/
structure EntityRecord where
  name : String
  groupTag : Option GroupTag
  behavior : Option Behavior
  collectiveBehavior : Option CollectiveBehavior
  hivemind : Option Hivemind
  skeletalMesh : Option SkeletalMesh
  characterMovement : Option CharacterMovement
deriving Inhabited

namespace EntityRecord

/-- A record without components. -/
def ofName (name : String) : EntityRecord := ⟨name, none, none, none, none, none, none⟩

/-- The component of a kind. -/
def get? (r : EntityRecord) : (kind : ComponentKind) → Option kind.Payload
  | .groupTag => r.groupTag
  | .behavior => r.behavior
  | .collectiveBehavior => r.collectiveBehavior
  | .hivemind => r.hivemind
  | .skeletalMesh => r.skeletalMesh
  | .characterMovement => r.characterMovement

/-- Set or clear the component of a kind. -/
def set (r : EntityRecord) : (kind : ComponentKind) → Option kind.Payload → EntityRecord
  | .groupTag, c => { r with groupTag := c }
  | .behavior, c => { r with behavior := c }
  | .collectiveBehavior, c => { r with collectiveBehavior := c }
  | .hivemind, c => { r with hivemind := c }
  | .skeletalMesh, c => { r with skeletalMesh := c }
  | .characterMovement, c => { r with characterMovement := c }

/-- Add a component. -/
def put (r : EntityRecord) (c : Component) : EntityRecord := r.set c.1 (some c.2)

def has (r : EntityRecord) (kind : ComponentKind) : Bool := (r.get? kind).isSome

@[simp] theorem get?_set_self (r : EntityRecord) (kind : ComponentKind) (c : Option kind.Payload) :
    (r.set kind c).get? kind = c := by
  cases kind <;> rfl

theorem get?_set_of_ne (r : EntityRecord) {kind kind' : ComponentKind} (h : kind' ≠ kind)
    (c : Option kind.Payload) : (r.set kind c).get? kind' = r.get? kind' := by
  cases kind <;> cases kind' <;> simp_all [set, get?]

@[simp] theorem name_set (r : EntityRecord) (kind : ComponentKind) (c : Option kind.Payload) :
    (r.set kind c).name = r.name := by
  cases kind <;> rfl

end EntityRecord

end Herd
