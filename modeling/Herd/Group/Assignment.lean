import Herd.Coordinator
import Herd.Group.Write

/-!
# Group assignment

Every member of a group gets its own run of one tree. What a member ran before is
backed up in its tag first, unless the policy keeps an earlier backup. A tree that
does not resolve aborts the pass before anything is written; a skin that does not
resolve is only warned about.
-/

namespace Herd

variable {σ : Type} [EntityStore σ]

namespace Assignment

/-- Show a skin on the mesh of an entity, if it has one. -/
def applySkin (skin : Option Skin) (entity : EntityId) (store : σ) : Tally × σ :=
  match skin, (EntityStore.get? entity .skeletalMesh store : Option SkeletalMesh) with
  | some skin, some mesh =>
    saveComponent ∅ entity .skeletalMesh { mesh with material := some skin } store
  | _, _ => (∅, store)

/-- Whether the behavior that a member runs is to be backed up. -/
def captures (policy : BackupPolicy) (tag : GroupTag) : Bool :=
  match policy with
  | .overwrite => true
  | .firstAssignmentWins => !tag.groupAssigned

/-- The tag of a member once the assignment is done. -/
def assignedTag (policy : BackupPolicy) (tag : GroupTag) (previous : Option Behavior) : GroupTag :=
  let tag' :=
    match previous with
    | some b => if captures policy tag then tag.recordBackup b else tag
    | none => tag
  { tag' with groupAssigned := true }

/-- Give a member with the given tag its run of the tree. -/
def assignTree (policy : BackupPolicy) (tree : BehaviorTree) (tag : GroupTag) (entity : EntityId)
    (store : σ) : Tally × σ :=
  let previous : Option Behavior := EntityStore.get? entity .behavior store
  switchBehavior (.start entity tree) (assignedTag policy tag previous) entity store

/-- The turn of a member. -/
def turn (policy : BackupPolicy) (tree : BehaviorTree) (skin : Option Skin) (entity : EntityId)
    (store : σ) : Tally × σ :=
  match (EntityStore.get? entity .groupTag store : Option GroupTag) with
  | none => (∅, store)
  | some tag =>
    match applySkin skin entity store with
    | (skinned, store) =>
      match assignTree policy tree tag entity store with
      | (assigned, store) => (skinned ++ assigned, store)

end Assignment

/-- What there is to warn about when a skin is asked for by name. -/
def skinWarnings (library : Library) : Option String → List Fault
  | some name => if (library.skin? name).isNone then [.resourceNotFound name] else []
  | none => []

/-- Give every member of a group its own run of a tree, and a skin if one is named. -/
def Coordinator.assignBehavior (c : Coordinator σ) (label treeName : String)
    (skinName : Option String) : Report × Coordinator σ :=
  match c.library.tree treeName with
  | .error fault => (.abort .assignBehavior label fault, c)
  | .ok tree =>
    let skin := skinName.bind c.library.skin?
    match Tally.pass (Assignment.turn c.settings.backupPolicy tree skin) (c.members label) c.store with
    | (tally, store) =>
      ({ Report.ofTally .assignBehavior label tally with
          warnings := skinWarnings c.library skinName },
        { c with store })

end Herd
