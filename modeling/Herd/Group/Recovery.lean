import Herd.Coordinator
import Herd.Group.Write

/-!
# Recovery of backups

Every member of a group goes back to what it ran before its group took over, and
resumes it where it was. Members without both halves of a backup are skipped. The
backup goes once it is restored, if the settings say so. Skins stay.
-/

namespace Herd

variable {σ : Type} [EntityStore σ]

namespace Recovery

/-- The tag of a member once its backup is restored. -/
def restoredTag (clear : Bool) (tag : GroupTag) : GroupTag :=
  let tag' := { tag with groupAssigned := false }
  if clear then tag'.clearBackup else tag'

/-- The turn of a member. -/
def turn (clear : Bool) (entity : EntityId) (store : σ) : Tally × σ :=
  match (EntityStore.get? entity .groupTag store : Option GroupTag) with
  | none => (∅, store)
  | some tag =>
    match tag.backupTree, tag.backupState with
    | some tree, some snapshot =>
      match Run.resume tree snapshot with
      | .error fault => (.fail entity fault, store)
      | .ok run => switchBehavior ⟨tree, run⟩ (restoredTag clear tag) entity store
    | _, _ => (.skip entity .missingPriorState, store)

end Recovery

/-- Put every member of a group back on its backup. -/
def Coordinator.recoverBackup (c : Coordinator σ) (label : String) : Report × Coordinator σ :=
  match Tally.pass (Recovery.turn c.settings.clearBackupOnRestore) (c.members label) c.store with
  | (tally, store) => (.ofTally .recoverBackup label tally, { c with store })

end Herd
