import Herd.Decimal.Binary32
import Herd.Fault
import Herd.Run.Codec
import Herd.Text.Blank

/-!
# Settings

What scenarios use unless told otherwise, and the policies of the coordinator.
`validate` refuses settings that no scenario can run with: a blank label, a blank
tree name, and a speed that is not a number from zero up.
-/

namespace Herd

/-- What a further group assignment does to the backup of a member. -/
inductive BackupPolicy
  /-- The behavior from before the first assignment is kept. -/
  | firstAssignmentWins
  /-- Every assignment keeps what was running when it came. -/
  | overwrite
deriving DecidableEq, Inhabited

namespace BackupPolicy

open Json (Value Decoder)

def name : BackupPolicy → String
  | firstAssignmentWins => "first_assignment_wins"
  | overwrite => "overwrite"

def toJson (p : BackupPolicy) : Value := .ofString p.name

def ofJson : Decoder BackupPolicy := .oneOf ([firstAssignmentWins, overwrite].map fun p => (p.name, p))

end BackupPolicy

/-- Settings of a coordinator. -/
structure Settings where
  /-- The group that scenarios address. -/
  groupLabel : String
  /-- The tree that scenarios assign. -/
  behaviorTree : String
  /-- The skin that comes with the assignment. -/
  groupSkin : Option String
  /-- The speed that is broadcast. -/
  speedMultiplier : Float32
  /-- The group asset that is described. -/
  groupAsset : String
  backupPolicy : BackupPolicy
  /-- Whether a backup goes once it is restored. -/
  clearBackupOnRestore : Bool
  collectivePolicy : CollectivePolicy
deriving DecidableEq

namespace Settings

open Json (Value Decoder)

def standard : Settings where
  groupLabel := "magenta"
  behaviorTree := "Behaviors:critter"
  groupSkin := some "magentaDeerSkin"
  speedMultiplier := 2.5
  groupAsset := "engine:magenta"
  backupPolicy := .firstAssignmentWins
  clearBackupOnRestore := true
  collectivePolicy := .all

instance : Inhabited Settings := ⟨standard⟩

/-- Refuse settings that no scenario can run with. -/
def validate (s : Settings) : Except Fault Unit :=
  if Text.isBlankText s.groupLabel then .error (.invalidSettings "group_label is empty")
  else if Text.isBlankText s.behaviorTree then .error (.invalidSettings "behavior_tree is empty")
  else if !s.speedMultiplier.isFinite || s.speedMultiplier < 0 then
    .error (.invalidSettings
      ("speed_multiplier must be a non-negative number, got " ++ Decimal.text32 s.speedMultiplier))
  else .ok ()

def toJson (s : Settings) : Value :=
  .ofMembers [
    ("group_label", .ofString s.groupLabel),
    ("behavior_tree", .ofString s.behaviorTree),
    ("group_skin", .ofOption .ofString s.groupSkin),
    ("speed_multiplier", .ofReal s.speedMultiplier.toFloat),
    ("group_asset", .ofString s.groupAsset),
    ("backup_policy", s.backupPolicy.toJson),
    ("clear_backup_on_restore", .bool s.clearBackupOnRestore),
    ("collective_policy", s.collectivePolicy.toJson)]

/-- Read settings, whatever their values. A field that is not there is taken from the
standard settings. -/
def ofJson : Decoder Settings := fun room v => do
  let f ← Decoder.fields ["group_label", "behavior_tree", "group_skin", "speed_multiplier",
    "group_asset", "backup_policy", "clear_backup_on_restore", "collective_policy"] room v
  return {
    groupLabel := ← f.defaulted "group_label" standard.groupLabel .text
    behaviorTree := ← f.defaulted "behavior_tree" standard.behaviorTree .text
    groupSkin := ← f.defaulted "group_skin" standard.groupSkin (.nullable .text)
    speedMultiplier := ← f.defaulted "speed_multiplier" standard.speedMultiplier .real32
    groupAsset := ← f.defaulted "group_asset" standard.groupAsset .text
    backupPolicy := ← f.defaulted "backup_policy" standard.backupPolicy BackupPolicy.ofJson
    clearBackupOnRestore := ← f.defaulted "clear_backup_on_restore"
      standard.clearBackupOnRestore .bool
    collectivePolicy := ← f.defaulted "collective_policy" standard.collectivePolicy
      CollectivePolicy.ofJson }

/-- Valid settings from their source. -/
def parse (source : String) : Except Fault Settings := do
  match ofJson.run source with
  | none => throw .malformedJson
  | some s =>
    s.validate
    return s

end Settings

end Herd
