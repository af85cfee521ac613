import Herd.Group.Assignment
import Herd.Group.Codec
import Herd.Group.Recovery
import Herd.Group.Teardown
import Herd.Hive.Collective
import Herd.Hive.Materialize
import Herd.Hive.Speed

/-!
# Scenarios

Group operations composed under the settings of a coordinator, for a command
layer: each scenario has a command name and a line of help, and running it gives
an outcome with a line about it.
-/

namespace Herd

inductive Scenario
  /-- The same tree for every member of the group. -/
  | assignGroupBehavior
  /-- One speed for every member, by way of a hivemind. -/
  | synchronizeSpeed
  /-- One tree run collectively by a hivemind. -/
  | collectiveBehavior
  /-- Every member goes back to what it ran before. -/
  | restoreBackup
  /-- Read the definition of the group. -/
  | describeGroup
  /-- Remove hiveminds and tagged entities. -/
  | teardown
deriving DecidableEq, Inhabited

namespace Scenario

def all : List Scenario :=
  [assignGroupBehavior, synchronizeSpeed, collectiveBehavior, restoreBackup, describeGroup, teardown]

/-- The command name. -/
def name : Scenario → String
  | assignGroupBehavior => "assign"
  | synchronizeSpeed => "sync-speed"
  | collectiveBehavior => "collective"
  | restoreBackup => "restore"
  | describeGroup => "describe"
  | teardown => "teardown"

/-- The name in JSON. -/
def title : Scenario → String
  | assignGroupBehavior => "AssignGroupBehavior"
  | synchronizeSpeed => "SynchronizeSpeed"
  | collectiveBehavior => "CollectiveBehavior"
  | restoreBackup => "RestoreBackup"
  | describeGroup => "DescribeGroup"
  | teardown => "Teardown"

def toJson (s : Scenario) : Json.Value := .ofString s.title

def ofJson : Json.Decoder Scenario := .oneOf (all.map fun s => (s.title, s))

/-- The line of help. -/
def description : Scenario → String
  | assignGroupBehavior => "assign the group tree to every member of the group"
  | synchronizeSpeed => "broadcast a speed change to every member of the group"
  | collectiveBehavior => "run one tree collectively for the whole group"
  | restoreBackup => "return members to the behavior they ran before joining"
  | describeGroup => "load the group definition asset"
  | teardown => "destroy every hivemind and tagged entity"

/-- The scenario of a command name, in any case. -/
def parse (s : String) : Except Fault Scenario :=
  match all.find? fun x => Text.lowerAscii x.name == Text.lowerAscii s with
  | some x => .ok x
  | none => .error (.resourceNotFound ("scenario '" ++ s ++ "'"))

end Scenario

/-- What a scenario came to. -/
inductive ScenarioOutcome
  /-- A pass over a group. -/
  | group (report : Report)
  /-- A pass by way of a new hivemind. -/
  | hivemind (hivemind : EntityId) (report : Report)
  | described (definition : GroupDefinition)
  | tornDown (report : TeardownReport)
  | failed (scenario : Scenario) (fault : Fault)
deriving Inhabited

namespace ScenarioOutcome

def isSuccess : ScenarioOutcome → Bool
  | group r | hivemind _ r => r.isSuccess
  | described _ | tornDown _ => true
  | failed _ _ => false

/-- The report of the pass, if there was one. -/
def report? : ScenarioOutcome → Option Report
  | group r | hivemind _ r => some r
  | _ => none

/-- How many entities were changed or removed. -/
def affectedCount : ScenarioOutcome → Nat
  | group r | hivemind _ r => r.affectedCount
  | tornDown r => r.total
  | described _ | failed _ _ => 0

/-- A line about the outcome. -/
def text : ScenarioOutcome → String
  | group r => r.text
  | hivemind h r => r.text ++ " (via " ++ h.text ++ ")"
  | described g => "Loaded group label " ++ g.label
  | tornDown r =>
    "Removed " ++ toString r.hiveminds.length ++ " hiveminds and " ++ toString r.tagged.length ++
      " tagged entities"
  | failed scenario fault => scenario.name ++ " failed: " ++ fault.message

/-- The line about the outcome, unless it would quote a fault without a message. -/
def textJson (o : ScenarioOutcome) : Json.Value :=
  match o with
  | failed _ .malformedJson => .null
  | group r | hivemind _ r => if r.aborted = some .malformedJson then .null else .ofString o.text
  | _ => .ofString o.text

/-- What is particular to the kind of outcome. -/
def details : ScenarioOutcome → List (String × Json.Value)
  | group r => [("type", .ofString "Group"), ("report", r.toJson)]
  | hivemind h r => [("type", .ofString "Hivemind"), ("hivemind", h.toJson), ("report", r.toJson)]
  | described g => [("type", .ofString "Described"), ("group", g.view)]
  | tornDown r => [("type", .ofString "TornDown"), ("teardown", r.toJson)]
  | failed scenario fault =>
    [("type", .ofString "Failed"), ("scenario", scenario.toJson), ("failure", fault.toJson)]

def toJson (o : ScenarioOutcome) : Json.Value :=
  .ofMembers ([("success", .bool o.isSuccess), ("affected_count", .ofNat o.affectedCount),
    ("display", o.textJson)] ++ o.details)

end ScenarioOutcome

namespace Coordinator

variable {σ : Type} [EntityStore σ]

/-- Make a hivemind of the group of the settings, and run an operation on it. -/
def viaHivemind (c : Coordinator σ) (scenario : Scenario)
    (operation : Coordinator σ → EntityId → Report × Coordinator σ) :
    ScenarioOutcome × Coordinator σ :=
  match c.materializeHivemind c.settings.groupLabel with
  | (.ok hive, c) =>
    match operation c hive with
    | (report, c) => (.hivemind hive report, c)
  | (.error fault, c) => (.failed scenario fault, c)

/-- Run a scenario. -/
def run (c : Coordinator σ) (scenario : Scenario) : ScenarioOutcome × Coordinator σ :=
  let s := c.settings
  match scenario with
  | .assignGroupBehavior =>
    match c.assignBehavior s.groupLabel s.behaviorTree s.groupSkin with
    | (report, c) => (.group report, c)
  | .synchronizeSpeed => c.viaHivemind scenario fun c hive => c.propagateSpeed hive s.speedMultiplier
  | .collectiveBehavior => c.viaHivemind scenario fun c hive => c.assignCollective hive s.behaviorTree
  | .restoreBackup =>
    match c.recoverBackup s.groupLabel with
    | (report, c) => (.group report, c)
  | .describeGroup =>
    match c.describeGroup s.groupAsset with
    | .ok definition => (.described definition, c)
    | .error fault => (.failed scenario fault, c)
  | .teardown =>
    match c.teardown with
    | (report, c) => (.tornDown report, c)

end Coordinator

end Herd
