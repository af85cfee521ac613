import Herd.Fault
import Herd.World.Component

/-!
# Reports of group operations

A pass over a group gives every entity its turn, and each turn adds to a tally:
the entity was affected, was skipped, or failed. A report is the tally of a pass
with what concerns the pass as a whole.
-/

namespace Herd

/-- The operations that give a report. -/
inductive Operation
  | assignBehavior
  | assignCollective
  | recoverBackup
  | propagateSpeed
deriving DecidableEq, Inhabited

namespace Operation

def text : Operation → String
  | assignBehavior => "assign-behavior"
  | assignCollective => "assign-collective"
  | recoverBackup => "recover-backup"
  | propagateSpeed => "propagate-speed"

end Operation

/-- Why an entity was left as it was. -/
inductive SkipReason
  /-- There is no backup to return to. -/
  | missingPriorState
  /-- The entity lacks a component that the operation changes. -/
  | missingComponent (kind : ComponentKind)
  /-- What was asked for is there already. -/
  | unchanged
deriving DecidableEq

/-- What became of entities, each list in the order of their turns. -/
structure Tally where
  affected : List EntityId
  skipped : List (EntityId × SkipReason)
  failures : List (EntityId × Fault)
deriving DecidableEq, Inhabited

namespace Tally

def empty : Tally := ⟨[], [], []⟩

instance : EmptyCollection Tally := ⟨empty⟩

/-- One tally after another. -/
instance : Append Tally :=
  ⟨fun a b => ⟨a.affected ++ b.affected, a.skipped ++ b.skipped, a.failures ++ b.failures⟩⟩

def affect (entity : EntityId) : Tally := ⟨[entity], [], []⟩

def skip (entity : EntityId) (reason : SkipReason) : Tally := ⟨[], [(entity, reason)], []⟩

def fail (entity : EntityId) (fault : Fault) : Tally := ⟨[], [], [(entity, fault)]⟩

/-- Give each entity its turn on a state, and tally what became of them. -/
def pass {σ : Type} (turn : EntityId → σ → Tally × σ) : List EntityId → σ → Tally × σ
  | [], s => (∅, s)
  | entity :: rest, s =>
    match turn entity s with
    | (t, s) =>
      match pass turn rest s with
      | (ts, s) => (t ++ ts, s)

end Tally

/-- The outcome of one pass over a group. -/
structure Report extends Tally where
  operation : Operation
  label : String
  /-- What went wrong without harm to an entity. -/
  warnings : List Fault
  /-- Why the pass did not take place, if it did not. -/
  aborted : Option Fault
deriving DecidableEq

namespace Report

/-- The report of a pass that took place. -/
def ofTally (operation : Operation) (label : String) (tally : Tally) : Report :=
  { tally with operation, label, warnings := [], aborted := none }

/-- The report of a pass that did not take place. -/
def abort (operation : Operation) (label : String) (fault : Fault) : Report :=
  { Tally.empty with operation, label, warnings := [], aborted := some fault }

instance : Inhabited Report := ⟨ofTally default "" ∅⟩

def affectedCount (r : Report) : Nat := r.affected.length

/-- The pass took place and no entity failed. -/
def isSuccess (r : Report) : Bool := r.aborted.isNone && r.failures.isEmpty

/-- No entity was affected. -/
def isNoop (r : Report) : Bool := r.affected.isEmpty

def wasSkipped (r : Report) (entity : EntityId) : Bool := r.skipped.any (·.1 = entity)

def failed (r : Report) (entity : EntityId) : Bool := r.failures.any (·.1 = entity)

/-- No entity occurs in the report. -/
def isUntouched (r : Report) : Bool := r.affected.isEmpty && r.skipped.isEmpty && r.failures.isEmpty

/-- What there was nothing to do about, as benign faults: that the group is empty, or else
which entities had no backup. -/
def notices (r : Report) : List Fault :=
  if r.aborted.isNone && r.isUntouched then [.emptyGroup r.label]
  else (r.skipped.filter (·.2 = .missingPriorState)).map fun e => .missingPriorState e.1

/-- A line about the pass. -/
def text (r : Report) : String :=
  let subject := r.operation.text ++ " on '" ++ r.label ++ "'"
  match r.aborted with
  | some fault => subject ++ " aborted: " ++ fault.message
  | none =>
    subject ++ ": " ++ toString r.affected.length ++ " affected, " ++ toString r.skipped.length ++
      " skipped, " ++ toString r.failures.length ++ " failed"

end Report

end Herd
