import Herd.Run.Actor
import Herd.Random.Stream

/-!
# Scripted actions

A handler whose answers are laid down beforehand. An action answers what the
script says for that actor, else what it says for the action, else it fails; a
condition that the script does not mention is false. Chances are rolled from a
seeded stream. Every action is logged, and leaves its name on the blackboard.
-/

namespace Herd

/-- What the script says, and what was done so far. -/
structure Script where
  /-- Answers of actions, latest first. -/
  results : List (String × Status)
  /-- Answers of conditions, latest first. -/
  conditions : List (String × Bool)
  /-- Answers of an action for one entity, latest first. -/
  overrides : List ((EntityId × String) × Status)
  stream : Random.Stream
  /-- The actions performed, in order. -/
  log : List (EntityId × String)

namespace Script

/-- An empty script with a seeded stream. -/
def ofSeed (seed : Nat) : Script := ⟨[], [], [], .ofSeed seed, []⟩

instance : Inhabited Script := ⟨ofSeed 0⟩

/-- Lay down the answer of an action. -/
def setResult (s : Script) (name : String) (status : Status) : Script :=
  { s with results := (name, status) :: s.results }

/-- Lay down the answer of an action for one entity. -/
def setOverride (s : Script) (entity : EntityId) (name : String) (status : Status) : Script :=
  { s with overrides := ((entity, name), status) :: s.overrides }

/-- Lay down the answer of a condition. -/
def setCondition (s : Script) (name : String) (value : Bool) : Script :=
  { s with conditions := (name, value) :: s.conditions }

def clearLog (s : Script) : Script := { s with log := [] }

/-- What an action of an entity answers. -/
def resultFor (s : Script) (entity : EntityId) (name : String) : Status :=
  match s.overrides.lookup (entity, name) with
  | some status => status
  | none => (s.results.lookup name).getD .failure

/-- What a condition answers. -/
def holds (s : Script) (name : String) : Bool := (s.conditions.lookup name).getD false

/-- Where an action leaves its name. -/
def lastActionKey : String := "last_action"

/-- Scripts as handlers. -/
def handler : ActionHandler Script where
  act actor name s :=
    (s.resultFor actor.entity name,
      { actor with blackboard := actor.blackboard.insert lastActionKey name },
      { s with log := s.log ++ [(actor.entity, name)] })
  check _ name s := (s.holds name, s)
  roll _ p s :=
    match s.stream.roll p with
    | (passed, stream) => (passed, { s with stream })

/-- A script writes to the blackboard of an actor and nowhere else. -/
theorem handler_keepsEntity : handler.KeepsEntity := fun _ _ _ => rfl

end Script

end Herd
