import Herd.Coordinator
import Herd.Group.Write

/-!
# Speed of a hivemind

One speed for every member of a hivemind that moves. Members without movement are
skipped.
-/

namespace Herd

variable {σ : Type} [EntityStore σ]

namespace Speed

/-- The turn of a member. -/
def turn (multiplier : Float32) (entity : EntityId) (store : σ) : Tally × σ :=
  match (EntityStore.get? entity .characterMovement store : Option CharacterMovement) with
  | none => (.skip entity (.missingComponent .characterMovement), store)
  | some movement =>
    saveComponent (.affect entity) entity .characterMovement
      { movement with speedMultiplier := multiplier } store

end Speed

/-- Set the speed of every member of the hivemind that an entity carries. -/
def Coordinator.propagateSpeed (c : Coordinator σ) (entity : EntityId) (multiplier : Float32) :
    Report × Coordinator σ :=
  match c.hivemind? entity with
  | none => (.abort .propagateSpeed "" (.notAHivemind entity), c)
  | some hive =>
    match Tally.pass (Speed.turn multiplier) hive.members c.store with
    | (tally, store) => (.ofTally .propagateSpeed hive.label tally, { c with store })

end Herd
