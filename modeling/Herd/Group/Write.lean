import Herd.Group.Report
import Herd.World.Store

/-!
# Writes of a turn

A turn saves a component, or changes what its entity runs. A refused save is tallied
as a failure. Behavior and tag change together: the behavior is saved before the tag,
so a behavior that is refused leaves the tag as it was; when the tag is refused the
behavior is put back.
-/

namespace Herd

variable {σ : Type} [EntityStore σ]

/-- Save a component of an entity, and tally `saved` if it is not refused. -/
def saveComponent (saved : Tally) (entity : EntityId) (kind : ComponentKind) (c : kind.Payload)
    (store : σ) : Tally × σ :=
  match EntityStore.save entity kind c store with
  | (.ok (), store) => (saved, store)
  | (.error f, store) => (.fail entity f.toFault, store)

/-- Put back what an entity ran before; if this is refused too, it stays as it is. -/
def revertBehavior (entity : EntityId) (previous : Option Behavior) (store : σ) : σ :=
  match previous with
  | some b => (EntityStore.save entity .behavior b store).2
  | none => (EntityStore.remove entity .behavior store).2

/-- Give an entity another behavior, and a tag that goes with it. -/
def switchBehavior (behavior : Behavior) (tag : GroupTag) (entity : EntityId) (store : σ) :
    Tally × σ :=
  let previous : Option Behavior := EntityStore.get? entity .behavior store
  match EntityStore.save entity .behavior behavior store with
  | (.error f, store) => (.fail entity f.toFault, store)
  | (.ok (), store) =>
    match EntityStore.save entity .groupTag tag store with
    | (.error f, store) => (.fail entity f.toFault, revertBehavior entity previous store)
    | (.ok (), store) => (.affect entity, store)

end Herd
