import Herd.Coordinator

/-!
# Hiveminds

A hivemind is an entity that holds the members of a group at the moment it was
made. Each call makes a new entity; if the store refuses the component, the
entity is destroyed again.
-/

namespace Herd

variable {σ : Type} [EntityStore σ]

/-- The name of the entities that carry hiveminds. -/
def hivemindEntityName : String := "hivemindEntity"

/-- Make a hivemind of the members of a group. -/
def Coordinator.materializeHivemind (c : Coordinator σ) (label : String) :
    Except Fault EntityId × Coordinator σ :=
  match EntityStore.create hivemindEntityName c.store with
  | (entity, store) =>
    let hive := Hivemind.ofMembers label (membersOf label store)
    match EntityStore.save entity .hivemind hive store with
    | (.ok (), store) => (.ok entity, { c with store })
    | (.error f, store) => (.error f.toFault, { c with store := (EntityStore.destroy entity store).2 })

end Herd
