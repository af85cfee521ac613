import Herd.Coordinator

/-!
# Teardown

Every hivemind and every tagged entity is destroyed, hiveminds first. An entity
that is both counts as a hivemind.
-/

namespace Herd

variable {σ : Type} [EntityStore σ]

/-- The entities that a teardown destroyed. -/
structure TeardownReport where
  hiveminds : List EntityId
  tagged : List EntityId
deriving DecidableEq, Inhabited

namespace TeardownReport

def total (r : TeardownReport) : Nat := r.hiveminds.length + r.tagged.length

end TeardownReport

/-- Destroy entities, and list those that there were. -/
def destroyAll : List EntityId → σ → List EntityId × σ
  | [], store => ([], store)
  | entity :: rest, store =>
    match EntityStore.destroy entity store with
    | (found, store) =>
      match destroyAll rest store with
      | (destroyed, store) => (if found then entity :: destroyed else destroyed, store)

/-- Destroy every hivemind, then every entity with a tag. -/
def Coordinator.teardown (c : Coordinator σ) : TeardownReport × Coordinator σ :=
  match destroyAll (EntityStore.entitiesWith .hivemind c.store) c.store with
  | (hiveminds, store) =>
    match destroyAll (EntityStore.entitiesWith .groupTag store) store with
    | (tagged, store) => (⟨hiveminds, tagged⟩, { c with store })

end Herd
