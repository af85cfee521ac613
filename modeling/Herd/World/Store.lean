import Herd.Fault
import Herd.World.Component

/-!
# Entity stores

Group operations reach entities through a store only: they read a component,
change it, and save it back. A store may refuse any write, and a refused write may
still change what the store admits later, so every write gives back the store.
-/

namespace Herd

universe u

/-- Why a store refused a write. -/
inductive StoreFault
  | unknownEntity (entity : EntityId)
  | rejected (entity : EntityId) (reason : String)
deriving DecidableEq

namespace StoreFault

/-- The entity that was to be written. -/
def entity : StoreFault → EntityId
  | unknownEntity entity => entity
  | rejected entity _ => entity

def message : StoreFault → String
  | unknownEntity entity => "unknown entity " ++ entity.text
  | rejected entity reason => "write to " ++ entity.text ++ " rejected: " ++ reason

/-- What a refused write is to a group operation. -/
def toFault (f : StoreFault) : Fault := .writeFailure f.entity f.message

end StoreFault

/-- What a store of entities can do. -/
class EntityStore (σ : Type u) where
  /-- Create an entity with the given name and no components. -/
  create : (name : String) → σ → EntityId × σ
  /-- The entities with a component of a kind. -/
  entitiesWith : (kind : ComponentKind) → σ → List EntityId
  /-- A component of an entity. -/
  get? : EntityId → (kind : ComponentKind) → σ → Option kind.Payload
  /-- Save a component of an entity. -/
  save : EntityId → (kind : ComponentKind) → kind.Payload → σ → Except StoreFault Unit × σ
  /-- Remove a component of an entity, and give it. -/
  remove : EntityId → (kind : ComponentKind) → σ → Except StoreFault (Option kind.Payload) × σ
  /-- Destroy an entity, and tell whether there was one. -/
  destroy : EntityId → σ → Bool × σ

/-- Every entity with a tag of the group, in the order of the store. The empty label has no
members. -/
def membersOf {σ : Type u} [EntityStore σ] (label : String) (store : σ) : List EntityId :=
  if label.isEmpty then []
  else
    (EntityStore.entitiesWith .groupTag store).filter fun e =>
      match (EntityStore.get? e .groupTag store : Option GroupTag) with
      | some tag => tag.isIn label
      | none => false

end Herd
