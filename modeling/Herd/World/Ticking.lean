import Herd.World.Store

/-!
# Ticking what entities run

A stored behavior is read, ticked, and saved back. The tick takes place even when
the store refuses to save it; then its effects on the handler stay and those on
the run are lost.
-/

namespace Herd

universe u

variable {σ : Type} [EntityStore σ] {α : Type u}

/-- Tick the behavior of an entity, if it has one. -/
def tickBehavior (h : ActionHandler α) (entity : EntityId) (s : α) (store : σ) :
    Option (Status × Except StoreFault Unit) × α × σ :=
  match (EntityStore.get? entity .behavior store : Option Behavior) with
  | none => (none, s, store)
  | some b =>
    match b.run.tick h s with
    | (status, run, s) =>
      match EntityStore.save entity .behavior { b with run } store with
      | (saved, store) => (some (status, saved), s, store)

/-- Tick the collective behavior of an entity, if it has one. -/
def tickCollective (h : ActionHandler α) (entity : EntityId) (s : α) (store : σ) :
    Option (CollectiveTick × Except StoreFault Unit) × α × σ :=
  match (EntityStore.get? entity .collectiveBehavior store : Option CollectiveBehavior) with
  | none => (none, s, store)
  | some c =>
    match c.run.tick h s with
    | (tick, run, s) =>
      match EntityStore.save entity .collectiveBehavior { c with run } store with
      | (saved, store) => (some (tick, saved), s, store)

/-- Change the tree that an entity runs and start at its root. The tree the entity was
given stays on record. -/
def restartBehavior (tree : BehaviorTree) (entity : EntityId) (store : σ) :
    Option (Except StoreFault Unit) × σ :=
  match (EntityStore.get? entity .behavior store : Option Behavior) with
  | none => (none, store)
  | some b =>
    match EntityStore.save entity .behavior { b with run := b.run.setTree tree } store with
    | (saved, store) => (some saved, store)

end Herd
