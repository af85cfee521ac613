import Herd.Entity
import Herd.Table
import Herd.Tree.Node

/-!
# Actors and what leaves do to them

The tree decides which leaf is reached; an `ActionHandler` decides what the leaf
does to an actor. A handler has a state of its own. An action is handed the actor
and gives it back as it leaves it; what it is there for is the blackboard, but it
may as well give back an actor for another entity. A handler that never does keeps
entities (`ActionHandler.KeepsEntity`).
-/

namespace Herd

universe u

/-- Scratch values that actions leave with an actor. -/
abbrev Blackboard := Table String String

/-- An entity as a tree sees it. -/
structure Actor where
  entity : EntityId
  blackboard : Blackboard
deriving DecidableEq

namespace Actor

/-- An actor with an empty blackboard. -/
def ofEntity (entity : EntityId) : Actor := ⟨entity, .empty⟩

instance : Inhabited Actor := ⟨ofEntity default⟩

end Actor

/-- What leaves do to an actor, over a state `σ`. -/
structure ActionHandler (σ : Type u) where
  /-- Execute an action. The actor is the one that stands from then on. -/
  act : Actor → (name : String) → σ → Status × Actor × σ
  /-- Ask a condition. -/
  check : Actor → (name : String) → σ → Bool × σ
  /-- Roll a chance. -/
  roll : Actor → (probability : Float) → σ → Bool × σ

namespace ActionHandler

/-- Evaluate a leaf for an actor. -/
def evaluate {σ : Type u} (h : ActionHandler σ) (leaf : Leaf) (actor : Actor) (s : σ) :
    Status × Actor × σ :=
  match leaf with
  | .action name => h.act actor name s
  | .condition name =>
    match h.check actor name s with
    | (passed, s) => (.ofBool passed, actor, s)
  | .chance p =>
    match h.roll actor p s with
    | (passed, s) => (.ofBool passed, actor, s)

/-- Actions leave an actor standing for the entity that it stood for. An actor is a handle over
an entity with scratch values that actions write, so this is what is expected of a handler; it
is not enforced, and where a fact needs it, the fact asks for it. -/
def KeepsEntity {σ : Type u} (h : ActionHandler σ) : Prop :=
  ∀ actor name s, (h.act actor name s).2.1.entity = actor.entity

/-- With such a handler no leaf changes for whom an actor stands. -/
theorem KeepsEntity.evaluate {σ : Type u} {h : ActionHandler σ} (hh : h.KeepsEntity) (leaf : Leaf)
    (actor : Actor) (s : σ) : (h.evaluate leaf actor s).2.1.entity = actor.entity := by
  cases leaf with
  | action name => exact hh actor name s
  | condition name => rfl
  | chance p => rfl

end ActionHandler

end Herd
