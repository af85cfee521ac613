import Herd.Run.Step
import Herd.Run.Actor

/-!
# A run shared by many actors

A `CollectiveRun` ticks one tree for a fixed set of actors in lock-step. The place
in the tree is shared: a leaf is evaluated for every actor in turn, and what the
tree sees is the statuses combined by a policy. What the leaf did to each actor
is listed in the tick's outcomes.
-/

namespace Herd

universe u

/-- How the statuses of a leaf combine. -/
inductive CollectivePolicy
  /-- Running while anyone is, and successful only if all are. -/
  | all
  /-- Successful as soon as anyone is. -/
  | any
deriving DecidableEq, Inhabited

namespace CollectivePolicy

/-- The shared status of a leaf. Without actors a leaf fails. -/
def combine (policy : CollectivePolicy) (statuses : List Status) : Status :=
  match policy with
  | all =>
    if statuses.isEmpty then .failure
    else if .running ∈ statuses then .running
    else if statuses.all (· = .success) then .success
    else .failure
  | any =>
    if .success ∈ statuses then .success
    else if .running ∈ statuses then .running
    else .failure

end CollectivePolicy

/-- What one leaf did to one actor. -/
structure LeafOutcome where
  node : NodeId
  entity : EntityId
  status : Status
deriving DecidableEq

/-- The result of a tick. -/
structure CollectiveTick where
  /-- The status of the root; without actors there is none. -/
  status : Option Status
  /-- What leaves did to actors, in the order of evaluation. -/
  outcomes : List LeafOutcome
deriving DecidableEq

namespace CollectiveTick

/-- The outcomes that concern one actor. -/
def forActor (t : CollectiveTick) (entity : EntityId) : List LeafOutcome :=
  t.outcomes.filter (·.entity = entity)

end CollectiveTick

/-- One run of a tree, shared by a fixed set of actors. -/
structure CollectiveRun where
  actors : List Actor
  tree : BehaviorTree
  state : RunState
  policy : CollectivePolicy

namespace CollectiveRun

/-- Keep the first actor of each entity. -/
def distinct (actors : List Actor) : List Actor :=
  actors.foldl (fun kept a => if kept.any (·.entity = a.entity) then kept else kept ++ [a]) []

/-- A run that starts at the root. -/
def start (actors : List Actor) (tree : BehaviorTree) (policy : CollectivePolicy) :
    CollectiveRun :=
  ⟨distinct actors, tree, .fresh, policy⟩

/-- The state that leaves thread: the actors, the handler's state, and the outcomes so far. -/
structure Crowd (σ : Type u) where
  actors : List Actor
  handler : σ
  outcomes : List LeafOutcome

/-- Evaluate a leaf for each actor in turn. -/
def evaluateAll {σ : Type u} (h : ActionHandler σ) (leaf : Leaf) :
    List Actor → σ → List Status × List Actor × σ
  | [], s => ([], [], s)
  | actor :: rest, s =>
    match h.evaluate leaf actor s with
    | (status, actor, s) =>
      match evaluateAll h leaf rest s with
      | (statuses, rest, s) => (status :: statuses, actor :: rest, s)

/-- The leaves of a tree as they act on all actors. -/
def leaves {σ : Type u} (h : ActionHandler σ) (policy : CollectivePolicy) :
    LeafEvaluator (Crowd σ) :=
  fun id leaf c =>
    match evaluateAll h leaf c.actors c.handler with
    | (statuses, actors, handler) =>
      let block := List.zipWith (fun a status => ⟨id, a.entity, status⟩) actors statuses
      (policy.combine statuses, ⟨actors, handler, c.outcomes ++ block⟩)

/-- Tick the tree once for all actors. Without actors nothing happens. -/
def tick {σ : Type u} (r : CollectiveRun) (h : ActionHandler σ) (s : σ) :
    CollectiveTick × CollectiveRun × σ :=
  if r.actors.isEmpty then (⟨none, []⟩, r, s)
  else
    match r.state.step r.tree (leaves h r.policy) ⟨r.actors, s, []⟩ with
    | (status, state, c) =>
      (⟨some status, c.outcomes⟩, { r with actors := c.actors, state }, c.handler)

/-- Change to another tree and start at its root; the actors stay. -/
def setTree (r : CollectiveRun) (tree : BehaviorTree) : CollectiveRun :=
  { r with tree, state := .fresh }

/-- The entities of the run, in order. -/
def members (r : CollectiveRun) : List EntityId := r.actors.map (·.entity)

end CollectiveRun

end Herd
