import Herd.Run.State

/-!
# One tick of a run

`RunState.step` evaluates a tree once. What leaves do is a parameter: a
`LeafEvaluator` answers for each leaf and threads a state of its own, so that the
same step serves one actor, many actors in lock-step, or a record of the leaves
that were reached.

Every node evaluates as a function on a `Visit`, the part of the state that a tick
changes, and the composites are functions on the evaluators of their children:
`ordered` for sequence and selector, `parallel`, and `decorate`. Only `evaluate`
and `evaluators` recurse on the tree.
-/

namespace Herd

universe u

/-- Answers for the leaf at an address, threading a state. -/
abbrev LeafEvaluator (σ : Type u) := NodeId → Leaf → σ → Status × σ

/-- What an evaluation carries along: the notes of the run, the node it leaves running, and
the state of the leaf evaluator. -/
structure Visit (σ : Type u) where
  memory : Memory
  active : Option NodeId
  leaves : σ

/-- A node as a function on visits. -/
abbrev Evaluator (σ : Type u) := Visit σ → Status × Visit σ

variable {σ : Type u}

namespace Visit

/-- Leave a note for the node at `id`. -/
def remember (v : Visit σ) (id : NodeId) (note : NodeMemory) : Visit σ :=
  { v with memory := v.memory.insert id note }

/-- Drop the note of the node at `id`. -/
def forget (v : Visit σ) (id : NodeId) : Visit σ :=
  { v with memory := v.memory.erase id }

/-- Whether an address lies outside the subtree of `size` nodes at `id`. -/
def outside (id size k : NodeId) : Bool := k < id || id + size ≤ k

/-- Take leave of the subtree of `size` nodes at `id`, whose root answered `status`. A
subtree that is done drops its notes and is not active; one that is running is active
from its deepest running node, which is the first to get here. -/
def settle (v : Visit σ) (id size : Nat) (status : Status) : Visit σ :=
  if status.isDone then
    { v with
      memory := v.memory.filterKeys (outside id size)
      active := v.active.filter (outside id size) }
  else
    { v with active := v.active.or (some id) }

/-- The child at which the sequence or selector at `id` resumes. -/
def cursorAt (v : Visit σ) (id : NodeId) : Nat :=
  match v.memory.find? id with
  | some (.cursor index) => index
  | _ => 0

/-- The answers that the `count` children of the parallel at `id` are done with. A note for
another number of children does not count. -/
def slotsAt (v : Visit σ) (id : NodeId) (count : Nat) : List (Option Status) :=
  match v.memory.find? id with
  | some (.finished slots) => if slots.length = count then slots else List.replicate count none
  | _ => List.replicate count none

/-- How often the child of the repetition at `id` has succeeded. -/
def iterationsAt (v : Visit σ) (id : NodeId) : Nat :=
  match v.memory.find? id with
  | some (.iterations count) => count
  | _ => 0

/-- The tick at which the child of the timeout at `id` was entered, which is now if it was
not. -/
def startedAt (v : Visit σ) (id : NodeId) (now : Nat) : Nat :=
  match v.memory.find? id with
  | some (.startedAt tick) => tick
  | _ => now

end Visit

/-! ## Composites over the evaluators of their children -/

/-- Evaluate children in order while they answer `goOn`. The first other answer is that of
the whole; if it is `running`, the child's index is noted. `index` counts the children
already passed. -/
def ordered (goOn : Status) (id : NodeId) (index : Nat) : List (Evaluator σ) → Evaluator σ
  | [], v => (goOn, v)
  | child :: rest, v =>
    match child v with
    | (status, v) =>
      -- a child that goes on has settled and left no note, so nothing is to be dropped here
      if status = goOn then ordered goOn id (index + 1) rest v
      else if status = .running then (status, v.remember id (.cursor index))
      else (status, v)

/-- Evaluate children in order from the one that was noted. -/
def resumed (goOn : Status) (id : NodeId) (children : List (Evaluator σ)) : Evaluator σ :=
  fun v =>
    let start := v.cursorAt id
    ordered goOn id start (children.drop start) v

/-- Evaluate, in order, the children that are not done, and note those that now are. -/
def fillSlots : List (Option Status) → List (Evaluator σ) → Visit σ →
    List (Option Status) × Visit σ
  | some done :: slots, _ :: children, v =>
    match fillSlots slots children v with
    | (slots, v) => (some done :: slots, v)
  | none :: slots, child :: children, v =>
    match child v with
    | (status, v) =>
      match fillSlots slots children v with
      | (slots, v) => ((if status.isDone then some status else none) :: slots, v)
  | slots, _, v => (slots, v)

/-- The answer of a parallel node. It succeeds with enough successes; it fails with too many
failures for that, or when all children are done. -/
def parallelStatus (threshold : Nat) (slots : List (Option Status)) : Status :=
  if threshold ≤ slots.count (some .success) then .success
  else if slots.length - threshold < slots.count (some .failure) ∨ slots.all Option.isSome then
    .failure
  else .running

/-- Evaluate all children that are not done. -/
def parallel (threshold : Nat) (id : NodeId) (children : List (Evaluator σ)) : Evaluator σ :=
  fun v =>
    match fillSlots (v.slotsAt id children.length) children (v.forget id) with
    | (slots, v) =>
      match parallelStatus threshold slots with
      | .running => (.running, v.remember id (.finished slots))
      | status => (status, v)

/-- Evaluate a child up to `remaining` times while it succeeds; it has done so `done` times
before. -/
def repeatChild (id : NodeId) (child : Evaluator σ) : (remaining done : Nat) → Evaluator σ
  | 0, _, v => (.success, v)
  | remaining + 1, done, v =>
    match child v with
    | (.success, v) => repeatChild id child remaining (done + 1) v
    | (.failure, v) => (.failure, v)
    | (.running, v) => (.running, v.remember id (.iterations done))

/-- Evaluate a child under a decorator, in tick `now`. -/
def decorate (now : Nat) (id : NodeId) (child : Evaluator σ) : Decorator → Evaluator σ
  | .inverter, v =>
    match child v with
    | (status, v) => (status.inverted, v)
  | .repeated count, v =>
    let done := v.iterationsAt id
    repeatChild id child (count - done) done v
  | .untilFail, v =>
    match child v with
    | (.failure, v) => (.success, v)
    | (_, v) => (.running, v)
  | .timeout ticks, v =>
    let started := v.startedAt id now
    if ticks ≤ now - started then (.failure, v)
    else
      match child v with
      | (.running, v) => (.running, v.remember id (.startedAt started))
      | (status, v) => (status, v)

/-- Evaluate a subtree of `size` nodes at `id`, then take leave of it. -/
def settled (id size : Nat) (body : Evaluator σ) : Evaluator σ :=
  fun v =>
    match body v with
    | (status, v) => (status, v.settle id size status)

/-! ## Nodes -/

mutual

/-- The evaluator of the node at `id`, in tick `now`. -/
def evaluate (leaf : LeafEvaluator σ) (now : Nat) : Node → NodeId → Evaluator σ
  | .leaf l, id =>
    settled id 1 fun v =>
      match leaf id l v.leaves with
      | (status, leaves) => (status, { v with leaves })
  | .sequence cs, id =>
    settled id (Node.sizeAll cs + 1) (resumed .success id (evaluators leaf now cs (id + 1)))
  | .selector cs, id =>
    settled id (Node.sizeAll cs + 1) (resumed .failure id (evaluators leaf now cs (id + 1)))
  | .decorated d c, id =>
    settled id (c.size + 1) (decorate now id (evaluate leaf now c (id + 1)) d)
  | .parallel threshold cs, id =>
    settled id (Node.sizeAll cs + 1) (parallel threshold id (evaluators leaf now cs (id + 1)))

/-- The evaluators of siblings of which the first is at `id`. -/
def evaluators (leaf : LeafEvaluator σ) (now : Nat) : List Node → NodeId → List (Evaluator σ)
  | [], _ => []
  | c :: cs, id => evaluate leaf now c id :: evaluators leaf now cs (id + c.size)

end

/-- Advance a run by one tick. -/
def RunState.step (s : RunState) (tree : BehaviorTree) (leaf : LeafEvaluator σ) (leaves : σ) :
    Status × RunState × σ :=
  let now := s.tickCount + 1
  match evaluate leaf now tree.root 0 ⟨s.memory, none, leaves⟩ with
  | (status, v) => (status, ⟨now, v.active, some status, v.memory⟩, v.leaves)

end Herd
