import Herd.Proofs.Run.Simulation

/-!
# Runs implement tree-shaped progress

A run keeps all notes in one table, by address and dated by tick. Seen from outside,
which is what the root answers in each tick and which leaves are evaluated, it is the
run of a `machine` whose state has the shape of the tree (`sights_eq_sights_progress`),
for whatever the leaves answer and whatever happens to their state between ticks.

`Represents` ties a run state to a state of the root; it holds at the start, each step
keeps it (`Represents.step`), and so it holds along every run.
-/

namespace Herd

universe u

variable {σ : Type u}

/-- The notes of a run are the state `p` of the root, and the root is in progress where the last
tick left it running. -/
structure RunState.Represents (s : RunState) (root : Node) (p : Option Progress) : Prop where
  holds : Holds s.memory (s.tickCount + 1) root 0 p
  beyond : ∀ k : Nat, root.size ≤ k → s.memory.find? k = none
  status : s.lastStatus = some .running ↔ p.isSome

theorem RunState.represents_fresh (root : Node) : RunState.fresh.Represents root none :=
  ⟨Holds.idle fun _ _ _ => rfl, fun _ _ => rfl, by simp [RunState.fresh]⟩

/-- One step of a run is one run of the machine of the root. -/
theorem RunState.Represents.step {s : RunState} {tree : BehaviorTree} {p : Option Progress}
    (h : s.Represents tree.root p) (leaf : LeafEvaluator σ) (x : σ) :
    (s.step tree leaf x).1 = (machine leaf tree.root 0 p x).1.status ∧
      (s.step tree leaf x).2.2 = (machine leaf tree.root 0 p x).2 ∧
      (s.step tree leaf x).2.1.Represents tree.root (machine leaf tree.root 0 p x).1.state? := by
  have htracks := evaluate_tracks leaf (s.tickCount + 1) tree.root 0 ⟨s.memory, none, x⟩ p h.holds
  obtain ⟨answer, w, hr, ha, hholds, hframe⟩ := htracks.elim
  -- the notes are those for the next tick, which is the clock of the new state
  simp only [RunState.step, hr, ha]
  refine ⟨trivial, trivial, hholds, fun k hk => ?_, ?_⟩
  · exact (hframe k (by omega)).trans (h.beyond k hk)
  · cases answer with
    | done b => cases b <;> simp [Answer.status, Answer.state?, Status.ofBool]
    | running q => simp [Answer.status, Answer.state?]

/-! ## What a run shows -/

/-- A tick as the leaves see it: what becomes of their state beforehand, and how they answer. -/
structure Round (σ : Type u) where
  prepare : σ → σ
  leaf : LeafEvaluator σ

/-- What a tick shows: the answer of the root, and the leaves evaluated, in order. -/
structure Sight where
  status : Status
  leaves : List (NodeId × Leaf)
deriving DecidableEq

/-- Evaluate leaves, and list them. -/
def LeafEvaluator.recorded (leaf : LeafEvaluator σ) :
    LeafEvaluator (σ × List (NodeId × Leaf)) := fun id l s =>
  match leaf id l s.1 with
  | (status, x) => (status, (x, s.2 ++ [(id, l)]))

/-- What a run shows from a state on. -/
def RunState.sights (tree : BehaviorTree) : List (Round σ) → RunState → σ → List Sight
  | [], _, _ => []
  | round :: rest, s, x =>
    let x := round.prepare x
    match s.step tree round.leaf x, s.step tree round.leaf.recorded (x, []) with
    | (status, s', x'), (_, _, _, leaves) => ⟨status, leaves⟩ :: sights tree rest s' x'

/-- What the machine of a root shows from a state on. -/
def Progress.sights (root : Node) : List (Round σ) → Option Progress → σ → List Sight
  | [], _, _ => []
  | round :: rest, p, x =>
    let x := round.prepare x
    match machine round.leaf root 0 p x, machine round.leaf.recorded root 0 p (x, []) with
    | (answer, x'), (_, _, leaves) => ⟨answer.status, leaves⟩ :: sights root rest answer.state? x'

/-- A state shows what the progress that it represents does. -/
theorem RunState.Represents.sights {tree : BehaviorTree} (rounds : List (Round σ)) :
    ∀ {s : RunState} {p : Option Progress} {x : σ}, s.Represents tree.root p →
      RunState.sights tree rounds s x = Progress.sights tree.root rounds p x := by
  induction rounds with
  | nil => intro s p x _; rfl
  | cons round rest ih =>
    intro s p x h
    obtain ⟨hstatus, hleaves, hnext⟩ := h.step round.leaf (round.prepare x)
    -- the list of leaves is part of the state of the recording evaluator
    obtain ⟨-, hrecorded, -⟩ := h.step round.leaf.recorded (round.prepare x, [])
    simp only [RunState.sights, Progress.sights, hstatus, hleaves, hrecorded, ih hnext]

/-- **Flat notes implement tree-shaped progress**: over any tree and any leaves, a run from the
start gives the same answers and evaluates the same leaves in the same order as the machine of the
root from the idle state, tick for tick. -/
theorem sights_eq_sights_progress (tree : BehaviorTree) (rounds : List (Round σ)) (x : σ) :
    RunState.sights tree rounds .fresh x = Progress.sights tree.root rounds none x :=
  (RunState.represents_fresh tree.root).sights rounds

end Herd
