import Herd.Run.Step
import Herd.Run.Actor

/-!
# The run of one actor, and its snapshots

A `Run` ticks one tree for one actor. A `Snapshot` is everything about a run but
the tree itself, of which it keeps the id; over a tree of that id it resumes
exactly where it was taken.
-/

namespace Herd

universe u

/-- One actor's run of a tree. -/
structure Run where
  actor : Actor
  tree : BehaviorTree
  state : RunState

/-- A run at one instant, without its tree. -/
structure Snapshot where
  /-- The tree it was taken over. -/
  tree : ResourceId
  actor : Actor
  state : RunState
deriving DecidableEq, Inhabited

namespace Snapshot

/-- Equality of snapshots, where ids are the same whatever their spelling. -/
def alike (a b : Snapshot) : Bool := a.tree.same b.tree && a.actor == b.actor && a.state == b.state

end Snapshot

namespace Run

/-- A run that starts at the root. -/
def start (actor : Actor) (tree : BehaviorTree) : Run := ⟨actor, tree, .fresh⟩

instance : Inhabited Run := ⟨start default default⟩

/-- The leaves of a tree as they act on one actor. -/
def leaves {σ : Type u} (h : ActionHandler σ) : LeafEvaluator (Actor × σ) :=
  fun _ leaf s => h.evaluate leaf s.1 s.2

/-- Tick the tree once. -/
def tick {σ : Type u} (r : Run) (h : ActionHandler σ) (s : σ) : Status × Run × σ :=
  match r.state.step r.tree (leaves h) (r.actor, s) with
  | (status, state, actor, s) => (status, { r with actor, state }, s)

/-- Change to another tree and start at its root. -/
def setTree (r : Run) (tree : BehaviorTree) : Run := { r with tree, state := .fresh }

def snapshot (r : Run) : Snapshot := ⟨r.tree.id, r.actor, r.state⟩

/-- Take up a snapshot over `tree`, which has to be the one it was taken over. -/
def resume (tree : BehaviorTree) (s : Snapshot) : Except Fault Run :=
  if tree.id.same s.tree then .ok ⟨s.actor, tree, s.state⟩
  else .error (.snapshotMismatch s.tree.text tree.id.text)

theorem tree_tick {σ : Type u} (r : Run) (h : ActionHandler σ) (s : σ) :
    (r.tick h s).2.1.tree = r.tree := by
  unfold tick
  split
  rfl

/-- A snapshot that is taken up is a run of the tree it is taken up over. -/
theorem eq_of_resume {tree : BehaviorTree} {s : Snapshot} {r : Run} (h : resume tree s = .ok r) :
    r = ⟨s.actor, tree, s.state⟩ := by
  unfold resume at h
  split at h
  · cases h
    rfl
  · cases h

/-- Over its own tree a run is taken up as it was. -/
theorem resume_snapshot (r : Run) : resume r.tree r.snapshot = .ok r := by
  have hsame : r.tree.id.same r.snapshot.tree = true := beq_self_eq_true _
  rw [resume, if_pos hsame]
  rfl

end Run

end Herd
