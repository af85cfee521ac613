import Herd.Proofs.Run.Active
import Herd.Proofs.Run.Delay
import Herd.Proofs.Run.Frontier

/-!
# A finished run starts over

A run whose last tick answered success or failure has no notes and no active node. What
is left of its past is the tick count, so from there on it is a fresh run that started
late (`Reachable.restarts`): it gives the same answers, evaluates the same leaves, and
goes through the same states, with the tick count and the dates of timeouts moved by the
ticks that it had taken.
-/

namespace Herd

universe u v

namespace RunState

/-- The states of a run after each tick, from a state on. -/
def states {σ : Type v} (tree : BehaviorTree) : List (Round σ) → RunState → σ → List RunState
  | [], _, _ => []
  | round :: rest, s, x =>
    match s.step tree round.leaf (round.prepare x) with
    | (_, s', x') => s' :: states tree rest s' x'

/-! ## Trailing runs -/

section Trailing

variable {σ : Type v} (tree : BehaviorTree) (ticks : Nat) (rounds : List (Round σ))

/-- A later run shows what the run shows that it trails. -/
theorem sights_delayed : ∀ (s : RunState) (x : σ),
    sights tree rounds (s.delayed ticks) x = sights tree rounds s x := by
  induction rounds with
  | nil => exact fun s x => rfl
  | cons round rest ih =>
    intro s x
    simp only [sights, step_delayed, ih]

/-- A later run goes through the states of the run that it trails, as much later. -/
theorem states_delayed : ∀ (s : RunState) (x : σ),
    states tree rounds (s.delayed ticks) x = (states tree rounds s x).map (·.delayed ticks) := by
  induction rounds with
  | nil => exact fun s x => rfl
  | cons round rest ih =>
    intro s x
    simp only [states, step_delayed, ih, List.map_cons]

/-- A step looks at the tick count and the notes of a state and at nothing else. -/
theorem step_congr {s t : RunState} (hticks : s.tickCount = t.tickCount)
    (hmemory : s.memory = t.memory) (leaf : LeafEvaluator σ) (x : σ) :
    s.step tree leaf x = t.step tree leaf x := by
  simp only [step, hticks, hmemory]

variable {s t : RunState} (hticks : s.tickCount = t.tickCount) (hmemory : s.memory = t.memory)

include hticks hmemory

/-- What a run shows is up to its notes and its clock, not to what it answered last. -/
theorem sights_congr (x : σ) : sights tree rounds s x = sights tree rounds t x := by
  cases rounds with
  | nil => rfl
  | cons round rest => simp only [sights, step_congr tree hticks hmemory]

theorem states_congr (x : σ) : states tree rounds s x = states tree rounds t x := by
  cases rounds with
  | nil => rfl
  | cons round rest => simp only [states, step_congr tree hticks hmemory]

end Trailing

/-! ## Finished runs -/

section Finished

variable {tree : BehaviorTree} {s : RunState} {status : Status}

/-- A run that is done has no active node. -/
theorem Reachable.active_eq_none (h : Reachable.{u} tree s) (hlast : s.lastStatus = some status)
    (hdone : status.isDone = true) : s.active = none := by
  induction h with
  | fresh => cases hlast
  | step h leaf x _ =>
    obtain rfl := Option.some.inj hlast
    exact active_evaluate_of_isDone leaf _ tree.root 0 rfl hdone
  | resume h hrun ih =>
    rw [Run.eq_of_resume hrun] at hlast ⊢
    exact ih hlast

/-- A run that is done has no notes. -/
theorem Reachable.memory_eq_empty (h : Reachable.{u} tree s) (hlast : s.lastStatus = some status)
    (hdone : status.isDone = true) : s.memory = .empty := by
  obtain ⟨p, hp⟩ := h.represents
  cases p with
  | none => exact hp.memory_eq_empty
  | some q =>
    obtain rfl : status = .running := Option.some.inj (hlast.symm.trans (hp.status.mpr rfl))
    cases hdone

/-- **A finished run is a fresh run that starts late**: it is at the root, and whatever the leaves
answer from then on, it shows what a fresh run shows and goes through the states of a fresh run,
later by the ticks that it has taken. -/
theorem Reachable.restarts (h : Reachable.{u} tree s) (hlast : s.lastStatus = some status)
    (hdone : status.isDone = true) :
    s.isAtRoot = true ∧ s.memory = .empty ∧ s.active = none ∧
      ∀ {σ : Type v} (rounds : List (Round σ)) (x : σ),
        sights tree rounds s x = sights tree rounds .fresh x ∧
        states tree rounds s x = (states tree rounds .fresh x).map (·.delayed s.tickCount) := by
  have hmemory := h.memory_eq_empty hlast hdone
  have hactive := h.active_eq_none hlast hdone
  have hticks : s.tickCount = (RunState.fresh.delayed s.tickCount).tickCount :=
    (Nat.zero_add _).symm
  refine ⟨?_, hmemory, hactive, fun rounds x => ⟨?_, ?_⟩⟩
  · rw [isAtRoot, hmemory, hactive]
    rfl
  · rw [sights_congr tree rounds hticks hmemory, sights_delayed]
  · rw [states_congr tree rounds hticks hmemory, states_delayed]

/-- A walk that is given up in its third tick; taken up again, it is dated from the fourth. -/
theorem walk_restarts :
    let tree : BehaviorTree :=
      ⟨⟨none, "stroll"⟩, .decorated (.timeout 2) (.leaf (.action "walk"))⟩
    let leaf : LeafEvaluator Unit := fun _ _ x => (.running, x)
    let tick : RunState → RunState := fun s => (s.step tree leaf ()).2.1
    let s := tick (tick (tick .fresh))
    s.lastStatus = some .failure ∧ s.isAtRoot = true ∧
      (tick .fresh).memory.entries = [(0, .startedAt 1)] ∧
      (tick s).memory.entries = [(0, .startedAt 4)] ∧
      sights tree [⟨id, leaf⟩] s () = [⟨.running, [(1, .action "walk")]⟩] := by
  intro tree leaf tick s
  have hs : Reachable.{0} tree s := .step (.step (.step .fresh leaf ()) leaf ()) leaf ()
  have hlast : s.lastStatus = some .failure := by decide
  obtain ⟨hroot, -, -, hruns⟩ := hs.restarts hlast rfl
  obtain ⟨hsights, hstates⟩ := hruns [⟨id, leaf⟩] ()
  have hdated : [tick s] = [(tick .fresh).delayed s.tickCount] := hstates
  refine ⟨hlast, hroot, by decide, ?_, ?_⟩
  · rw [(List.cons.inj hdated).1]
    decide
  · rw [hsights]
    decide

end Finished

end RunState

end Herd
