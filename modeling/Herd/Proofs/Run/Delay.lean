import Herd.Proofs.Run.Mirror

/-!
# Runs that started later

Ticks are counted from the start of a run, and the notes of timeouts are dated by them.
`delayed` moves these dates by a number of ticks. A step only looks at how long ago a
timeout was entered, never at the date itself, so a step from later notes gives the same
answer and leaves the same notes, as much later (`step_delayed`).

Moving the dates is a `Mirror`, so the composites are treated already; the tree only joins them
(`evaluate_trails`).
-/

namespace Herd

universe u v

/-! ## Tables with other values -/

namespace Table

variable {κ : Type u} {ν : Type v} [Ord κ]

/-- Replace each value. -/
def mapValues (f : ν → ν) (t : Table κ ν) : Table κ ν :=
  ⟨t.entries.map fun e => (e.1, f e.2), List.pairwise_map.mpr (t.ascending.imp fun h => h)⟩

/-- Entries are mapped where they are. -/
theorem find?_mapValues (f : ν → ν) (t : Table κ ν) (k : κ) :
    (t.mapValues f).find? k = (t.find? k).map f := by
  have key : ∀ l : List (κ × ν),
      lookupIn k (l.map fun e => (e.1, f e.2)) = (lookupIn k l).map f := by
    intro l
    induction l with
    | nil => rfl
    | cons e rest ih => by_cases h : compare k e.1 = .eq <;> simp [lookupIn, h, ih]
  exact key t.entries

/-- Entries may be dropped before or after they are mapped. -/
theorem mapValues_filterKeys (f : ν → ν) (t : Table κ ν) (keep : κ → Bool) :
    (t.filterKeys keep).mapValues f = (t.mapValues f).filterKeys keep := by
  simp only [mapValues, filterKeys, List.filter_map]
  rfl

theorem mapValues_insert [Std.TransOrd κ] [Std.LawfulEqOrd κ] (f : ν → ν) (t : Table κ ν)
    (k : κ) (x : ν) : (t.insert k x).mapValues f = (t.mapValues f).insert k (f x) := by
  refine ext_find? fun k' => ?_
  rw [find?_mapValues]
  by_cases h : k' = k
  · rw [h, find?_insert_self, find?_insert_self, Option.map_some]
  · rw [find?_insert_of_ne _ h, find?_insert_of_ne _ h, find?_mapValues]

end Table

/-! ## Notes -/

/-- The same notes, dated later. -/
def Memory.delayed (ticks : Nat) (m : Memory) : Memory := m.mapValues (·.delayed ticks)

/-- The same visit of a run whose notes are dated later. -/
def Visit.delayed {σ : Type u} (ticks : Nat) (v : Visit σ) : Visit σ :=
  { v with memory := Memory.delayed ticks v.memory }

/-- A visit with later notes goes with all that is done to visits. -/
theorem mirror_delayed {σ : Type u} (ticks : Nat) :
    Mirror ticks (Visit.delayed (σ := σ) ticks) where
  remember v id note := by
    simp only [Visit.delayed, Visit.remember, Memory.delayed, Table.mapValues_insert]
  forget v id := by
    simp only [Visit.delayed, Visit.forget, Memory.delayed, Table.erase, Table.mapValues_filterKeys]
  settle v id size status := by
    unfold Visit.settle
    split
    · simp only [Visit.delayed, Memory.delayed, Table.mapValues_filterKeys]
    · rfl
  find? v id := Table.find?_mapValues _ v.memory id

/-! ## Nodes and runs -/

variable {σ : Type u} (leaf : LeafEvaluator σ)

/-- `g` does with later notes what `f` does, and leaves notes that are as much later. -/
def Trails (ticks : Nat) (f g : Evaluator σ) : Prop := Mirrors (Visit.delayed ticks) f g

/-- The evaluators of siblings, one by one. -/
theorem evaluators_trails {ticks now : Nat} {cs : List Node}
    (hcs : ∀ c ∈ cs, ∀ id : NodeId,
      Trails ticks (evaluate leaf now c id) (evaluate leaf (now + ticks) c id)) :
    ∀ first : NodeId, List.Forall₂ (Trails ticks) (evaluators leaf now cs first)
      (evaluators leaf (now + ticks) cs first) := by
  induction cs with
  | nil => exact fun first => .nil
  | cons c cs ih =>
    intro first
    simp only [evaluators]
    exact .cons (hcs c List.mem_cons_self first)
      (ih (fun d hd => hcs d (List.mem_cons_of_mem _ hd)) (first + c.size))

/-- **An evaluation does not depend on the date**, only on how far it lies from the notes. -/
theorem evaluate_trails (ticks now : Nat) (n : Node) :
    ∀ id : NodeId, Trails ticks (evaluate leaf now n id) (evaluate leaf (now + ticks) n id) := by
  have hφ : Mirror ticks (Visit.delayed (σ := σ) ticks) := mirror_delayed ticks
  induction n with
  | leaf l =>
    intro id
    simp only [evaluate]
    exact settled_mirrors hφ fun v => rfl
  | sequence cs ih =>
    intro id
    simp only [evaluate]
    exact settled_mirrors hφ (resumed_mirrors hφ _ (evaluators_trails leaf ih (id + 1)))
  | selector cs ih =>
    intro id
    simp only [evaluate]
    exact settled_mirrors hφ (resumed_mirrors hφ _ (evaluators_trails leaf ih (id + 1)))
  | decorated d c ih =>
    intro id
    simp only [evaluate]
    exact settled_mirrors hφ (decorate_mirrors hφ now (ih (id + 1)) d)
  | parallel threshold cs ih =>
    intro id
    simp only [evaluate]
    exact settled_mirrors hφ (parallel_mirrors hφ threshold (evaluators_trails leaf ih (id + 1)))

namespace RunState

/-- The same state of a run that started later. -/
def delayed (ticks : Nat) (s : RunState) : RunState :=
  { s with tickCount := s.tickCount + ticks, memory := s.memory.delayed ticks }

/-- A later run steps as the run that it trails. -/
theorem step_delayed (ticks : Nat) (s : RunState) (tree : BehaviorTree) (x : σ) :
    (s.delayed ticks).step tree leaf x =
      ((s.step tree leaf x).1, (s.step tree leaf x).2.1.delayed ticks,
        (s.step tree leaf x).2.2) := by
  have hnow : s.tickCount + ticks + 1 = s.tickCount + 1 + ticks := by omega
  have h := evaluate_trails leaf ticks (s.tickCount + 1) tree.root 0 ⟨s.memory, none, x⟩
  simp only [Visit.delayed] at h
  simp only [step, delayed, hnow, h]

end RunState

end Herd
