import Herd.Table
import Herd.Tree.Address

/-!
# Run state

The state of one run over a tree. A composite that answers `running` leaves a
note under its address, so that the next tick resumes the child it stopped at;
all notes of a run live in one table, its memory. A node that is done takes the
notes of its whole subtree with it.
-/

namespace Herd

/-- What a composite remembers while it is running. -/
inductive NodeMemory
  /-- Sequence and selector: the index of the child to resume. -/
  | cursor (index : Nat)
  /-- Parallel: for each child the answer it is done with, if it is. -/
  | finished (slots : List (Option Status))
  /-- Repetition: how often the child has succeeded. -/
  | iterations (count : Nat)
  /-- Timeout: the tick at which the child was entered. -/
  | startedAt (tick : Nat)
deriving DecidableEq

/-- The notes of a run, by address. -/
abbrev Memory := Table NodeId NodeMemory

/-- The state of a run between two ticks. -/
structure RunState where
  /-- Ticks taken so far. -/
  tickCount : Nat
  /-- The node that the last tick left running, the deepest and first of them. -/
  active : Option NodeId
  /-- The answer of the root in the last tick. -/
  lastStatus : Option Status
  memory : Memory
deriving DecidableEq

namespace RunState

/-- A run that has not been ticked. -/
def fresh : RunState := ⟨0, none, none, .empty⟩

instance : Inhabited RunState := ⟨fresh⟩

/-- Nothing is in progress. -/
def isAtRoot (s : RunState) : Bool := s.memory.isEmpty && s.active.isNone

end RunState

end Herd
