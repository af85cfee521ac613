import Herd.Run.Step

/-!
# Tree-shaped progress

The meaning of a tree without addresses in a table: the state of a run has the
shape of the tree. A node that is idle has no state; a node in progress has what
its kind needs and the states of those of its children that are in progress. An
`Answer` that is done carries no state, so whatever a node held is dropped with it.

`machine` reads a tree in this way. Addresses only name leaves to the evaluator of
leaves, and ticks are counted, not dated. `Herd.Proofs.Run.Simulation` shows that
the notes of a run are this state, written out by address.
-/

namespace Herd

universe u

/-- What a node answers, with its state if it is in progress. -/
inductive Answer (α : Type)
  /-- Done, with success or failure. -/
  | done (succeeded : Bool)
  | running (state : α)

namespace Answer

variable {α : Type}

def status : Answer α → Status
  | done succeeded => .ofBool succeeded
  | running _ => .running

/-- The status of a child that needs no further tick. -/
def verdict? : Answer α → Option Status
  | done succeeded => some (.ofBool succeeded)
  | running _ => none

def state? : Answer α → Option α
  | done _ => none
  | running state => some state

def map {β : Type} (f : α → β) : Answer α → Answer β
  | done succeeded => .done succeeded
  | running state => .running (f state)

/-- The answer of a leaf, which is in progress without more to remember. -/
def ofStatus (idle : α) : Status → Answer α
  | .success => done true
  | .failure => done false
  | .running => running idle

end Answer

/-- The state of a node in progress. -/
inductive Progress
  | leaf
  /-- Sequence and selector: the index of the current child, and its state. -/
  | ordered (index : Nat) (child : Progress)
  /-- Parallel: for each child the verdict it finished with, or its state. -/
  | parallel (children : List (Answer Progress))
  /-- Repetition: how often the child has succeeded, and its state. -/
  | repeated (successes : Nat) (child : Progress)
  /-- Timeout: how many ticks the child was given, and its state. -/
  | timeout (spent : Nat) (child : Progress)
  | inverter (child : Progress)
  /-- The child is idle after each success. -/
  | untilFail (child : Option Progress)

/-- A node as a function on its own state and on that of the leaves. -/
abbrev Machine (σ : Type u) := Option Progress → σ → Answer Progress × σ

namespace Machine

variable {σ : Type u}

/-- Run children in order while they are done with `goOn`; the first is in `state`, the others
are idle. `index` counts the children before them. -/
def ordered (goOn : Bool) (index : Nat) :
    List (Machine σ) → Option Progress → σ → Answer Progress × σ
  | [], _, s => (.done goOn, s)
  | child :: rest, state, s =>
    match child state s with
    | (.running q, s) => (.running (.ordered index q), s)
    | (.done b, s) => if b = goOn then ordered goOn (index + 1) rest none s else (.done b, s)

/-- A sequence (`goOn` is success) or a selector (`goOn` is failure). -/
def resumed (goOn : Bool) (children : List (Machine σ)) : Machine σ
  | some (.ordered index q), s => ordered goOn index (children.drop index) (some q) s
  | _, s => ordered goOn 0 children none s

/-- Run each child that is not done; a child that was not run before has no state. -/
def fill : List (Answer (Option Progress)) → List (Machine σ) → σ → List (Answer Progress) × σ
  | .done b :: slots, _ :: children, s =>
    match fill slots children s with
    | (answers, s) => (.done b :: answers, s)
  | .running state :: slots, child :: children, s =>
    match child state s with
    | (answer, s) =>
      match fill slots children s with
      | (answers, s) => (answer :: answers, s)
  | _, _, s => ([], s)

/-- What is made of the answers of all children: success with enough successes, failure with
too many failures for that or when all are done. -/
def conclude (threshold : Nat) (answers : List (Answer Progress)) : Answer Progress :=
  let verdicts := answers.map Answer.verdict?
  if threshold ≤ verdicts.count (some .success) then .done true
  else if answers.length - threshold < verdicts.count (some .failure) ∨ none ∉ verdicts then
    .done false
  else .running (.parallel answers)

/-- A parallel node. -/
def parallel (threshold : Nat) (children : List (Machine σ)) : Machine σ
  | some (.parallel answers), s =>
    match fill (answers.map (Answer.map some)) children s with
    | (answers, s) => (conclude threshold answers, s)
  | _, s =>
    match fill (List.replicate children.length (.running none)) children s with
    | (answers, s) => (conclude threshold answers, s)

/-- Run a child that is in `state`, and idle from then on, up to `remaining` times. -/
def repeatChild (child : Machine σ) :
    (remaining successes : Nat) → Option Progress → σ → Answer Progress × σ
  | 0, _, _, s => (.done true, s)
  | remaining + 1, successes, state, s =>
    match child state s with
    | (.done true, s) => repeatChild child remaining (successes + 1) none s
    | (.done false, s) => (.done false, s)
    | (.running q, s) => (.running (.repeated successes q), s)

/-- Run a child, and turn its verdict round. -/
def inverted (child : Machine σ) (state : Option Progress) (s : σ) : Answer Progress × σ :=
  match child state s with
  | (.done b, s) => (.done !b, s)
  | (.running q, s) => (.running (.inverter q), s)

/-- Run a child once, and succeed when it fails. -/
def untilFail (child : Machine σ) (state : Option Progress) (s : σ) : Answer Progress × σ :=
  match child state s with
  | (.done false, s) => (.done true, s)
  | (.done true, s) => (.running (.untilFail none), s)
  | (.running q, s) => (.running (.untilFail (some q)), s)

/-- Run a child that was given `spent` of its `ticks`, unless they are used up. -/
def timeout (child : Machine σ) (ticks spent : Nat) (state : Option Progress) (s : σ) :
    Answer Progress × σ :=
  if ticks ≤ spent then (.done false, s)
  else
    match child state s with
    | (.done b, s) => (.done b, s)
    | (.running q, s) => (.running (.timeout (spent + 1) q), s)

/-- A child under a decorator. -/
def decorated (child : Machine σ) : Decorator → Machine σ
  | .inverter, some (.inverter q), s => inverted child (some q) s
  | .inverter, _, s => inverted child none s
  | .repeated count, some (.repeated successes q), s =>
    repeatChild child (count - successes) successes (some q) s
  | .repeated count, _, s => repeatChild child count 0 none s
  | .untilFail, some (.untilFail q), s => untilFail child q s
  | .untilFail, _, s => untilFail child none s
  | .timeout ticks, some (.timeout spent q), s => timeout child ticks spent (some q) s
  | .timeout ticks, _, s => timeout child ticks 0 none s

end Machine

variable {σ : Type u}

mutual

/-- The meaning of the node at `id`. -/
def machine (leaf : LeafEvaluator σ) : Node → NodeId → Machine σ
  | .leaf l, id => fun _ s =>
    match leaf id l s with
    | (status, s) => (.ofStatus .leaf status, s)
  | .sequence cs, id => .resumed true (machines leaf cs (id + 1))
  | .selector cs, id => .resumed false (machines leaf cs (id + 1))
  | .decorated d c, id => .decorated (machine leaf c (id + 1)) d
  | .parallel threshold cs, id => .parallel threshold (machines leaf cs (id + 1))

/-- The meanings of siblings of which the first is at `id`. -/
def machines (leaf : LeafEvaluator σ) : List Node → NodeId → List (Machine σ)
  | [], _ => []
  | c :: cs, id => machine leaf c id :: machines leaf cs (id + c.size)

end

end Herd
