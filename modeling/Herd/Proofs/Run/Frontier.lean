import Herd.Proofs.Run.Refinement
import Herd.Run.Solo

/-!
# The notes of a run are one frontier

`InProgress m n id` says of the notes in the region of a node what each kind of node
leaves there while it is in progress. Between two ticks a run either has no notes at
all or its root is in progress in this sense, and there are no other notes
(`Reachable.frontier`).

The states of a run are those of `Represents`, which each step keeps; a frontier is what
is left of such a state when the progress behind it is forgotten
(`Holds.inProgress`).
-/

namespace Herd

universe u

mutual

/-- The notes in the region of a node are those of a node in progress. -/
def InProgress (m : Memory) : Node → Nat → Prop
  | .leaf _, id => m.find? id = none
  | .sequence cs, id =>
    ∃ i, m.find? id = some (.cursor i) ∧ i < cs.length ∧ InProgressAt m cs (id + 1) i
  | .selector cs, id =>
    ∃ i, m.find? id = some (.cursor i) ∧ i < cs.length ∧ InProgressAt m cs (id + 1) i
  | .parallel threshold cs, id =>
    ∃ slots, m.find? id = some (.finished slots) ∧ slots.length = cs.length ∧ none ∈ slots ∧
      slots.count (some .success) < threshold ∧
      slots.count (some .failure) ≤ cs.length - threshold ∧ InProgressOpen m cs (id + 1) slots
  | .decorated .inverter c, id => m.find? id = none ∧ InProgress m c (id + 1)
  | .decorated (.repeated count) c, id =>
    ∃ k, m.find? id = some (.iterations k) ∧ k < count ∧ InProgress m c (id + 1)
  | .decorated .untilFail c, id =>
    -- after a success the child is idle until the next tick
    m.find? id = none ∧ (InProgress m c (id + 1) ∨ m.BlankOn (id + 1) (id + 1 + c.size))
  | .decorated (.timeout _) c, id =>
    ∃ started, m.find? id = some (.startedAt started) ∧ InProgress m c (id + 1)

/-- Of siblings the one at index `i` is in progress, and the others have no notes. -/
def InProgressAt (m : Memory) : List Node → Nat → (i : Nat) → Prop
  | [], _, _ => False
  | c :: cs, id, 0 =>
    InProgress m c id ∧ m.BlankOn (id + c.size) (id + c.size + Node.sizeAll cs)
  | c :: cs, id, i + 1 => m.BlankOn id (id + c.size) ∧ InProgressAt m cs (id + c.size) i

/-- Siblings with an open slot are in progress, and those with a filled one have no notes. -/
def InProgressOpen (m : Memory) : List Node → Nat → List (Option Status) → Prop
  | c :: cs, id, none :: slots => InProgress m c id ∧ InProgressOpen m cs (id + c.size) slots
  | c :: cs, id, some _ :: slots =>
    m.BlankOn id (id + c.size) ∧ InProgressOpen m cs (id + c.size) slots
  | [], _, [] => True
  | _, _, _ => False

end

variable {m : Memory} {clock : Nat}

/-! ## Forgetting the progress behind the notes -/

/-- Siblings of which one is in progress. -/
theorem HoldsAt.inProgressAt {cs : List Node}
    (hcs : ∀ c ∈ cs, ∀ {id : Nat} {q : Progress}, Holds m clock c id (some q) → InProgress m c id) :
    ∀ {id i : Nat} {q : Progress}, HoldsAt m clock cs id i q →
      i < cs.length ∧ InProgressAt m cs id i := by
  induction cs with
  | nil => intro id i q h; simp only [HoldsAt] at h
  | cons c cs ih =>
    intro id i q h
    cases i with
    | zero =>
      simp only [HoldsAt] at h
      simp only [InProgressAt]
      exact ⟨Nat.succ_pos _, hcs c List.mem_cons_self h.1, h.2⟩
    | succ i =>
      simp only [HoldsAt] at h
      obtain ⟨hlt, hat⟩ := ih (fun d hd => hcs d (List.mem_cons_of_mem _ hd)) h.2
      simp only [InProgressAt]
      exact ⟨Nat.succ_lt_succ hlt, h.1, hat⟩

/-- Siblings of which those without a verdict are in progress. -/
theorem HoldsEach.inProgressOpen {cs : List Node}
    (hcs : ∀ c ∈ cs, ∀ {id : Nat} {q : Progress}, Holds m clock c id (some q) → InProgress m c id) :
    ∀ {id : Nat} {answers : List (Answer Progress)},
      HoldsEach m clock cs id (answers.map Answer.state?) →
      InProgressOpen m cs id (answers.map Answer.verdict?) := by
  induction cs with
  | nil =>
    intro id answers h
    obtain rfl : answers = [] := by simpa using h.length_eq
    simp only [List.map_nil, InProgressOpen]
  | cons c cs ih =>
    intro id answers h
    cases answers with
    | nil => simp only [List.map_nil, HoldsEach] at h
    | cons answer answers =>
      simp only [List.map_cons, HoldsEach] at h
      have hrest := ih (fun d hd => hcs d (List.mem_cons_of_mem _ hd)) h.2
      cases answer with
      | done b =>
        simp only [List.map_cons, Answer.verdict?, InProgressOpen]
        exact ⟨holds_none.mp h.1, hrest⟩
      | running q =>
        simp only [List.map_cons, Answer.verdict?, InProgressOpen]
        exact ⟨hcs c List.mem_cons_self h.1, hrest⟩

/-- What is known of the slots of a parallel node that is not decided. -/
theorem parallelStatus_eq_running {threshold : Nat} {slots : List (Option Status)}
    (h : parallelStatus threshold slots = .running) :
    none ∈ slots ∧ slots.count (some .success) < threshold ∧
      slots.count (some .failure) ≤ slots.length - threshold := by
  simp only [parallelStatus, all_isSome_iff] at h
  by_cases hs : threshold ≤ slots.count (some .success)
  · rw [if_pos hs] at h
    cases h
  · rw [if_neg hs] at h
    by_cases hf : slots.length - threshold < slots.count (some .failure) ∨ none ∉ slots
    · rw [if_pos hf] at h
      cases h
    · rw [not_or, Decidable.not_not] at hf
      exact ⟨hf.2, Nat.lt_of_not_le hs, Nat.le_of_not_lt hf.1⟩

/-- A node with a state has the notes of a node in progress. -/
theorem Holds.inProgress {n : Node} :
    ∀ {id : Nat} {q : Progress}, Holds m clock n id (some q) → InProgress m n id := by
  induction n with
  | leaf l =>
    intro id q h
    cases q with
    | leaf => simpa only [Holds, InProgress] using h
    | _ => simp only [Holds] at h
  | sequence cs ih =>
    intro id q h
    obtain ⟨i, q, rfl, hnote, hat⟩ := holds_sequence.mp h
    simp only [InProgress]
    exact ⟨i, hnote, HoldsAt.inProgressAt ih hat⟩
  | selector cs ih =>
    intro id q h
    obtain ⟨i, q, rfl, hnote, hat⟩ := holds_selector.mp h
    simp only [InProgress]
    exact ⟨i, hnote, HoldsAt.inProgressAt ih hat⟩
  | decorated d c ih =>
    intro id q h
    -- only the state that goes with the decorator is left
    cases d <;> cases q <;> simp only [Holds] at h <;> simp only [InProgress]
    case inverter.inverter => exact ⟨h.1, ih h.2⟩
    case repeated.repeated => exact ⟨_, h.1, h.2.1, ih h.2.2⟩
    case timeout.timeout => exact ⟨_, h.1.choose_spec.1, ih h.2⟩
    case untilFail.untilFail p =>
      cases p with
      | none => exact ⟨h.1, .inr (holds_none.mp h.2)⟩
      | some q => exact ⟨h.1, .inl (ih h.2)⟩
  | parallel threshold cs ih =>
    intro id q h
    cases q with
    | parallel answers =>
      simp only [Holds] at h
      obtain ⟨hnote, hrunning, heach⟩ := h
      have hlength : (answers.map Answer.verdict?).length = cs.length := by
        simpa using heach.length_eq
      obtain ⟨hopen, hsuccess, hfailure⟩ := parallelStatus_eq_running hrunning
      rw [hlength] at hfailure
      simp only [InProgress]
      exact ⟨_, hnote, hlength, hopen, hsuccess, hfailure, HoldsEach.inProgressOpen ih heach⟩
    | _ => simp only [Holds] at h

/-! ## Reachable states -/

namespace RunState

/-- The states of a run over `tree`: from the start by ticks, whatever the leaves answer in each
of them, and through snapshots that are taken up over the tree again. -/
inductive Reachable (tree : BehaviorTree) : RunState → Prop
  | fresh : Reachable tree .fresh
  | step {σ : Type u} {s : RunState} (h : Reachable tree s) (leaf : LeafEvaluator σ) (x : σ) :
    Reachable tree (s.step tree leaf x).2.1
  | resume {s : RunState} {actor : Actor} {run : Run} (h : Reachable tree s)
    (hrun : Run.resume tree (Run.snapshot ⟨actor, tree, s⟩) = .ok run) : Reachable tree run.state

theorem Reachable.represents {tree : BehaviorTree} {s : RunState} (h : Reachable.{u} tree s) :
    ∃ p, s.Represents tree.root p := by
  induction h with
  | fresh => exact ⟨none, represents_fresh tree.root⟩
  | step h leaf x ih =>
    obtain ⟨p, hp⟩ := ih
    exact ⟨_, (hp.step leaf x).2.2⟩
  | resume h hrun ih =>
    rw [Run.eq_of_resume hrun]
    exact ih

/-- An idle run has no notes at all. -/
theorem Represents.memory_eq_empty {s : RunState} {root : Node} (h : s.Represents root none) :
    s.memory = .empty := by
  -- addresses inside the tree are blank, and no other address ever had a note
  refine Table.ext_find? fun k => ?_
  have hblank := holds_none.mp h.holds
  rcases Nat.lt_or_ge k root.size with hk | hk
  · exact hblank k (Nat.zero_le k) (by omega)
  · exact h.beyond k hk

/-- **The notes of a run are one frontier**: a run that the last tick left running has the notes
of a root in progress and no others, and any other run has none. -/
theorem Reachable.frontier {tree : BehaviorTree} {s : RunState} (h : Reachable.{u} tree s) :
    if s.lastStatus = some .running then
      InProgress s.memory tree.root 0 ∧ ∀ k : Nat, tree.root.size ≤ k → s.memory.find? k = none
    else s.memory = .empty := by
  obtain ⟨p, hp⟩ := h.represents
  cases p with
  | some q =>
    rw [if_pos (hp.status.mpr rfl)]
    exact ⟨hp.holds.inProgress, hp.beyond⟩
  | none =>
    rw [if_neg fun hs => by simpa using hp.status.mp hs]
    exact hp.memory_eq_empty

/-- A sequence that stopped at its second child, under a parallel node whose other child is done. -/
theorem frontier_of_two_children :
    let tree : BehaviorTree := ⟨⟨none, "patrol"⟩,
      .parallel 2
        [.sequence [.leaf (.action "aim"), .leaf (.action "walk")], .leaf (.action "aim")]⟩
    let leaf : LeafEvaluator Unit := fun _ l x =>
      (if l = .action "walk" then .running else .success, x)
    let s := (RunState.fresh.step tree leaf ()).2.1
    s.memory.entries = [(0, .finished [none, some .success]), (1, .cursor 1)] ∧
      InProgress s.memory tree.root 0 := by
  intro tree leaf s
  have hs : Reachable.{0} tree s := .step .fresh leaf ()
  have hrunning : s.lastStatus = some .running := by decide
  have hfrontier := hs.frontier
  rw [if_pos hrunning] at hfrontier
  exact ⟨by decide, hfrontier.1⟩

end RunState

end Herd
