import Herd.Proofs.Run.Course
import Herd.Run.Solo

/-!
# Runs with their logs

A `RunState.History` is a run from its start with the log of all evaluations that it made. Between
two ticks each node of the tree is blank or in progress (`History.stands`), and each evaluation in
the log is of a node of the tree at its address (`History.node?_eq`) and sound in view of the log
before it (`History.sound`).
-/

namespace Herd

universe u

/-! ## Nodes below -/

section Below

variable {r : Chronicle} {clock : Nat}

/-- Each of the siblings is blank or in progress. -/
def StandsAll (r : Chronicle) (clock : Nat) : List Node → Nat → Prop
  | [], _ => True
  | c :: cs, first => Stands r clock c first ∧ StandsAll r clock cs (first + c.size)

theorem StandsAll.congr {s : Chronicle} {cs : List Node} : ∀ {first : Nat},
    StandsAll r clock cs first → Chronicle.AgreeOn r s first (first + Node.sizeAll cs) →
      StandsAll s clock cs first := by
  induction cs with
  | nil => exact fun _ _ => trivial
  | cons c cs ih =>
    intro first h hr
    rw [Node.sizeAll] at hr
    exact ⟨h.1.congr (hr.mono (Nat.le_refl _) (by omega)),
      ih h.2 (hr.mono (by omega) (by omega))⟩

/-- Siblings in a blank region all stand to be evaluated. -/
theorem Chronicle.BlankOn.standsAll {cs : List Node} : ∀ {first : Nat},
    r.BlankOn first (first + Node.sizeAll cs) → StandsAll r clock cs first := by
  induction cs with
  | nil => exact fun _ => trivial
  | cons c cs ih =>
    intro first h
    rw [Node.sizeAll] at h
    exact ⟨.inl (h.mono (Nat.le_refl _) (by omega)), ih (h.mono (by omega) (by omega))⟩

/-- Siblings one of which is in progress all stand to be evaluated. -/
theorem UnderwayAt.standsAll {cs : List Node} : ∀ {first i : Nat}, UnderwayAt r clock cs first i →
    StandsAll r clock cs first := by
  induction cs with
  | nil => exact fun _ => trivial
  | cons c cs ih =>
    intro first i h
    cases i with
    | zero =>
      simp only [UnderwayAt] at h
      exact ⟨.inr h.1, h.2.standsAll⟩
    | succ i =>
      simp only [UnderwayAt] at h
      exact ⟨.inl h.1, ih h.2⟩

theorem UnderwayOpen.standsAll {cs : List Node} : ∀ {first : Nat} {slots : List (Option Status)},
    UnderwayOpen r clock cs first slots → StandsAll r clock cs first := by
  induction cs with
  | nil => exact fun _ => trivial
  | cons c cs ih =>
    intro first slots h
    rcases slots with _ | ⟨_ | status, slots⟩ <;> simp only [UnderwayOpen] at h
    · exact ⟨.inr h.1, ih h.2⟩
    · exact ⟨.inl h.1, ih h.2⟩

/-- The children of a node that is blank or in progress are blank or in progress. -/
theorem Stands.children {n : Node} {id : Nat} (h : Stands r clock n id) :
    StandsAll r clock n.children (id + 1) := by
  rcases h with hblank | hunderway
  · exact (hblank.mono (by omega) (by rw [n.size_eq_children]; omega)).standsAll
  · cases n with
    | leaf l => trivial
    | sequence cs =>
      simp only [Underway] at hunderway
      obtain ⟨i, -, hat⟩ := hunderway
      exact hat.standsAll
    | selector cs =>
      simp only [Underway] at hunderway
      obtain ⟨i, -, hat⟩ := hunderway
      exact hat.standsAll
    | parallel threshold cs =>
      simp only [Underway] at hunderway
      obtain ⟨slots, -, -, -, hopen⟩ := hunderway
      exact hopen.standsAll
    | decorated d c =>
      refine ⟨?_, trivial⟩
      cases d <;> simp only [Underway] at hunderway
      case inverter => exact .inr hunderway.2
      case repeated => exact .inr hunderway.choose_spec.2.2
      case untilFail => exact hunderway.2.2
      case timeout => exact .inr hunderway.choose_spec.2.2.2

/-- Where siblings stand, everything below them stands. -/
theorem StandsAll.descendAll {cs : List Node}
    (hcs : ∀ c ∈ cs, ∀ {id k : Nat} {m : Node}, Stands r clock c id → c.descend k = some m →
      Stands r clock m (id + k)) : ∀ {first k : Nat} {m : Node}, StandsAll r clock cs first →
      Node.descendAll cs k = some m → Stands r clock m (first + k) := by
  induction cs with
  | nil =>
    intro first k m _ hk
    simp only [Node.descendAll] at hk
    cases hk
  | cons c cs ih =>
    intro first k m h hk
    by_cases hlt : k < c.size
    · rw [Node.descendAll_of_lt cs hlt] at hk
      exact hcs c List.mem_cons_self h.1 hk
    · rw [Node.descendAll_of_le cs (by omega)] at hk
      have hrest := ih (fun d hd => hcs d (List.mem_cons_of_mem _ hd)) h.2 hk
      have hindex : first + c.size + (k - c.size) = first + k := by omega
      rwa [hindex] at hrest

/-- Below a node that is blank or in progress every node is. -/
theorem Stands.descend (n : Node) : ∀ {id k : Nat} {m : Node}, Stands r clock n id →
    n.descend k = some m → Stands r clock m (id + k) := by
  induction n using Node.children_induction with
  | step n ih =>
    intro id k m h hk
    cases k with
    | zero =>
      rw [Node.descend_zero] at hk
      rwa [← Option.some.inj hk]
    | succ k =>
      rw [Node.descend_succ] at hk
      have hbelow := h.children.descendAll ih hk
      rwa [Nat.add_assoc, Nat.add_comm 1 k] at hbelow

end Below

/-! ## Histories -/

namespace RunState

/-- The states of a run over `tree` with the logs of the run up to there: from the start by steps,
whatever the leaves answer in each of them, and through snapshots that are taken up over the tree
again. -/
inductive History (tree : BehaviorTree) : RunState → Log → Prop
  | fresh : History tree .fresh []
  | step {σ : Type u} {s : RunState} {h : Log} (hs : History tree s h) (leaf : LeafEvaluator σ)
    (x : σ) : History tree (s.step tree leaf x).2.1 (s.logAfter tree leaf x h)
  | resume {s : RunState} {h : Log} {actor : Actor} {run : Run} (hs : History tree s h)
    (hrun : Run.resume tree (Run.snapshot ⟨actor, tree, s⟩) = .ok run) : History tree run.state h

variable {tree : BehaviorTree} {s : RunState} {h : Log}

/-- What is known of a run and its log between two ticks. -/
structure Recorded (tree : BehaviorTree) (s : RunState) (h : Log) : Prop where
  stands : Stands ⟨s.memory, h⟩ (s.tickCount + 1) tree.root 0
  beyond : ∀ k : Nat, tree.root.size ≤ k → s.memory.find? k = none
  sound : Log.Adds Evaluation.Sound [] h
  placed : Log.Adds (fun e _ => tree.root.Places 0 e) [] h

theorem recorded_fresh (tree : BehaviorTree) : Recorded tree .fresh [] :=
  ⟨.inl ⟨fun _ _ _ => rfl, fun _ _ _ _ _ _ => rfl⟩, fun _ _ => rfl, .refl, .refl⟩

/-- A step takes the course of an evaluation of the root. -/
theorem Recorded.attested (hs : Recorded tree s h) {σ : Type u} (leaf : LeafEvaluator σ) (x : σ) :
    Course (s.tickCount + 1) tree.root 0 ⟨s.memory, none, (x, h)⟩ (s.attested tree leaf x h) :=
  attest_course leaf (Nat.le_add_left 1 _) tree.root 0 _ hs.stands

/-- A step adds what it evaluates to the record. -/
theorem Recorded.step (hs : Recorded tree s h) {σ : Type u} (leaf : LeafEvaluator σ) (x : σ) :
    Recorded tree (s.step tree leaf x).2.1 (s.logAfter tree leaf x h) := by
  have hcourse := hs.attested leaf x
  rw [s.step_eq_attested tree leaf x h]
  unfold logAfter
  refine ⟨?_, fun k hk => ?_, hs.sound.trans hcourse.sound, hs.placed.trans hcourse.confined.log⟩
  · by_cases hdone : (s.attested tree leaf x h).1.isDone = true
    · exact .inl (hcourse.done hdone)
    · exact .inr (hcourse.running (Status.eq_running_of_not_isDone hdone))
  · exact (hcourse.confined.notes k (.inr (by omega))).trans (hs.beyond k hk)

/-- A note lies at the address of a node. -/
theorem Recorded.exists_node? (hs : Recorded tree s h) {k : Nat} {note : NodeMemory}
    (hnote : s.memory.find? k = some note) : ∃ n, tree.node? k = some n := by
  rcases Nat.lt_or_ge k tree.root.size with hlt | hge
  · exact Node.exists_descend_of_lt hlt
  · rw [hs.beyond k hge] at hnote
    cases hnote

/-- A node in progress is one of the tree. -/
theorem Recorded.lt_size_of_open (hs : Recorded tree s h) {a : Nat} (hopen : h.Open a) :
    a < tree.root.size := by
  obtain ⟨e, he⟩ := List.exists_mem_of_ne_nil _ hopen
  obtain ⟨hactivation, hid⟩ := List.mem_filter.mp he
  have hmem : e ∈ h := (List.takeWhile_prefix _).subset hactivation
  obtain ⟨post, pre, rfl⟩ := List.append_of_mem hmem
  have hwithin := hs.placed.split.1.within pre
  have hpos := e.node.size_pos
  have heq : e.id = a := of_decide_eq_true hid
  have hhi := hwithin.2
  omega

namespace History

theorem recorded (hs : History.{u} tree s h) : Recorded tree s h := by
  induction hs with
  | fresh => exact recorded_fresh tree
  | step _ leaf x ih => exact ih.step leaf x
  | resume _ hrun ih =>
    rw [Run.eq_of_resume hrun]
    exact ih

/-- Between two ticks each node of the tree is blank or in progress. -/
theorem stands (hs : History.{u} tree s h) {id : Nat} {n : Node} (hn : tree.node? id = some n) :
    Stands ⟨s.memory, h⟩ (s.tickCount + 1) n id := by
  have hbelow := hs.recorded.stands.descend _ hn
  rwa [Nat.zero_add] at hbelow

variable {post pre : Log} {e : Evaluation}

/-- Each evaluation is of a node of the tree, at its address. -/
theorem node?_eq (hs : History.{u} tree s (post ++ e :: pre)) : tree.node? e.id = some e.node := by
  obtain ⟨k, hk, hid⟩ := hs.recorded.placed.split.1
  rw [hid, Nat.zero_add]
  exact hk

/-- Each evaluation in a history is sound with regard to those before it. -/
theorem sound (hs : History.{u} tree s (post ++ e :: pre)) : e.Sound pre :=
  hs.recorded.sound.split.1

end History

end RunState

end Herd
