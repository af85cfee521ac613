import Herd.Proofs.Run.History
import Herd.Proofs.Run.Simulation

/-!
# When a parallel node decides

A parallel node answers from the slots of its children, which it keeps from tick to tick. In terms
of the log the slots are counts: of the children that have succeeded in this activation, of those
that have failed, and of those that have done neither (`Log.SlotsTold.count_eq_tally`). So each
evaluation of a parallel node has its answer from these counts, and no child that is done is
evaluated again while the node is in progress (`History.parallel_decides`).

With a threshold that the children can meet the node fails as soon as it cannot be met any more. A
threshold above their number is not noticed before a child fails or all are done.
-/

namespace Herd

universe u

namespace Log

/-- How many of the nodes at `ids` have answered `status` in the activation of the node at `a`. -/
def tally (h : Log) (a : Nat) (ids : List Nat) (status : Status) : Nat :=
  ids.countP fun b => (h.since a b).any (·.status = status)

/-- How many of the nodes at `ids` are not done in the activation of the node at `a`. -/
def unfinished (h : Log) (a : Nat) (ids : List Nat) : Nat :=
  ids.countP fun b => (h.since a b).all (·.status = .running)

/-! ## Slots as counts -/

variable {h log : Log} {slot : Option Status} {status : Status}

theorem AllRunning.any_eq_false (hall : AllRunning log) (hdone : status.isDone = true) :
    log.any (·.status = status) = false := by
  rw [List.any_eq_false]
  intro e he
  rw [hall e he]
  cases status with
  | running => cases hdone
  | success | failure => decide

theorem AllRunning.all_eq_true (hall : AllRunning log) : log.all (·.status = .running) = true := by
  rw [List.all_eq_true]
  exact fun e he => decide_eq_true (hall e he)

/-- A slot is filled with the status that the child finished with. -/
theorem SlotTold.any_eq (htold : SlotTold slot log) (hdone : status.isDone = true) :
    log.any (·.status = status) = (slot == some status) := by
  cases slot with
  | none => exact AllRunning.any_eq_false htold hdone
  | some finished =>
    obtain ⟨e, rest, rfl, rfl, -, hrest⟩ := htold
    rw [List.any_cons, hrest.any_eq_false hdone, Bool.or_false]
    rfl

/-- A slot is open while the child is not done. -/
theorem SlotTold.all_eq (htold : SlotTold slot log) :
    log.all (·.status = .running) = (slot == none) := by
  cases slot with
  | none => exact AllRunning.all_eq_true htold
  | some finished =>
    obtain ⟨e, rest, rfl, rfl, hfinished, -⟩ := htold
    have hnot : decide (e.status = .running) = false := by
      rw [decide_eq_false_iff_not]
      intro hrunning
      rw [hrunning] at hfinished
      cases hfinished
    rw [List.all_cons, hnot, Bool.false_and]
    rfl

/-- Only the latest evaluation of a child may have been the one that it finished with. -/
theorem SlotTold.tail (htold : SlotTold slot log) : AllRunning log.tail := by
  cases slot with
  | none => exact fun e he => htold e (List.mem_of_mem_tail he)
  | some finished =>
    obtain ⟨e, rest, rfl, -, -, hrest⟩ := htold
    exact hrest

section Slots

variable {a : Nat} {cs : List Node}

/-- Where a question about the evaluations of a child tells whether its slot is the one in
question, slots are counted by asking it of each child. -/
theorem SlotsTold.count_eq {asked : Option Status} {p : Log → Bool}
    (hp : ∀ {slot : Option Status} {log : Log}, SlotTold slot log → p log = (slot == asked)) :
    ∀ {first : Nat} {slots : List (Option Status)}, SlotsTold h a cs first slots →
      slots.count asked = (Node.starts first cs).countP fun b => p (h.since a b) := by
  induction cs with
  | nil =>
    intro first slots htold
    obtain rfl := List.length_eq_zero_iff.mp htold.length_eq
    rfl
  | cons c cs ih =>
    intro first slots htold
    cases slots with
    | nil => simp only [SlotsTold] at htold
    | cons slot slots =>
      simp only [SlotsTold] at htold
      simp only [Node.starts, List.count_cons, List.countP_cons, hp htold.1, ih htold.2]

/-- As many slots hold an answer as children last gave it. -/
theorem SlotsTold.count_eq_tally {first : Nat} {slots : List (Option Status)}
    (htold : SlotsTold h a cs first slots) (hdone : status.isDone = true) :
    slots.count (some status) = h.tally a (Node.starts first cs) status :=
  htold.count_eq fun hslot => hslot.any_eq hdone

/-- As many slots are open as children are not done. -/
theorem SlotsTold.count_eq_unfinished {first : Nat} {slots : List (Option Status)}
    (htold : SlotsTold h a cs first slots) :
    slots.count none = h.unfinished a (Node.starts first cs) :=
  htold.count_eq SlotTold.all_eq

/-- Each child is in one of the three counts. -/
theorem SlotsTold.length_eq_counts : ∀ {first : Nat} {slots : List (Option Status)},
    SlotsTold h a cs first slots →
      slots.count (some .success) + slots.count (some .failure) + slots.count none =
        slots.length := by
  induction cs with
  | nil =>
    intro first slots htold
    obtain rfl := List.length_eq_zero_iff.mp htold.length_eq
    rfl
  | cons c cs ih =>
    intro first slots htold
    cases slots with
    | nil => simp only [SlotsTold] at htold
    | cons slot slots =>
      simp only [SlotsTold] at htold
      have hrest := ih htold.2
      simp only [List.count_cons, List.length_cons]
      rcases slot with _ | (_ | _ | _)
      · simp only [beq_iff_eq, reduceCtorEq, if_true, if_false]
        omega
      · simp only [beq_iff_eq, Option.some.injEq, reduceCtorEq, if_true, if_false]
        omega
      · simp only [beq_iff_eq, Option.some.injEq, reduceCtorEq, if_true, if_false]
        omega
      · obtain ⟨-, -, -, -, hdone, -⟩ := htold.1
        cases hdone

/-- A child whose slot is filled was evaluated no more, so only its last answer is final. -/
theorem SlotsTold.tail_allRunning : ∀ {first : Nat} {slots : List (Option Status)},
    SlotsTold h a cs first slots → ∀ b ∈ Node.starts first cs, AllRunning (h.since a b).tail := by
  induction cs with
  | nil => exact fun _ b hb => absurd hb List.not_mem_nil
  | cons c cs ih =>
    intro first slots htold b hb
    cases slots with
    | nil => simp only [SlotsTold] at htold
    | cons slot slots =>
      simp only [SlotsTold] at htold
      rcases List.mem_cons.mp hb with rfl | hb
      · exact htold.1.tail
      · exact ih htold.2 b hb

end Slots

end Log

/-! ## The answer in terms of counts -/

variable {threshold : Nat} {slots : List (Option Status)}

theorem parallelStatus_eq_success_iff :
    parallelStatus threshold slots = .success ↔ threshold ≤ slots.count (some .success) := by
  unfold parallelStatus
  split
  · next h => exact iff_of_true rfl h
  · next h =>
    refine iff_of_false ?_ h
    split <;> nofun

/-- A parallel node fails with too many failures, or if all are done without enough successes. -/
theorem parallelStatus_eq_failure_iff :
    parallelStatus threshold slots = .failure ↔
      slots.count (some .success) < threshold ∧
        (slots.length - threshold < slots.count (some .failure) ∨ slots.count none = 0) := by
  have hnone : slots.all Option.isSome = true ↔ slots.count none = 0 :=
    all_isSome_iff.trans List.count_eq_zero.symm
  unfold parallelStatus
  split
  · next h => exact iff_of_false nofun fun hless => Nat.not_le_of_lt hless.1 h
  · next h =>
    split
    · next hfail => exact iff_of_true rfl ⟨Nat.lt_of_not_le h, hfail.imp_right hnone.mp⟩
    · next hfail =>
      exact iff_of_false nofun fun hless => hfail (hless.2.imp_right hnone.mpr)

namespace RunState

variable {tree : BehaviorTree} {s : RunState} {post pre : Log} {e : Evaluation}

/-- **A parallel node decides by the counts of its children.** In each of its evaluations, of a run
over any tree with whatever leaves, it succeeds if and only if enough children have succeeded in
this activation, and fails if and only if they have not and too many have failed or none is left.
If there are children enough for the threshold, this is as soon as those that have succeeded and
those that are not done are too few. No child that was done is evaluated again. -/
theorem History.parallel_decides (hs : History.{u} tree s (post ++ e :: pre)) {threshold : Nat}
    {cs : List Node} (hnode : e.node = .parallel threshold cs) :
    let ids := tree.childIds e.id e.node
    let successes := pre.tally e.id ids .success
    let failures := pre.tally e.id ids .failure
    let unfinished := pre.unfinished e.id ids
    successes + failures + unfinished = cs.length ∧
      (e.status = .success ↔ threshold ≤ successes) ∧
      (e.status = .failure ↔ successes < threshold ∧
        (cs.length - threshold < failures ∨ unfinished = 0)) ∧
      (threshold ≤ cs.length → (e.status = .failure ↔
        ¬ threshold ≤ successes ∧ successes + unfinished < threshold)) ∧
      ∀ b ∈ ids, Log.AllRunning (pre.since e.id b).tail := by
  intro ids successes failures unfinished
  have hids : ids = Node.starts (e.id + 1) cs := by
    show tree.childIds e.id e.node = _
    rw [tree.childIds_of_node? hs.node?_eq, hnode]
    rfl
  have hsound := hs.sound
  simp only [Evaluation.Sound, hnode] at hsound
  obtain ⟨slots, htold, hstatus⟩ := hsound
  have hsuccesses : slots.count (some .success) = successes := by
    rw [htold.count_eq_tally rfl, ← hids]
  have hfailures : slots.count (some .failure) = failures := by
    rw [htold.count_eq_tally rfl, ← hids]
  have hunfinished : slots.count none = unfinished := by
    rw [htold.count_eq_unfinished, ← hids]
  have hsum := htold.length_eq_counts
  rw [hsuccesses, hfailures, hunfinished, htold.length_eq] at hsum
  have hfail : e.status = .failure ↔ successes < threshold ∧
      (cs.length - threshold < failures ∨ unfinished = 0) := by
    rw [hstatus, parallelStatus_eq_failure_iff, hsuccesses, hfailures, hunfinished,
      htold.length_eq]
  refine ⟨hsum, ?_, hfail, fun hthreshold => hfail.trans ?_, ?_⟩
  · rw [hstatus, parallelStatus_eq_success_iff, hsuccesses]
  · omega
  · rw [hids]
    exact htold.tail_allRunning

/-- Two children, of which one takes a tick longer: with it the second succeeds. -/
theorem twoActions_decide :
    let tree : BehaviorTree :=
      ⟨⟨none, "patrol"⟩, .parallel 2 [.leaf (.action "walk"), .leaf (.action "aim")]⟩
    let leaf : LeafEvaluator Bool := fun _ l arrived =>
      (if l = .action "walk" ∧ ¬ arrived then .running else .success, arrived)
    let s := (RunState.fresh.step tree leaf false).2.1
    ∃ (e : Evaluation) (pre : Log),
      s.logAfter tree leaf true (RunState.fresh.logAfter tree leaf false []) = [] ++ e :: pre ∧
        e.node = tree.root ∧ Log.tally pre e.id (tree.childIds e.id e.node) .success = 2 ∧
        e.status = .success := by
  intro tree leaf s
  have hs : History.{0} tree _ (s.logAfter tree leaf true _) :=
    .step (.step .fresh leaf false) leaf true
  refine ⟨_, _, rfl, rfl, by decide, ?_⟩
  exact (@History.parallel_decides tree _ [] _ _ hs 2 _ rfl).2.1.mpr (by decide)

/-- With one child and a threshold of two, the child is enough to keep the node from failing. -/
theorem not_failed_once_unreachable :
    ¬ ∀ (tree : BehaviorTree) (s : RunState) (e : Evaluation) (pre : Log) (threshold : Nat)
      (cs : List Node), History.{0} tree s (e :: pre) → e.node = .parallel threshold cs →
      let ids := tree.childIds e.id e.node
      let successes := pre.tally e.id ids .success
      (e.status = .failure ↔
        ¬ threshold ≤ successes ∧ successes + pre.unfinished e.id ids < threshold) := by
  intro h
  let tree : BehaviorTree := ⟨⟨none, "patrol"⟩, .parallel 2 [.leaf (.action "walk")]⟩
  let leaf : LeafEvaluator Unit := fun _ _ x => (.running, x)
  have hs : History.{0} tree _ (RunState.fresh.logAfter tree leaf () []) := .step .fresh leaf ()
  have hfailed := (h tree _ _ _ 2 _ hs rfl).mpr (by decide)
  cases hfailed

end RunState

end Herd
