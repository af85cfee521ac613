import Herd.Proofs.Run.Lead
import Herd.Run.Collective

/-!
# The active node is where a run resumes

After a tick that left the root running, the active node is the one that leads
(`RunState.Guided`). Then the nodes above it point to it, each with the note of its kind
(`RunState.PointsTo`): a node in progress has the children that it is not at blank, so the active
node, which is in progress, lies below the child that the note names.

`Ticked.active_resumes` says this of every run by ticks of one actor or of many.
-/

namespace Herd

universe u

/-! ## Only actions take more than one tick -/

section Leaves

variable {σ : Type u} (handler : ActionHandler σ)

/-- Conditions and chances are never running. -/
theorem ActionHandler.evaluate_prompt {l : Leaf} {actor : Actor} {x : σ}
    (hrunning : (handler.evaluate l actor x).1 = .running) : ∃ name, l = .action name := by
  cases l with
  | action name => exact ⟨name, rfl⟩
  | condition name => exact absurd hrunning (Status.ofBool_ne_running _)
  | chance p => exact absurd hrunning (Status.ofBool_ne_running _)

theorem Run.leaves_prompt : (Run.leaves handler).Prompt :=
  fun _ _ _ hrunning => handler.evaluate_prompt hrunning

/-- If any actor leaves a leaf running it is an action. -/
theorem CollectiveRun.evaluateAll_prompt {l : Leaf} {actors : List Actor} : ∀ {x : σ},
    .running ∈ (evaluateAll handler l actors x).1 → ∃ name, l = .action name := by
  induction actors with
  | nil => exact fun h => absurd h List.not_mem_nil
  | cons actor actors ih =>
    intro x h
    simp only [evaluateAll] at h
    rcases List.mem_cons.mp h with h | h
    · exact handler.evaluate_prompt h.symm
    · exact ih h

/-- A shared status is `running` only if one of the statuses is. -/
theorem CollectivePolicy.mem_of_combine_eq_running {policy : CollectivePolicy}
    {statuses : List Status} (h : policy.combine statuses = .running) : .running ∈ statuses := by
  cases policy <;> simp only [combine] at h
  · split at h
    · cases h
    · split at h
      · assumption
      · split at h <;> cases h
  · split at h
    · cases h
    · split at h
      · assumption
      · cases h

/-- The leaves of a collective run are prompt, under either policy. -/
theorem CollectiveRun.leaves_prompt (policy : CollectivePolicy) :
    (CollectiveRun.leaves handler policy).Prompt :=
  fun _ _ _ hrunning => CollectiveRun.evaluateAll_prompt handler
    (CollectivePolicy.mem_of_combine_eq_running hrunning)

end Leaves

/-! ## Below a node in progress -/

/-- The address lies in the subtree of the sibling with the index `i`. -/
def Node.InSibling (cs : List Node) (first i k : Nat) : Prop :=
  ∃ j c, (starts first cs)[i]? = some (first + j) ∧ descendAll cs j = some c ∧ first + j ≤ k ∧
    k < first + j + c.size

namespace Node

variable {c : Node} {cs : List Node} {first i k : Nat}

theorem InSibling.head (hlo : first ≤ k) (hhi : k < first + c.size) :
    InSibling (c :: cs) first 0 k :=
  ⟨0, c, rfl, by rw [descendAll_of_lt cs c.size_pos, descend_zero], hlo, hhi⟩

theorem InSibling.tail (h : InSibling cs (first + c.size) i k) :
    InSibling (c :: cs) first (i + 1) k := by
  obtain ⟨j, d, hstart, hd, hlo, hhi⟩ := h
  refine ⟨c.size + j, d, ?_, ?_, by omega, by omega⟩
  · rw [starts, List.getElem?_cons_succ, hstart, Nat.add_assoc]
  · rw [descendAll_of_le cs (Nat.le_add_right _ _), Nat.add_sub_cancel_left, hd]

end Node

section Below

variable {r : Chronicle} {clock : Nat}

/-- One of the siblings is in progress. -/
def SomeUnderway (r : Chronicle) (clock : Nat) (cs : List Node) (first : Nat) : Prop :=
  ∃ j c, c ∈ cs ∧ Node.descendAll cs j = some c ∧ Underway r clock c (first + j)

theorem SomeUnderway.head {c : Node} {cs : List Node} {first : Nat}
    (h : Underway r clock c first) : SomeUnderway r clock (c :: cs) first :=
  ⟨0, c, List.mem_cons_self, by rw [Node.descendAll_of_lt cs c.size_pos, Node.descend_zero], h⟩

theorem SomeUnderway.tail {c : Node} {cs : List Node} {first : Nat}
    (h : SomeUnderway r clock cs (first + c.size)) : SomeUnderway r clock (c :: cs) first := by
  obtain ⟨j, d, hmem, hd, hunderway⟩ := h
  refine ⟨c.size + j, d, List.mem_cons_of_mem _ hmem, ?_, by rwa [← Nat.add_assoc]⟩
  rw [Node.descendAll_of_le cs (Nat.le_add_right _ _), Nat.add_sub_cancel_left, hd]

/-- Where a cursor points, a sibling is in progress. -/
theorem UnderwayAt.someUnderway {cs : List Node} : ∀ {first i : Nat},
    UnderwayAt r clock cs first i → SomeUnderway r clock cs first := by
  induction cs with
  | nil =>
    intro first i h
    simp only [UnderwayAt] at h
  | cons c cs ih =>
    intro first i h
    cases i with
    | zero =>
      simp only [UnderwayAt] at h
      exact .head h.1
    | succ i =>
      simp only [UnderwayAt] at h
      exact .tail (ih h.2)

/-- Where a slot is open, a sibling is in progress. -/
theorem UnderwayOpen.someUnderway {cs : List Node} : ∀ {first : Nat}
    {slots : List (Option Status)}, UnderwayOpen r clock cs first slots → none ∈ slots →
      SomeUnderway r clock cs first := by
  induction cs with
  | nil =>
    intro first slots h hopen
    cases slots with
    | nil => exact absurd hopen List.not_mem_nil
    | cons slot slots => simp only [UnderwayOpen] at h
  | cons c cs ih =>
    intro first slots h hopen
    rcases slots with _ | ⟨_ | status, slots⟩ <;> simp only [UnderwayOpen] at h
    · exact .head h.1
    · simp only [List.mem_cons, reduceCtorEq, false_or] at hopen
      exact .tail (ih h.2 hopen)

/-- A node is in progress by itself or on account of a child. -/
theorem Underway.open_or_child {n : Node} {id : Nat} (h : Underway r clock n id) :
    r.log.Open id ∨ SomeUnderway r clock n.children (id + 1) := by
  cases n with
  | leaf l =>
    simp only [Underway] at h
    exact .inl h.2
  | sequence cs =>
    simp only [Underway] at h
    obtain ⟨i, -, hat⟩ := h
    exact .inr hat.someUnderway
  | selector cs =>
    simp only [Underway] at h
    obtain ⟨i, -, hat⟩ := h
    exact .inr hat.someUnderway
  | parallel threshold cs =>
    simp only [Underway] at h
    obtain ⟨slots, -, hstatus, -, hopen⟩ := h
    exact .inr (hopen.someUnderway (parallelStatus_eq_running hstatus).1)
  | decorated d c =>
    cases d <;> simp only [Underway] at h
    case inverter => exact .inr (.head h.2)
    case repeated => exact .inr (.head h.choose_spec.2.2)
    case untilFail => exact .inl h.2.1
    case timeout => exact .inr (.head h.choose_spec.2.2.2)

/-- In the subtree of a node in progress there is one that is in progress by itself. -/
theorem Underway.exists_open (n : Node) : ∀ {id : Nat}, Underway r clock n id →
    ∃ j m, n.descend j = some m ∧ r.log.Open (id + j) := by
  induction n using Node.children_induction with
  | step n ih =>
    intro id h
    rcases h.open_or_child with hself | ⟨d, c, hmem, hc, hunderway⟩
    · exact ⟨0, n, n.descend_zero, hself⟩
    · obtain ⟨j, m, hm, hopen⟩ := ih c hmem hunderway
      have hlt := Node.lt_size_of_descend hm
      have hchild : n.descend (d + 1) = some c := by rw [n.descend_succ, hc]
      refine ⟨d + 1 + j, m, by rw [n.descend_add hchild hlt, hm], ?_⟩
      rwa [show id + (d + 1 + j) = id + 1 + d + j by omega]

/-- Of siblings a node in progress lies below the one that the cursor is at. -/
theorem UnderwayAt.inSibling {cs : List Node} {k : Nat} (hk : r.log.Open k) :
    ∀ {first i : Nat}, UnderwayAt r clock cs first i → first ≤ k →
      k < first + Node.sizeAll cs → Node.InSibling cs first i k := by
  induction cs with
  | nil =>
    intro first i h
    simp only [UnderwayAt] at h
  | cons c cs ih =>
    intro first i h hlo hhi
    rw [Node.sizeAll] at hhi
    cases i with
    | zero =>
      simp only [UnderwayAt] at h
      refine .head hlo (Nat.lt_of_not_le fun hle => ?_)
      exact h.2.not_open hle (by omega) hk
    | succ i =>
      simp only [UnderwayAt] at h
      have hle : first + c.size ≤ k := Nat.le_of_not_lt fun hlt => h.1.not_open hlo hlt hk
      exact (ih h.2 hle (by omega)).tail

/-- The node that leads lies below the first sibling with an open slot. -/
theorem UnderwayOpen.inSibling {cs : List Node} {k : Nat} :
    ∀ {first : Nat} {slots : List (Option Status)}, UnderwayOpen r clock cs first slots →
      r.log.Leads (Node.descendAll cs) first k →
      ∃ i, Node.InSibling cs first i k ∧ slots[i]? = some none ∧
        ∀ j < i, ∃ status, slots[j]? = some (some status) := by
  induction cs with
  | nil =>
    intro first slots _ hleads
    obtain ⟨j, m, hm, -⟩ := hleads.node
    simp only [Node.descendAll] at hm
    cases hm
  | cons c cs ih =>
    intro first slots h hleads
    obtain ⟨j, m, hm, hkj, -, hopen, -⟩ := hleads.node
    by_cases hj : j < c.size
    · have hslot : slots[0]? = some none := by
        rcases slots with _ | ⟨_ | status, slots⟩ <;> simp only [UnderwayOpen] at h
        · rfl
        · exact absurd hopen (h.1.not_open (by omega) (by omega))
      exact ⟨0, .head (by omega) (by omega), hslot, fun j hj => absurd hj (Nat.not_lt_zero j)⟩
    · rw [Node.descendAll_of_le cs (by omega)] at hm
      have htail : r.log.Leads (Node.descendAll cs) (first + c.size) k := by
        refine hleads.restrict (fun {i x} hx => ?_) hm (by omega)
        rw [Node.descendAll_of_le cs (Nat.le_add_right _ _), Nat.add_sub_cancel_left, hx]
      rcases slots with _ | ⟨_ | status, slots⟩ <;> simp only [UnderwayOpen] at h
      · -- a node in progress below the first sibling would have the lead
        obtain ⟨j', m', hm', hopen'⟩ := h.1.exists_open
        have hin := c.add_size_le_of_descend hm'
        have habove := hleads.above j' m'
          (by rw [Node.descendAll_of_lt cs (Node.lt_size_of_descend hm'), hm']) (by omega) hopen'
        omega
      · obtain ⟨i, hin, hslot, hbefore⟩ := ih h.2 htail
        refine ⟨i + 1, hin.tail, hslot, fun j hj => ?_⟩
        cases j with
        | zero => exact ⟨status, rfl⟩
        | succ j => exact hbefore j (by omega)

end Below

/-! ## The nodes above the one that leads -/

/-- The address `n` lies in the subtree of the child with the index `i` of the node `m` at `a`. -/
def BehaviorTree.InChild (tree : BehaviorTree) (a : NodeId) (m : Node) (i : Nat) (n : NodeId) :
    Prop :=
  ∃ b, (tree.childIds a m)[i]? = some b ∧ b ≤ n ∧ n < b + tree.subtreeSize b

/-- What lies in a sibling lies in the child of that number. -/
theorem BehaviorTree.inChild_of_inSibling {tree : BehaviorTree} {a n : Nat} {m : Node} {i : Nat}
    (hm : tree.node? a = some m) (h : Node.InSibling m.children (a + 1) i n) :
    tree.InChild a m i n := by
  obtain ⟨j, c, hstart, hc, hlo, hhi⟩ := h
  refine ⟨a + 1 + j, by rw [tree.childIds_of_node? hm, hstart], hlo, ?_⟩
  rwa [tree.subtreeSize_of_node? (tree.node?_below hm hc)]

namespace RunState

/-- The note of the node `m` at `a` leads a run to the node at `n`, which is below it: a sequence or
selector is at the child with that node; of the children of a parallel node it lies below the first
that is not done; a repetition has runs left; and a timeout was entered. -/
def PointsTo (s : RunState) (tree : BehaviorTree) (a n : NodeId) : Node → Prop
  | .sequence cs => ∃ i, s.memory.find? a = some (.cursor i) ∧ tree.InChild a (.sequence cs) i n
  | .selector cs => ∃ i, s.memory.find? a = some (.cursor i) ∧ tree.InChild a (.selector cs) i n
  | .parallel threshold cs => ∃ slots i, s.memory.find? a = some (.finished slots) ∧
      tree.InChild a (.parallel threshold cs) i n ∧ slots[i]? = some none ∧
      ∀ j < i, ∃ status, slots[j]? = some (some status)
  | .decorated (.repeated count) _ => ∃ k, s.memory.find? a = some (.iterations k) ∧ k < count
  | .decorated (.timeout _) _ => ∃ started, s.memory.find? a = some (.startedAt started)
  | .leaf _ | .decorated .inverter _ | .decorated .untilFail _ => True

/-- A run resumes at the node `n`, the first of the nodes in progress that has none below it. -/
structure ResumesAt (s : RunState) (h : Log) (tree : BehaviorTree) (n : NodeId) : Prop where
  pauses : ∃ m, tree.node? n = some m ∧ m.Pauses
  inProgress : h.Open n
  first : ∀ b, h.Open b → b ≤ n → n < b + tree.subtreeSize b
  above : ∀ a m, tree.node? a = some m → a < n → n < a + tree.subtreeSize a →
    s.PointsTo tree a n m
  below : ∀ b, n < b → b < n + tree.subtreeSize n → ¬ h.Open b ∧ s.memory.find? b = none

/-- The active node is the one that leads, and there is one if the root is running. -/
structure Guided (s : RunState) (h : Log) (tree : BehaviorTree) : Prop where
  status : s.active.isSome = true ↔ s.lastStatus = some .running
  leads : ∀ n, s.active = some n → h.Leads tree.node? 0 n

variable {tree : BehaviorTree} {s : RunState} {h : Log}

/-- A step leaves a run guided, wherever it comes from. -/
theorem History.guided_step (hs : History.{u} tree s h) {σ : Type u} {leaf : LeafEvaluator σ}
    (hleaf : leaf.Prompt) (x : σ) :
    (s.step tree leaf x).2.1.Guided (s.logAfter tree leaf x h) tree := by
  have hled := attest_led hleaf (Nat.le_add_left 1 s.tickCount) tree.root 0
    ⟨s.memory, none, (x, h)⟩ hs.recorded.stands rfl
  have hdone := active_attest_of_isDone leaf (s.tickCount + 1) tree.root 0
    (v := ⟨s.memory, none, (x, h)⟩) rfl
  rw [s.step_eq_attested tree leaf x h]
  by_cases hstatus : (s.attested tree leaf x h).1.isDone = true
  · have hnone : (s.attested tree leaf x h).2.active = none := hdone hstatus
    refine ⟨?_, fun n hn => ?_⟩
    · rw [hnone, Option.some_inj]
      refine iff_of_false nofun fun hrunning => ?_
      rw [hrunning] at hstatus
      cases hstatus
    · rw [hnone] at hn
      cases hn
  · have hrunning := Status.eq_running_of_not_isDone hstatus
    obtain ⟨k, hk, hleads⟩ := hled hrunning
    have hactive : (s.attested tree leaf x h).2.active = some k := hk
    refine ⟨?_, fun n hn => ?_⟩
    · rw [hactive, hrunning]
      exact iff_of_true rfl rfl
    · rw [hactive] at hn
      cases hn
      exact hleads

/-- The node that leads in the tree leads below each node above it. -/
theorem leads_below {a n : Nat} {m : Node} (hleads : h.Leads tree.node? 0 n)
    (hm : tree.node? a = some m) (hlo : a < n) (hhi : n < a + m.size) :
    h.Leads (Node.descendAll m.children) (a + 1) n := by
  obtain ⟨x, hx⟩ := Node.exists_descend_of_lt (n := m) (k := n - (a + 1) + 1) (by omega)
  rw [m.descend_succ] at hx
  have hpart := hleads.restrict (d := a + 1) (fun {i y} hy => tree.node?_below hm hy) hx (by omega)
  rwa [Nat.zero_add] at hpart

/-- A node in progress with the lead below it points there. -/
theorem pointsTo_of_underway {clock a n : Nat} {m : Node} (hm : tree.node? a = some m)
    (hunderway : Underway ⟨s.memory, h⟩ clock m a)
    (hleads : h.Leads (Node.descendAll m.children) (a + 1) n) : s.PointsTo tree a n m := by
  obtain ⟨j, x, hx, hnj, -, hopen, -⟩ := hleads.node
  have hlt := Node.lt_sizeAll_of_descendAll hx
  have hchild : ∀ {i}, UnderwayAt ⟨s.memory, h⟩ clock m.children (a + 1) i →
      tree.InChild a m i n := fun hat =>
    tree.inChild_of_inSibling hm (hat.inSibling hopen (by omega) (by omega))
  cases m with
  | leaf l => trivial
  | sequence cs =>
    simp only [Underway] at hunderway
    obtain ⟨i, hnote, hat⟩ := hunderway
    exact ⟨i, hnote, hchild hat⟩
  | selector cs =>
    simp only [Underway] at hunderway
    obtain ⟨i, hnote, hat⟩ := hunderway
    exact ⟨i, hnote, hchild hat⟩
  | parallel threshold cs =>
    simp only [Underway] at hunderway
    obtain ⟨slots, hnote, -, -, hat⟩ := hunderway
    obtain ⟨i, hin, hslot, hbefore⟩ := hat.inSibling hleads
    exact ⟨slots, i, hnote, tree.inChild_of_inSibling hm hin, hslot, hbefore⟩
  | decorated d c =>
    cases d <;> simp only [Underway] at hunderway
    case inverter => trivial
    case repeated =>
      obtain ⟨k, hnote, hk, -⟩ := hunderway
      exact ⟨k, hnote, hk⟩
    case untilFail => trivial
    case timeout =>
      obtain ⟨started, hnote, -⟩ := hunderway
      exact ⟨started, hnote⟩

/-- Below a node that pauses there are no notes. -/
theorem find?_below_eq_none {clock n : Nat} {m : Node}
    (hstands : Stands ⟨s.memory, h⟩ clock m n) (hpauses : m.Pauses)
    (hquiet : ∀ b, n < b → b < n + m.size → ¬ h.Open b) {b : Nat} (hlo : n < b)
    (hhi : b < n + m.size) : s.memory.find? b = none := by
  rcases hstands with hblank | hunderway
  · exact hblank.notes b (by omega) hhi
  · rcases hpauses with ⟨name, rfl⟩ | ⟨c, rfl⟩
    · have hsize : (Node.leaf (.action name)).size = 1 := rfl
      omega
    · have hsize : (Node.decorated .untilFail c).size = c.size + 1 := rfl
      simp only [Underway] at hunderway
      rcases hunderway.2.2 with hblank | hchild
      · exact hblank.notes b (by omega) (by omega)
      · obtain ⟨j, x, hx, hopen⟩ := hchild.exists_open
        have hlt := Node.lt_size_of_descend hx
        exact absurd hopen (hquiet _ (by omega) (by omega))

/-- A guided run resumes at the node that is active. -/
theorem Guided.resumesAt (hg : s.Guided h tree) (hs : History.{u} tree s h) {n : Nat}
    (hn : s.active = some n) : s.ResumesAt h tree n := by
  have hleads := hg.leads n hn
  obtain ⟨j, m, hm, hnj, hpauses, hopen, hquiet⟩ := hleads.node
  obtain rfl : n = j := by omega
  refine ⟨⟨m, hm, hpauses⟩, hopen, fun b hb hle => ?_, fun a x hx hlo hhi => ?_,
    fun b hlo hhi => ?_⟩
  · obtain ⟨x, hx⟩ := Node.exists_descend_of_lt (hs.recorded.lt_size_of_open hb)
    have habove := hleads.above b x hx (by omega) (by rwa [Nat.zero_add])
    rwa [Nat.zero_add, ← tree.subtreeSize_of_node? hx] at habove
  · rw [tree.subtreeSize_of_node? hx] at hhi
    rcases hs.stands hx with hblank | hunderway
    · exact absurd hopen (hblank.not_open (Nat.le_of_lt hlo) hhi)
    · exact pointsTo_of_underway hx hunderway (leads_below hleads hx hlo hhi)
  · rw [tree.subtreeSize_of_node? hm] at hhi
    exact ⟨hquiet b hlo hhi, find?_below_eq_none (hs.stands hm) hpauses hquiet hlo hhi⟩

/-! ## Runs of one actor or of many -/

/-- The states of a run over `tree` that is ticked for one actor or for many, whoever they are in
each tick, with the logs up to there. A tick for no actors evaluates nothing and leaves the state as
it is, so there is no case for it. -/
inductive Ticked (tree : BehaviorTree) : RunState → Log → Prop
  | fresh : Ticked tree .fresh []
  | solo {σ : Type u} {s : RunState} {h : Log} (hs : Ticked tree s h) (handler : ActionHandler σ)
    (actor : Actor) (x : σ) :
    Ticked tree ((Run.mk actor tree s).tick handler x).2.1.state
      (s.logAfter tree (Run.leaves handler) (actor, x) h)
  | collective {σ : Type u} {s : RunState} {h : Log} (hs : Ticked tree s h)
    (handler : ActionHandler σ) (policy : CollectivePolicy) {actors : List Actor}
    (hactors : actors ≠ []) (x : σ) :
    Ticked tree ((CollectiveRun.mk actors tree s policy).tick handler x).2.1.state
      (s.logAfter tree (CollectiveRun.leaves handler policy) ⟨actors, x, []⟩ h)
  | resume {s : RunState} {h : Log} {actor : Actor} {run : Run} (hs : Ticked tree s h)
    (hrun : Run.resume tree (Run.snapshot ⟨actor, tree, s⟩) = .ok run) : Ticked tree run.state h

theorem state_tick_solo {σ : Type u} (handler : ActionHandler σ) (actor : Actor) (x : σ) :
    ((Run.mk actor tree s).tick handler x).2.1.state =
      (s.step tree (Run.leaves handler) (actor, x)).2.1 := rfl

/-- A tick of a collective with actors is a step of its state. -/
theorem state_tick_collective {σ : Type u} (handler : ActionHandler σ) (policy : CollectivePolicy)
    {actors : List Actor} (hactors : actors ≠ []) (x : σ) :
    ((CollectiveRun.mk actors tree s policy).tick handler x).2.1.state =
      (s.step tree (CollectiveRun.leaves handler policy) ⟨actors, x, []⟩).2.1 := by
  have hsome : ¬ actors.isEmpty = true := by rwa [List.isEmpty_iff]
  rw [CollectiveRun.tick, if_neg hsome]

theorem Ticked.history (hs : Ticked.{u} tree s h) : History.{u} tree s h := by
  induction hs with
  | fresh => exact .fresh
  | solo _ handler actor x ih =>
    rw [state_tick_solo]
    exact ih.step (Run.leaves handler) (actor, x)
  | collective _ handler policy hactors x ih =>
    rw [state_tick_collective handler policy hactors x]
    exact ih.step (CollectiveRun.leaves handler policy) ⟨_, x, []⟩
  | resume _ hrun ih => exact ih.resume hrun

/-- Each tick leaves a run guided. -/
theorem Ticked.guided (hs : Ticked.{u} tree s h) (hpos : 0 < s.tickCount) :
    s.Guided h tree := by
  induction hs with
  | fresh => exact absurd hpos (Nat.lt_irrefl 0)
  | solo hs handler actor x _ =>
    exact hs.history.guided_step (Run.leaves_prompt handler) (actor, x)
  | collective hs handler policy hactors x _ =>
    rw [state_tick_collective handler policy hactors x]
    exact hs.history.guided_step (CollectiveRun.leaves_prompt handler policy) ⟨_, x, []⟩
  | resume hs hrun ih =>
    rw [Run.eq_of_resume hrun] at hpos ⊢
    exact ih hpos

/-- **The active node is where a run resumes.** After at least one tick, of one actor or of many, a
run over any tree has an active node if and only if the root was left running. That node is an
action or an until-fail, it is the first of the nodes in progress that has none below it, and all
nodes above it point to it. -/
theorem Ticked.active_resumes (hs : Ticked.{u} tree s h) (hpos : 0 < s.tickCount) :
    (s.active.isSome = true ↔ s.lastStatus = some .running) ∧
      ∀ n, s.active = some n → s.ResumesAt h tree n :=
  ⟨(hs.guided hpos).status, fun _ hn => (hs.guided hpos).resumesAt hs.history hn⟩

/-- A walk in the second place of a sequence, which is the second child of a parallel node. -/
theorem walk_resumes :
    let tree : BehaviorTree := ⟨⟨none, "patrol"⟩, .parallel 2
      [.leaf (.action "aim"), .sequence [.leaf (.action "aim"), .leaf (.action "walk")]]⟩
    let handler : ActionHandler Unit :=
      ⟨fun actor name x => (if name = "walk" then .running else .success, actor, x),
        fun _ _ x => (true, x), fun _ _ x => (true, x)⟩
    let s := ((Run.start (.ofEntity ⟨1⟩) tree).tick handler ()).2.1.state
    s.active = some 4 ∧ s.PointsTo tree 0 4 tree.root ∧
      s.PointsTo tree 2 4 (.sequence [.leaf (.action "aim"), .leaf (.action "walk")]) := by
  intro tree handler s
  have hs : Ticked.{0} tree s _ := .solo .fresh handler (.ofEntity ⟨1⟩) ()
  have hactive : s.active = some 4 := by decide
  have hresumes := (Ticked.active_resumes hs (by decide)).2 4 hactive
  exact ⟨hactive, hresumes.above 0 tree.root rfl (by decide) (by decide),
    hresumes.above 2 _ rfl (by decide) (by decide)⟩

end RunState

end Herd
