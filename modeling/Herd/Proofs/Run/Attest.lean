import Herd.Proofs.Run.Log
import Herd.Proofs.Run.Mirror
import Herd.Proofs.Run.Passage
import Herd.Proofs.Run.Region
import Herd.Proofs.Tree.Preorder

/-!
# Evaluations that keep a log

`attest` evaluates a tree as `evaluate` does, with the same composites, and enters each evaluation
in a log beside the state of the leaves. Without the log it is `evaluate` (`attest_mirrors`), so a
run with its log is a run (`RunState.step_eq_attested`).

Whatever it starts from, the evaluation of a node changes notes in the region of the node only, and
enters evaluations of the node and of nodes below it, each at its address (`attest_confined`); its
own comes last (`log_attest`).
-/

namespace Herd

universe u

variable {σ : Type u}

/-- The log that is kept beside the state of the leaves. -/
abbrev Visit.log (v : Visit (σ × Log)) : Log := v.leaves.2

/-- Leaves that keep a log beside their state. -/
def LeafEvaluator.beside (leaf : LeafEvaluator σ) : LeafEvaluator (σ × Log) := fun id l s =>
  match leaf id l s.1 with
  | (status, x) => (status, (x, s.2))

/-- The evaluation of a node that answered `status`, and that began on the visit `v`. -/
def entry (now : Nat) (n : Node) (id : NodeId) (v : Visit (σ × Log)) (status : Status) :
    Evaluation :=
  ⟨now, id, n, v.memory.find? id, status⟩

/-- Evaluate a node, and enter the evaluation in the log. -/
def entered (now : Nat) (n : Node) (id : NodeId) (f : Evaluator (σ × Log)) :
    Evaluator (σ × Log) := fun v =>
  match f v with
  | (status, w) =>
    (status, { w with leaves := (w.leaves.1, entry now n id v status :: w.log) })

mutual

/-- The evaluator of the node at `id`, in tick `now`, that keeps a log. -/
def attest (leaf : LeafEvaluator σ) (now : Nat) : Node → NodeId → Evaluator (σ × Log)
  | .leaf l, id =>
    entered now (.leaf l) id <| settled id 1 fun v =>
      match leaf.beside id l v.leaves with
      | (status, leaves) => (status, { v with leaves })
  | .sequence cs, id =>
    entered now (.sequence cs) id <|
      settled id (Node.sizeAll cs + 1) (resumed .success id (attestAll leaf now cs (id + 1)))
  | .selector cs, id =>
    entered now (.selector cs) id <|
      settled id (Node.sizeAll cs + 1) (resumed .failure id (attestAll leaf now cs (id + 1)))
  | .decorated d c, id =>
    entered now (.decorated d c) id <|
      settled id (c.size + 1) (decorate now id (attest leaf now c (id + 1)) d)
  | .parallel threshold cs, id =>
    entered now (.parallel threshold cs) id <|
      settled id (Node.sizeAll cs + 1) (parallel threshold id (attestAll leaf now cs (id + 1)))

/-- The evaluators of siblings of which the first is at `id`. -/
def attestAll (leaf : LeafEvaluator σ) (now : Nat) :
    List Node → NodeId → List (Evaluator (σ × Log))
  | [], _ => []
  | c :: cs, id => attest leaf now c id :: attestAll leaf now cs (id + c.size)

end

/-! ## Without the log -/

/-- The visit without the log. -/
def Visit.unlogged (v : Visit (σ × Log)) : Visit σ := ⟨v.memory, v.active, v.leaves.1⟩

theorem NodeMemory.delayed_zero (note : NodeMemory) : note.delayed 0 = note := by
  cases note <;> rfl

/-- A visit without its log goes with all that is done to visits. -/
theorem mirror_unlogged : Mirror 0 (Visit.unlogged (σ := σ)) where
  remember v id note := by
    rw [NodeMemory.delayed_zero]
    rfl
  forget v id := rfl
  settle v id size status := by
    unfold Visit.settle
    split <;> rfl
  find? v id := by
    have hsame : NodeMemory.delayed 0 = fun note => note := funext NodeMemory.delayed_zero
    rw [hsame, Option.map_id']
    rfl

section Nodes

variable (leaf : LeafEvaluator σ) (now : Nat)

/-- Entering an evaluation in the log makes no difference without it. -/
theorem entered_mirrors {n : Node} {id : NodeId} {f : Evaluator (σ × Log)} {g : Evaluator σ}
    (h : Mirrors Visit.unlogged f g) : Mirrors Visit.unlogged (entered now n id f) g :=
  fun v => h v

/-- Siblings that are evaluated with a log are evaluated as without it. -/
theorem attestAll_mirrors {cs : List Node}
    (hcs : ∀ c ∈ cs, ∀ id : NodeId,
      Mirrors Visit.unlogged (attest leaf now c id) (evaluate leaf now c id)) :
    ∀ first : NodeId, List.Forall₂ (Mirrors Visit.unlogged) (attestAll leaf now cs first)
      (evaluators leaf now cs first) := by
  induction cs with
  | nil => exact fun first => .nil
  | cons c cs ih =>
    intro first
    simp only [attestAll, evaluators]
    exact .cons (hcs c List.mem_cons_self first)
      (ih (fun d hd => hcs d (List.mem_cons_of_mem _ hd)) (first + c.size))

/-- **The log makes no difference** to what an evaluation answers and does. -/
theorem attest_mirrors (n : Node) :
    ∀ id : NodeId, Mirrors Visit.unlogged (attest leaf now n id) (evaluate leaf now n id) := by
  have hφ : Mirror 0 (Visit.unlogged (σ := σ)) := mirror_unlogged
  induction n with
  | leaf l =>
    intro id
    simp only [attest, evaluate]
    exact entered_mirrors now (settled_mirrors hφ fun v => rfl)
  | sequence cs ih =>
    intro id
    simp only [attest, evaluate]
    exact entered_mirrors now
      (settled_mirrors hφ (resumed_mirrors hφ _ (attestAll_mirrors leaf now ih (id + 1))))
  | selector cs ih =>
    intro id
    simp only [attest, evaluate]
    exact entered_mirrors now
      (settled_mirrors hφ (resumed_mirrors hφ _ (attestAll_mirrors leaf now ih (id + 1))))
  | decorated d c ih =>
    intro id
    simp only [attest, evaluate]
    exact entered_mirrors now (settled_mirrors hφ (decorate_mirrors hφ now (ih (id + 1)) d))
  | parallel threshold cs ih =>
    intro id
    simp only [attest, evaluate]
    exact entered_mirrors now
      (settled_mirrors hφ (parallel_mirrors hφ threshold (attestAll_mirrors leaf now ih (id + 1))))

end Nodes

/-! ## What an evaluation is confined to -/

/-- The evaluation is of a node in the subtree of the node at `id`, at its address. -/
def Node.Places (n : Node) (id : Nat) (e : Evaluation) : Prop :=
  ∃ k, n.descend k = some e.node ∧ e.id = id + k

/-- The evaluation is of a node in the subtree of one of the siblings, at its address. -/
def Node.PlacesAll (cs : List Node) (first : Nat) (e : Evaluation) : Prop :=
  ∃ k, Node.descendAll cs k = some e.node ∧ e.id = first + k

namespace Node

variable {n c : Node} {cs : List Node} {id first : Nat} {e : Evaluation}

theorem Places.self (hid : e.id = id) (hnode : e.node = n) : n.Places id e :=
  ⟨0, by rw [hnode, descend_zero], hid⟩

theorem PlacesAll.places (h : PlacesAll n.children (id + 1) e) : n.Places id e := by
  obtain ⟨k, hk, hid⟩ := h
  exact ⟨k + 1, by rw [descend_succ, hk], by omega⟩

theorem Places.head (h : c.Places first e) : PlacesAll (c :: cs) first e := by
  obtain ⟨k, hk, hid⟩ := h
  exact ⟨k, by rw [descendAll_of_lt cs (lt_size_of_descend hk), hk], hid⟩

theorem PlacesAll.tail (h : PlacesAll cs (first + c.size) e) : PlacesAll (c :: cs) first e := by
  obtain ⟨k, hk, hid⟩ := h
  refine ⟨c.size + k, ?_, by omega⟩
  rw [descendAll_of_le cs (Nat.le_add_right _ _), Nat.add_sub_cancel_left, hk]

/-- The subtrees of siblings take the addresses that follow the first. -/
theorem PlacesAll.within (h : PlacesAll cs first e) (log : Log) :
    Log.Within first (first + sizeAll cs) e log := by
  obtain ⟨k, hk, hid⟩ := h
  have hsize := add_size_le_of_descendAll (fun c _ => c.add_size_le_of_descend) hk
  exact ⟨by omega, by omega⟩

/-- A subtree takes the addresses that follow its root. -/
theorem Places.within (h : n.Places id e) (log : Log) : Log.Within id (id + n.size) e log := by
  obtain ⟨k, hk, hid⟩ := h
  have hsize := n.add_size_le_of_descend hk
  exact ⟨by omega, by omega⟩

end Node

/-- Notes have changed in the region of the node at `id` only, and only evaluations of nodes in its
subtree were entered. -/
structure Confined (n : Node) (id : Nat) (v w : Visit (σ × Log)) : Prop where
  notes : Memory.AgreeOff v.memory w.memory id (id + n.size)
  log : Log.Adds (fun e _ => n.Places id e) v.log w.log

/-- Apart from the note of the node at `id` notes have changed in the regions of the siblings only,
and only evaluations of nodes in their subtrees were entered. -/
structure ConfinedAll (id : Nat) (cs : List Node) (first : Nat) (v w : Visit (σ × Log)) : Prop where
  notes : ∀ k : Nat, k ≠ id → k < first ∨ first + Node.sizeAll cs ≤ k →
    w.memory.find? k = v.memory.find? k
  log : Log.Adds (fun e _ => Node.PlacesAll cs first e) v.log w.log

section Confinement

variable {n c : Node} {cs : List Node} {id first : Nat} {v w : Visit (σ × Log)}

/-- What is confined to the first sibling is confined to the siblings. -/
theorem Confined.head (h : Confined c first v w) (id : Nat) (cs : List Node) :
    ConfinedAll id (c :: cs) first v w := by
  refine ⟨fun k _ hk => h.notes k ?_, h.log.mono Node.Places.head⟩
  rw [Node.sizeAll] at hk
  omega

theorem ConfinedAll.tail (h : ConfinedAll id cs (first + c.size) v w) :
    ConfinedAll id (c :: cs) first v w := by
  refine ⟨fun k hne hk => h.notes k hne ?_, h.log.mono Node.PlacesAll.tail⟩
  rw [Node.sizeAll] at hk
  omega

/-- Evaluations that are confined to a subtree are entered for its region only. -/
theorem Confined.within (h : Confined n id v w) :
    Log.Adds (Log.Within id (id + n.size)) v.log w.log :=
  h.log.mono fun he => he.within _

theorem ConfinedAll.within (h : ConfinedAll id cs first v w) :
    Log.Adds (Log.Within first (first + Node.sizeAll cs)) v.log w.log :=
  h.log.mono fun he => he.within _

/-- What a node does with its children is confined to them, but for its own note. -/
theorem passage_confinedAll (id : Nat) (cs : List Node) (first : Nat) :
    Passage id (ConfinedAll (σ := σ) id cs first) where
  refl _ := ⟨fun _ _ _ => rfl, .refl⟩
  trans h₁ h₂ :=
    ⟨fun k hne hk => (h₂.notes k hne hk).trans (h₁.notes k hne hk), h₁.log.trans h₂.log⟩
  remember _ _ := ⟨fun _ hne _ => Table.find?_insert_of_ne _ hne _, .refl⟩
  forget _ := ⟨fun _ hne _ => Table.find?_erase_of_ne _ hne, .refl⟩

/-- Taking leave of a node and entering its evaluation, after a body that is confined to the nodes
below it. -/
theorem entered_confined {now : Nat} {body : Evaluator (σ × Log)}
    (h : Moves (ConfinedAll id n.children (id + 1)) body) :
    Moves (Confined n id) (entered now n id (settled id n.size body)) := by
  intro v
  obtain ⟨hnotes, hlog⟩ := h v
  have hsize := n.size_eq_children
  refine ⟨fun k hk => ?_, ?_⟩
  · exact (Visit.agreeOff_settle _ _ _ _ k hk).trans (hnotes k (by omega) (by omega))
  · have hbelow : Log.Adds (fun e _ => n.Places id e) v.log
        ((body v).2.settle id n.size (body v).1).log := by
      rw [Visit.log, Visit.log, Visit.leaves_settle]
      exact hlog.mono Node.PlacesAll.places
    exact hbelow.cons (.self rfl rfl)

end Confinement

section Bodies

variable (leaf : LeafEvaluator σ) (now : Nat)

/-- What the evaluation of a node does before the node takes leave. -/
def bodyOf (id : NodeId) : Node → Evaluator (σ × Log)
  | .leaf l => fun v =>
    match leaf.beside id l v.leaves with
    | (status, leaves) => (status, { v with leaves })
  | .sequence cs => resumed .success id (attestAll leaf now cs (id + 1))
  | .selector cs => resumed .failure id (attestAll leaf now cs (id + 1))
  | .decorated d c => decorate now id (attest leaf now c (id + 1)) d
  | .parallel threshold cs => parallel threshold id (attestAll leaf now cs (id + 1))

/-- To evaluate a node is to run its body, to take leave, and to enter it in the log. -/
theorem attest_eq (n : Node) (id : NodeId) :
    attest leaf now n id = entered now n id (settled id n.size (bodyOf leaf now id n)) := by
  cases n <;> simp only [attest, bodyOf] <;> rfl

@[simp] theorem length_attestAll (cs : List Node) (first : NodeId) :
    (attestAll leaf now cs first).length = cs.length := by
  induction cs generalizing first with
  | nil => rfl
  | cons c cs ih => simp only [attestAll, List.length_cons, ih]

/-- Each sibling is confined to all of them. -/
theorem attestAll_confined {cs : List Node}
    (hcs : ∀ c ∈ cs, ∀ id : Nat, Moves (Confined c id) (attest leaf now c id)) (id : Nat) :
    ∀ first : Nat, ∀ f ∈ attestAll leaf now cs first, Moves (ConfinedAll id cs first) f := by
  induction cs with
  | nil => exact fun first f hf => absurd hf List.not_mem_nil
  | cons c cs ih =>
    intro first f hf
    simp only [attestAll] at hf
    rcases List.mem_cons.mp hf with rfl | hf
    · exact (hcs c List.mem_cons_self first).mono fun h => h.head id cs
    · exact (ih (fun d hd => hcs d (List.mem_cons_of_mem _ hd)) _ f hf).mono ConfinedAll.tail

/-- What a passage allows the children and a leaf, it allows the body of a node. -/
theorem bodyOf_moves {R : Visit (σ × Log) → Visit (σ × Log) → Prop} {id : NodeId}
    (hR : Passage id R)
    (hleaves : ∀ (v : Visit (σ × Log)) (x : σ), R v { v with leaves := (x, v.log) }) {n : Node}
    (hn : ∀ f ∈ attestAll leaf now n.children (id + 1), Moves R f) :
    Moves R (bodyOf leaf now id n) := by
  cases n with
  | leaf l => exact fun v => hleaves v _
  | sequence cs => exact hR.resumed .success hn
  | selector cs => exact hR.resumed .failure hn
  | decorated d c => exact hR.decorate now (hn _ List.mem_cons_self) d
  | parallel threshold cs => exact hR.parallel threshold hn

/-- A body is confined to the children, if their evaluations are. -/
theorem bodyOf_confined_of {n : Node}
    (hn : ∀ c ∈ n.children, ∀ id : Nat, Moves (Confined c id) (attest leaf now c id)) (id : Nat) :
    Moves (ConfinedAll id n.children (id + 1)) (bodyOf leaf now id n) :=
  bodyOf_moves leaf now (passage_confinedAll id n.children (id + 1))
    (fun _ _ => ⟨fun _ _ _ => rfl, .refl⟩) (attestAll_confined leaf now hn id (id + 1))

/-- **An evaluation is confined to its subtree**, in the notes that it changes and in the
evaluations that it enters. -/
theorem attest_confined (n : Node) :
    ∀ id : Nat, Moves (Confined n id) (attest leaf now n id) := by
  induction n using Node.children_induction with
  | step n ih =>
    intro id
    rw [attest_eq]
    exact entered_confined (bodyOf_confined_of leaf now ih id)

/-- A body is confined to the children of its node, but for the note of the node. -/
theorem bodyOf_confined (n : Node) (id : Nat) :
    Moves (ConfinedAll id n.children (id + 1)) (bodyOf leaf now id n) :=
  bodyOf_confined_of leaf now (fun c _ => attest_confined leaf now c) id

/-- Siblings are confined to their regions and to those of each other, whichever node they are
evaluated for. -/
theorem attestAll_moves (cs : List Node) (id first : Nat) :
    ∀ f ∈ attestAll leaf now cs first, Moves (ConfinedAll id cs first) f :=
  attestAll_confined leaf now (fun c _ => attest_confined leaf now c) id first

/-! ### What the bodies of composites come to -/

section Composites

variable {leaf now} {c : Node} {cs : List Node} {threshold ticks : Nat} {id : NodeId}
  {v w : Visit (σ × Log)} {status : Status} {slots : List (Option Status)}

/-- An inverter answers the contrary of what its child does. -/
theorem bodyOf_inverter (hr : attest leaf now c (id + 1) v = (status, w)) :
    bodyOf leaf now id (.decorated .inverter c) v = (status.inverted, w) := by
  simp only [bodyOf, decorate, hr]

theorem bodyOf_untilFail (hr : attest leaf now c (id + 1) v = (status, w)) :
    bodyOf leaf now id (.decorated .untilFail c) v =
      (if status = .failure then .success else .running, w) := by
  simp only [bodyOf, decorate, hr]
  cases status <;> rfl

/-- A timeout that has spent its ticks. -/
theorem bodyOf_timeout_spent (hspent : ticks ≤ now - v.startedAt id now) :
    bodyOf leaf now id (.decorated (.timeout ticks) c) v = (.failure, v) := by
  simp only [bodyOf, decorate, if_pos hspent]

/-- A timeout that is left time notes when its child was entered. -/
theorem bodyOf_timeout_running (hleft : ¬ ticks ≤ now - v.startedAt id now)
    (hr : attest leaf now c (id + 1) v = (.running, w)) :
    bodyOf leaf now id (.decorated (.timeout ticks) c) v =
      (.running, w.remember id (.startedAt (v.startedAt id now))) := by
  simp only [bodyOf, decorate, if_neg hleft, hr]

theorem bodyOf_timeout_done (hleft : ¬ ticks ≤ now - v.startedAt id now)
    (hr : attest leaf now c (id + 1) v = (status, w)) (hstatus : status ≠ .running) :
    bodyOf leaf now id (.decorated (.timeout ticks) c) v = (status, w) := by
  simp only [bodyOf, decorate, if_neg hleft, hr]

/-- A parallel node that is not decided notes its slots. -/
theorem bodyOf_parallel_running
    (hfill : fillSlots (v.slotsAt id cs.length) (attestAll leaf now cs (id + 1)) (v.forget id) =
      (slots, w)) (hstatus : parallelStatus threshold slots = .running) :
    bodyOf leaf now id (.parallel threshold cs) v =
      (.running, w.remember id (.finished slots)) := by
  simp only [bodyOf, parallel, length_attestAll, hfill, hstatus]

theorem bodyOf_parallel_done
    (hfill : fillSlots (v.slotsAt id cs.length) (attestAll leaf now cs (id + 1)) (v.forget id) =
      (slots, w)) (hstatus : parallelStatus threshold slots ≠ .running) :
    bodyOf leaf now id (.parallel threshold cs) v = (parallelStatus threshold slots, w) := by
  simp only [bodyOf, parallel, length_attestAll, hfill]

end Composites

/-- The evaluation of the node itself comes last. -/
theorem log_attest (n : Node) (id : NodeId) (v : Visit (σ × Log)) :
    (attest leaf now n id v).2.log =
      entry now n id v (attest leaf now n id v).1 :: (bodyOf leaf now id n v).2.log := by
  rw [attest_eq]
  simp only [entered, settled, Visit.log, Visit.leaves_settle]

end Bodies

/-! ## Runs with their logs -/

namespace RunState

/-- A tick of the tree that keeps a log, which goes on from `h`. -/
def attested (s : RunState) (tree : BehaviorTree) (leaf : LeafEvaluator σ) (x : σ) (h : Log) :
    Status × Visit (σ × Log) :=
  attest leaf (s.tickCount + 1) tree.root 0 ⟨s.memory, none, (x, h)⟩

/-- The log after a step, from the log before. -/
def logAfter (s : RunState) (tree : BehaviorTree) (leaf : LeafEvaluator σ) (x : σ) (h : Log) :
    Log :=
  (s.attested tree leaf x h).2.log

/-- A step is a tick that keeps a log, without the log. -/
theorem step_eq_attested (s : RunState) (tree : BehaviorTree) (leaf : LeafEvaluator σ) (x : σ)
    (h : Log) :
    s.step tree leaf x = ((s.attested tree leaf x h).1,
      ⟨s.tickCount + 1, (s.attested tree leaf x h).2.active, some (s.attested tree leaf x h).1,
        (s.attested tree leaf x h).2.memory⟩, (s.attested tree leaf x h).2.leaves.1) := by
  have hmirrors := attest_mirrors leaf (s.tickCount + 1) tree.root 0 ⟨s.memory, none, (x, h)⟩
  simp only [Visit.unlogged] at hmirrors
  simp only [step, hmirrors, attested]

end RunState

end Herd
