import Herd.Proofs.Run.Conversation
import Herd.Proofs.Tree.Preorder

/-!
# Addresses are places in the pre-order listing

The nodes of a tree, listed in pre-order, are at the addresses 0, 1, 2 and so on
(`Node.getElem?_preorder`), and the intervals of the children of a node fill what is left of its own
interval, one after another without a gap (`BehaviorTree.flatMap_childIds`).

So the node at an address may also be searched for by the addresses of children alone: in each node
go on with the last child that does not lie beyond it (`BehaviorTree.locate`). Each step goes to a
smaller subtree, which is why the search ends, and stays above what it looks for, which is why it
finds it (`BehaviorTree.locate_eq_node?`).

The evaluator counts addresses along as it goes down a tree, and so has no use for the tables. It
comes to the same as an evaluator that looks up every address of a child and every size of a subtree
(`BehaviorTree.evaluate_eq_evaluateAt`).
-/

namespace Herd

universe u

namespace Node

/-! ## The listing -/

mutual

/-- The nodes of the subtree, in pre-order. -/
def preorder : Node → List Node
  | leaf l => [leaf l]
  | sequence cs => sequence cs :: preorderAll cs
  | selector cs => selector cs :: preorderAll cs
  | decorated d c => decorated d c :: c.preorder
  | parallel threshold cs => parallel threshold cs :: preorderAll cs

/-- The nodes of the subtrees of siblings, in pre-order. -/
def preorderAll : List Node → List Node
  | [] => []
  | c :: cs => c.preorder ++ preorderAll cs

end

/-- A node comes before all below it. -/
theorem preorder_eq_cons (n : Node) : n.preorder = n :: preorderAll n.children := by
  cases n <;> simp only [preorder, children, preorderAll, List.append_nil]

theorem length_preorderAll {cs : List Node} (hcs : ∀ c ∈ cs, c.preorder.length = c.size) :
    (preorderAll cs).length = sizeAll cs := by
  induction cs with
  | nil => rfl
  | cons c cs ih =>
    rw [preorderAll, sizeAll, List.length_append, hcs c List.mem_cons_self,
      ih fun d hd => hcs d (List.mem_cons_of_mem _ hd)]

theorem length_preorder (n : Node) : n.preorder.length = n.size := by
  induction n using children_induction with
  | step n ih =>
    rw [preorder_eq_cons, List.length_cons, length_preorderAll ih, size_eq_children]

theorem getElem?_preorderAll {cs : List Node}
    (hcs : ∀ c ∈ cs, ∀ k, c.preorder[k]? = c.descend k) :
    ∀ k, (preorderAll cs)[k]? = descendAll cs k := by
  induction cs with
  | nil => exact fun k => rfl
  | cons c cs ih =>
    intro k
    have hlength := c.length_preorder
    rw [preorderAll, List.getElem?_append, hlength]
    by_cases hk : k < c.size
    · rw [if_pos hk, descendAll_of_lt cs hk, hcs c List.mem_cons_self]
    · rw [if_neg hk, descendAll_of_le cs (by omega)]
      exact ih (fun d hd => hcs d (List.mem_cons_of_mem _ hd)) _

/-- Descending to a place is looking it up in the listing. -/
theorem getElem?_preorder (n : Node) : ∀ k, n.preorder[k]? = n.descend k := by
  induction n using children_induction with
  | step n ih =>
    intro k
    rw [preorder_eq_cons]
    cases k with
    | zero => rw [List.getElem?_cons_zero, descend_zero]
    | succ k => rw [List.getElem?_cons_succ, descend_succ, getElem?_preorderAll ih]

/-! ## Siblings -/

theorem size_le_sizeAll {c : Node} {cs : List Node} (h : c ∈ cs) : c.size ≤ sizeAll cs := by
  induction cs with
  | nil => cases h
  | cons d cs ih =>
    rw [sizeAll]
    rcases List.mem_cons.mp h with rfl | h
    · exact Nat.le_add_right _ _
    · exact Nat.le_add_left_of_le (ih h)

/-- A child is smaller than its parent. -/
theorem size_lt_of_mem_children {n c : Node} (h : c ∈ n.children) : c.size < n.size := by
  rw [size_eq_children n]
  exact Nat.lt_succ_of_le (size_le_sizeAll h)

theorem le_of_mem_starts {cs : List Node} :
    ∀ {first a : Nat}, a ∈ starts first cs → first ≤ a := by
  induction cs with
  | nil =>
    intro first a h
    cases h
  | cons c cs ih =>
    intro first a h
    rcases List.mem_cons.mp h with rfl | h
    · exact Nat.le_refl _
    · exact Nat.le_trans (Nat.le_add_right _ _) (ih h)

/-- Each place among siblings is in the last of them that does not start beyond it. -/
theorem find?_starts (cs : List Node) : ∀ {first id : Nat}, first ≤ id → id < first + sizeAll cs →
    ∃ k c, ((starts first cs).zip cs).reverse.find? (·.1 ≤ id) = some (first + k, c) ∧
      descendAll cs k = some c ∧ first + k ≤ id ∧ id < first + k + c.size := by
  induction cs with
  | nil =>
    intro first id hlo hhi
    rw [sizeAll] at hhi
    omega
  | cons c cs ih =>
    intro first id hlo hhi
    rw [sizeAll] at hhi
    rw [starts, List.zip_cons_cons, List.reverse_cons, List.find?_append]
    -- The search runs from the last sibling back: the later ones are asked first.
    by_cases hid : id < first + c.size
    · have hnone : ((starts (first + c.size) cs).zip cs).reverse.find? (·.1 ≤ id) = none := by
        refine List.find?_eq_none.mpr fun e he => ?_
        have hle := le_of_mem_starts (List.of_mem_zip (List.mem_reverse.mp he)).1
        simp only [decide_eq_true_eq]
        omega
      refine ⟨0, c, ?_, ?_, hlo, hid⟩
      · rw [hnone, Option.none_or, List.find?_singleton, if_pos (decide_eq_true hlo)]
        rfl
      · rw [descendAll_of_lt cs c.size_pos, descend_zero]
    · obtain ⟨k, d, hfind, hk, hle, hlt⟩ := ih (Nat.not_lt.mp hid) (by omega)
      refine ⟨c.size + k, d, ?_, ?_, by omega, by omega⟩
      · rw [hfind, Option.some_or, Nat.add_assoc]
      · rwa [descendAll_of_le cs (Nat.le_add_right _ _), Nat.add_sub_cancel_left]

end Node

namespace BehaviorTree

variable (t : BehaviorTree) {id : Nat} {n : Node}

/-- A tree has as many addresses as nodes in the listing. -/
theorem size_eq_length_preorder : t.size = t.root.preorder.length := by
  rw [size, Node.length_sizes, Node.length_preorder]

/-- The node at an address is the one at that place in the listing. -/
theorem node?_eq_getElem? (id : NodeId) : t.node? id = t.root.preorder[id]? :=
  (t.root.getElem?_preorder id).symm

/-- Nothing lies beyond the tree. -/
theorem node?_of_size_le (h : t.size ≤ id) : t.node? id = none ∧ t.subtreeSize id = 0 := by
  have hlength := t.size_eq_length_preorder
  rw [node?_eq_getElem?, subtreeSize, List.getD_eq_getElem?_getD]
  exact ⟨List.getElem?_eq_none (hlength ▸ h), by rw [List.getElem?_eq_none h, Option.getD_none]⟩

/-! ## The children of a node -/

variable {t} {first : Nat} {cs : List Node}

/-- Each sibling is found at its address. -/
theorem HasSiblings.forall₂_siblingIds (h : t.HasSiblings first cs) :
    List.Forall₂ (fun i c => t.node? i = some c) (t.siblingIds first cs) cs := by
  induction cs generalizing first with
  | nil => exact .nil
  | cons c cs ih =>
    rw [siblingIds, subtreeSize_of_node? h.head]
    exact .cons h.head (ih h.tail)

/-- The intervals of siblings fill what they take, one after another. -/
theorem HasSiblings.flatMap_siblingIds (h : t.HasSiblings first cs) :
    (t.siblingIds first cs).flatMap (fun i => List.range' i (t.subtreeSize i)) =
      List.range' first (Node.sizeAll cs) := by
  induction cs generalizing first with
  | nil => rfl
  | cons c cs ih =>
    rw [siblingIds, List.flatMap_cons, subtreeSize_of_node? h.head, ih h.tail, Node.sizeAll,
      ← List.range'_append_1]

/-- One after another the intervals of the children fill the interval of a node but for the node
itself. -/
theorem flatMap_childIds (h : t.node? id = some n) :
    (t.childIds id n).flatMap (fun i => List.range' i (t.subtreeSize i)) =
      List.range' (id + 1) (t.subtreeSize id - 1) := by
  rw [subtreeSize_of_node? h, Node.size_eq_children, Nat.add_sub_cancel]
  exact (hasSiblings_children h).flatMap_siblingIds

/-! ## Searching -/

variable (t)

/-- The last child of the node `here` that does not lie beyond `id`, with its address. -/
def towards (id : NodeId) (here : NodeId × Node) : Option (NodeId × Node) :=
  ((t.childIds here.1 here.2).zip here.2.children).reverse.find? (·.1 ≤ id)

variable {t}

/-- Each step of a search goes to a smaller subtree. -/
theorem size_lt_of_towards {here there : NodeId × Node} (h : t.towards id here = some there) :
    there.2.size < here.2.size := by
  have hmem := List.mem_reverse.mp (List.mem_of_find?_eq_some h)
  exact Node.size_lt_of_mem_children (List.of_mem_zip hmem).2

variable (t)

/-- The search for a node from a node above it. -/
def seek (id : NodeId) (here : NodeId × Node) : Option Node :=
  if here.1 = id then some here.2
  else
    match _ : t.towards id here with
    | some there => seek id there
    | none => none
termination_by here.2.size
decreasing_by exact size_lt_of_towards ‹_›

/-- The search for the node at an address. -/
def locate (id : NodeId) : Option Node := if t.size ≤ id then none else t.seek id (0, t.root)

/-- **A search ends**, whatever it looks for and wherever it starts. -/
theorem wellFounded_towards (id : NodeId) :
    WellFounded fun there here => t.towards id here = some there :=
  Subrelation.wf size_lt_of_towards (measure fun here : NodeId × Node => here.2.size).wf

variable {t}

/-- A step of a search stays above what it looks for. -/
theorem towards_of_node? {here : NodeId × Node} (h : t.node? here.1 = some here.2)
    (hlo : here.1 < id) (hhi : id < here.1 + here.2.size) :
    ∃ there, t.towards id here = some there ∧ t.node? there.1 = some there.2 ∧
      there.1 ≤ id ∧ id < there.1 + there.2.size := by
  have hsize := here.2.size_eq_children
  obtain ⟨k, c, hfind, hk, hle, hlt⟩ :=
    Node.find?_starts here.2.children (Nat.succ_le_of_lt hlo) (by omega)
  rw [← childIds_of_node? h] at hfind
  exact ⟨(here.1 + 1 + k, c), hfind, node?_below h hk, hle, hlt⟩

/-- A search from above a node finds it. -/
theorem seek_eq_node? (here : NodeId × Node) (h : t.node? here.1 = some here.2)
    (hlo : here.1 ≤ id) (hhi : id < here.1 + here.2.size) : t.seek id here = t.node? id := by
  -- On the steps of the search; each stays above `id` by `towards_of_node?`.
  induction here using (t.wellFounded_towards id).induction with
  | _ here ih =>
    rw [seek]
    split
    · next hid => rw [← hid, h]
    · next hid =>
      obtain ⟨there, hthere, hnode, hle, hlt⟩ := towards_of_node? h (Nat.lt_of_le_of_ne hlo hid) hhi
      split
      · next there' hthere' =>
        obtain rfl := Option.some.inj (hthere.symm.trans hthere')
        exact ih there hthere hnode hle hlt
      · next hnone => cases hthere.symm.trans hnone

/-- **A search finds the node.** -/
theorem locate_eq_node? (id : NodeId) : t.locate id = t.node? id := by
  rw [locate]
  split
  · next h => exact (t.node?_of_size_le h).1.symm
  · next h =>
    have hroot : t.node? 0 = some t.root := t.root.descend_zero
    refine seek_eq_node? (0, t.root) hroot (Nat.zero_le id) ?_
    rw [← Node.length_sizes, Nat.zero_add]
    exact Nat.not_le.mp h

/-! ## Evaluating by address -/

section Evaluating

variable {σ : Type u}

section Definitions

variable (leaf : LeafEvaluator σ) (now : Nat)

mutual

/-- The evaluator of the node at `id` that looks up what it needs to know of the tree: where the
children are, and how large the subtree is that is left in the end. -/
def evaluateAt (t : BehaviorTree) : Node → NodeId → Evaluator σ
  | .leaf l, id =>
    settled id (t.subtreeSize id) fun v =>
      match leaf id l v.leaves with
      | (status, leaves) => (status, { v with leaves })
  | .sequence cs, id =>
    settled id (t.subtreeSize id)
      (resumed .success id (evaluateAllAt t cs (t.childIds id (.sequence cs))))
  | .selector cs, id =>
    settled id (t.subtreeSize id)
      (resumed .failure id (evaluateAllAt t cs (t.childIds id (.selector cs))))
  | .decorated d c, id =>
    settled id (t.subtreeSize id) (decorate now id (evaluateAt t c (id + 1)) d)
  | .parallel threshold cs, id =>
    settled id (t.subtreeSize id)
      (parallel threshold id (evaluateAllAt t cs (t.childIds id (.parallel threshold cs))))

/-- The evaluators of siblings at these addresses. -/
def evaluateAllAt (t : BehaviorTree) : List Node → List NodeId → List (Evaluator σ)
  | c :: cs, id :: ids => evaluateAt t c id :: evaluateAllAt t cs ids
  | _, _ => []

end

end Definitions

variable {leaf : LeafEvaluator σ} {now : Nat}

/-- Siblings are evaluated where they are in the tree. -/
theorem HasSiblings.evaluators_eq (h : t.HasSiblings first cs)
    (hcs : ∀ c ∈ cs, ∀ {id}, t.node? id = some c →
      evaluate leaf now c id = t.evaluateAt leaf now c id) :
    evaluators leaf now cs first = t.evaluateAllAt leaf now cs (t.siblingIds first cs) := by
  induction cs generalizing first with
  | nil => rfl
  | cons c cs ih =>
    rw [evaluators, siblingIds, evaluateAllAt, hcs c List.mem_cons_self h.head,
      subtreeSize_of_node? h.head, ih h.tail fun d hd => hcs d (List.mem_cons_of_mem c hd)]

/-- **A node is evaluated as the tables say**: its children at their addresses, and at the end it
takes leave of a subtree of the size that is noted. -/
theorem evaluate_eq_evaluateAt (h : t.node? id = some n) :
    evaluate leaf now n id = t.evaluateAt leaf now n id := by
  -- On the tree: that the children of a node are in the tree comes of where the node is.
  induction n using Node.children_induction generalizing id with
  | step n ih =>
    have hsize := subtreeSize_of_node? h
    have hchildren : evaluators leaf now n.children (id + 1) =
        t.evaluateAllAt leaf now n.children (t.childIds id n) :=
      (hasSiblings_children h).evaluators_eq ih
    cases n with
    | leaf l => rw [evaluate, evaluateAt, hsize, Node.size]
    | sequence cs | selector cs | parallel threshold cs =>
      rw [Node.children] at hchildren
      rw [evaluate, evaluateAt, hsize, Node.size, hchildren]
    | decorated d c =>
      rw [evaluate, evaluateAt, hsize, Node.size,
        ih c List.mem_cons_self (hasSiblings_children h).head]

/-- So a step evaluates a tree by its tables. -/
theorem step_eq_evaluateAt (s : RunState) (t : BehaviorTree) (x : σ) :
    s.step t leaf x =
      match t.evaluateAt leaf (s.tickCount + 1) t.root 0 ⟨s.memory, none, x⟩ with
      | (status, v) => (status, ⟨s.tickCount + 1, v.active, some status, v.memory⟩, v.leaves) := by
  have hroot : t.node? 0 = some t.root := t.root.descend_zero
  rw [RunState.step, evaluate_eq_evaluateAt hroot]

end Evaluating

/-- **Addresses are exact.** A tree has as many addresses as nodes, and the address of a node is its
place in pre-order: there the node is found, its subtree has the size that is noted, and each of its
children has one address, where it is found in turn. The intervals of the children fill that of the
node, one after another, but for the node itself. Beyond the tree there is no node and no size. The
search along addresses ends for each address, and finds what is there. Whatever state a run is in,
each leaf that a step asks is asked for at its address. -/
theorem addresses_exact (t : BehaviorTree) :
    t.size = t.root.preorder.length ∧
    (∀ id n, t.root.preorder[id]? = some n →
      t.node? id = some n ∧ t.subtreeSize id = n.preorder.length ∧
      List.Forall₂ (fun i c => t.node? i = some c) (t.childIds id n) n.children ∧
      (t.childIds id n).flatMap (fun i => List.range' i (t.subtreeSize i)) =
        List.range' (id + 1) (t.subtreeSize id - 1)) ∧
    (∀ id, t.size ≤ id → t.node? id = none ∧ t.subtreeSize id = 0) ∧
    (∀ id, WellFounded (fun there here => t.towards id here = some there) ∧
      t.locate id = t.node? id) ∧
    ∀ {σ : Type u} (s : RunState) (leaf : LeafEvaluator σ) (x : σ),
      ∀ q ∈ s.exchanges t leaf x, t.node? q.node = some (.leaf q.leaf) := by
  refine ⟨t.size_eq_length_preorder, fun id n hn => ?_, fun id => t.node?_of_size_le,
    fun id => ⟨t.wellFounded_towards id, locate_eq_node? id⟩, fun s leaf x q hq => ?_⟩
  · rw [← node?_eq_getElem?] at hn
    refine ⟨hn, ?_, (hasSiblings_children hn).forall₂_siblingIds, flatMap_childIds hn⟩
    rw [subtreeSize_of_node? hn, Node.length_preorder]
  · exact RunState.node?_of_mem_exchanges hq

/-- A sequence of an empty sequence, an inverter and a leaf. -/
theorem patrol_addresses :
    let aim : Node := .leaf (.action "aim")
    let t : BehaviorTree := ⟨⟨none, "patrol"⟩,
      .sequence [.sequence [], .decorated .inverter aim, .leaf (.action "walk")]⟩
    let leaf : LeafEvaluator Unit := fun _ _ x => (.failure, x)
    t.childIds 0 t.root = [1, 2, 4] ∧
      (t.childIds 0 t.root).flatMap (fun i => List.range' i (t.subtreeSize i)) = [1, 2, 3, 4] ∧
      t.subtreeSize 1 = 1 ∧ t.locate 3 = some aim ∧ t.node? 5 = none ∧
      ⟨3, .action "aim", .failure⟩ ∈ RunState.fresh.exchanges t leaf () ∧ t.node? 3 = some aim := by
  intro aim t leaf
  obtain ⟨-, hat, hbeyond, hsearch, hasked⟩ := addresses_exact t
  have hleaf : ⟨3, .action "aim", .failure⟩ ∈ RunState.fresh.exchanges t leaf () := by decide
  exact ⟨by decide, (hat 0 t.root rfl).2.2.2, (hat 1 (.sequence []) rfl).2.1,
    (hsearch 3).2.trans rfl, (hbeyond 5 (by decide)).1, hleaf, hasked .fresh leaf () _ hleaf⟩

end BehaviorTree

end Herd
