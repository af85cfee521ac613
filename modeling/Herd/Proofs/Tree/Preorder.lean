import Herd.Tree.Address

/-!
# Subtrees are intervals of addresses

The nodes below a node take the addresses that follow its own, one subtree of a child after another.
So `descend` finds a node within the subtree of each of its ancestors and nowhere else
(`Node.add_size_le_of_descend`, `Node.descend_add`), the table of sizes has at each address the size
of the subtree there (`BehaviorTree.subtreeSize_of_node?`), and the children of a node start where
the subtrees of those before them end (`BehaviorTree.childIds_of_node?`).
-/

namespace Herd

namespace Node

/-! ## Descending -/

theorem lt_sizeAll_of_descendAll {cs : List Node} :
    ∀ {k : Nat} {m : Node}, descendAll cs k = some m → k < sizeAll cs := by
  induction cs with
  | nil =>
    intro k m h
    simp only [descendAll] at h
    cases h
  | cons c cs ih =>
    intro k m h
    simp only [descendAll] at h
    rw [sizeAll]
    split at h
    · omega
    · have hrest := ih h
      omega

/-- A node is found within its subtree only. -/
theorem lt_size_of_descend {n m : Node} : ∀ {k : Nat}, n.descend k = some m → k < n.size := by
  induction n with
  | leaf l =>
    intro k h
    cases k with
    | zero => exact Nat.one_pos
    | succ k =>
      simp only [descend] at h
      cases h
  | decorated d c ih =>
    intro k h
    cases k with
    | zero => exact size_pos _
    | succ k =>
      simp only [descend] at h
      exact Nat.succ_lt_succ (ih h)
  | sequence cs | selector cs | parallel threshold cs =>
    intro k h
    cases k with
    | zero => exact size_pos _
    | succ k =>
      simp only [descend] at h
      exact Nat.succ_lt_succ (lt_sizeAll_of_descendAll h)

@[simp] theorem descend_zero (n : Node) : n.descend 0 = some n := by
  cases n <;> simp only [descend]

theorem descendAll_of_lt {c : Node} (cs : List Node) {k : Nat} (h : k < c.size) :
    descendAll (c :: cs) k = c.descend k := by
  rw [descendAll, if_pos h]

theorem descendAll_of_le {c : Node} (cs : List Node) {k : Nat} (h : c.size ≤ k) :
    descendAll (c :: cs) k = descendAll cs (k - c.size) := by
  rw [descendAll, if_neg (by omega)]

/-- Below a node are its children. -/
theorem descend_succ (n : Node) (k : Nat) : n.descend (k + 1) = descendAll n.children k := by
  cases n with
  | leaf l => simp only [descend, children, descendAll]
  | decorated d c =>
    simp only [descend, children, descendAll]
    split
    · rfl
    · next hk =>
      cases h : c.descend k with
      | none => rfl
      | some m => exact absurd (lt_size_of_descend h) hk
  | sequence cs => simp only [descend, children]
  | selector cs => simp only [descend, children]
  | parallel threshold cs => simp only [descend, children]

/-- Induction on a tree, from the children of a node to the node, whatever kind it is of. -/
theorem children_induction {P : Node → Prop} (step : ∀ n : Node, (∀ c ∈ n.children, P c) → P n)
    (n : Node) : P n := by
  induction n with
  | leaf l => exact step (.leaf l) fun c hc => absurd hc List.not_mem_nil
  | sequence cs ih => exact step (.sequence cs) ih
  | selector cs ih => exact step (.selector cs) ih
  | decorated d c ih => exact step (.decorated d c) fun e he => List.mem_singleton.mp he ▸ ih
  | parallel threshold cs ih => exact step (.parallel threshold cs) ih

theorem add_size_le_of_descendAll {cs : List Node}
    (hcs : ∀ c ∈ cs, ∀ {k : Nat} {m : Node}, c.descend k = some m → k + m.size ≤ c.size) :
    ∀ {k : Nat} {m : Node}, descendAll cs k = some m → k + m.size ≤ sizeAll cs := by
  induction cs with
  | nil =>
    intro k m h
    have hlt := lt_sizeAll_of_descendAll h
    rw [sizeAll] at hlt
    omega
  | cons c cs ih =>
    intro k m h
    rw [sizeAll]
    by_cases hk : k < c.size
    · rw [descendAll_of_lt cs hk] at h
      have hc := hcs c List.mem_cons_self h
      omega
    · rw [descendAll_of_le cs (by omega)] at h
      have hrest := ih (fun d hd => hcs d (List.mem_cons_of_mem _ hd)) h
      omega

/-- The subtree of a node below lies within the subtree. -/
theorem add_size_le_of_descend (n : Node) :
    ∀ {k : Nat} {m : Node}, n.descend k = some m → k + m.size ≤ n.size := by
  induction n using children_induction with
  | step n ih =>
    intro k m h
    cases k with
    | zero =>
      rw [descend_zero] at h
      obtain rfl := Option.some.inj h
      exact Nat.le_of_eq (Nat.zero_add _)
    | succ k =>
      rw [descend_succ] at h
      have hbelow := add_size_le_of_descendAll ih h
      rw [size_eq_children n]
      omega

theorem descendAll_add {cs : List Node}
    (hcs : ∀ c ∈ cs, ∀ {k j : Nat} {m : Node}, c.descend k = some m → j < m.size →
      c.descend (k + j) = m.descend j) :
    ∀ {k j : Nat} {m : Node}, descendAll cs k = some m → j < m.size →
      descendAll cs (k + j) = m.descend j := by
  induction cs with
  | nil =>
    intro k j m h _
    simp only [descendAll] at h
    cases h
  | cons c cs ih =>
    intro k j m h hj
    by_cases hk : k < c.size
    · rw [descendAll_of_lt cs hk] at h
      have hin := c.add_size_le_of_descend h
      rw [descendAll_of_lt cs (by omega)]
      exact hcs c List.mem_cons_self h hj
    · rw [descendAll_of_le cs (by omega)] at h
      have hindex : k + j - c.size = k - c.size + j := by omega
      rw [descendAll_of_le cs (by omega), hindex]
      exact ih (fun d hd => hcs d (List.mem_cons_of_mem _ hd)) h hj

/-- What is below a node below is found from there. -/
theorem descend_add (n : Node) : ∀ {k j : Nat} {m : Node}, n.descend k = some m → j < m.size →
    n.descend (k + j) = m.descend j := by
  induction n using children_induction with
  | step n ih =>
    intro k j m h hj
    cases k with
    | zero =>
      rw [descend_zero] at h
      rw [Option.some.inj h, Nat.zero_add]
    | succ k =>
      rw [descend_succ] at h
      rw [Nat.add_right_comm, descend_succ]
      exact descendAll_add ih h hj

/-! ## Sizes -/

theorem sizes_eq_headed (n : Node) : n.sizes = headed (sizesAll n.children) := by
  cases n <;> simp only [sizes, children, sizesAll, List.append_nil]
  rfl

theorem length_sizesAll {cs : List Node} (hcs : ∀ c ∈ cs, c.sizes.length = c.size) :
    (sizesAll cs).length = sizeAll cs := by
  induction cs with
  | nil => rfl
  | cons c cs ih =>
    rw [sizesAll, sizeAll, List.length_append, hcs c List.mem_cons_self,
      ih fun d hd => hcs d (List.mem_cons_of_mem _ hd)]

theorem length_sizes (n : Node) : n.sizes.length = n.size := by
  induction n using children_induction with
  | step n ih =>
    rw [sizes_eq_headed, headed, List.length_cons, length_sizesAll ih, size_eq_children]

/-- The table of siblings has the size of each subtree. -/
theorem getElem?_sizesAll {cs : List Node}
    (hcs : ∀ c ∈ cs, ∀ k, c.sizes[k]? = (c.descend k).map size) :
    ∀ k, (sizesAll cs)[k]? = (descendAll cs k).map size := by
  induction cs with
  | nil =>
    intro k
    simp [sizesAll, descendAll]
  | cons c cs ih =>
    intro k
    have hlength := c.length_sizes
    rw [sizesAll, List.getElem?_append, hlength]
    by_cases hk : k < c.size
    · rw [if_pos hk, descendAll_of_lt cs hk, hcs c List.mem_cons_self]
    · rw [if_neg hk, descendAll_of_le cs (by omega)]
      exact ih (fun d hd => hcs d (List.mem_cons_of_mem _ hd)) _

/-- The table of sizes has the size of each subtree. -/
theorem getElem?_sizes (n : Node) : ∀ k, n.sizes[k]? = (n.descend k).map size := by
  induction n using children_induction with
  | step n ih =>
    intro k
    rw [sizes_eq_headed, headed]
    cases k with
    | zero =>
      have hlength : (sizesAll n.children).length = sizeAll n.children :=
        length_sizesAll fun c _ => c.length_sizes
      rw [List.getElem?_cons_zero, descend_zero, Option.map_some, hlength, size_eq_children]
    | succ k => rw [List.getElem?_cons_succ, descend_succ, getElem?_sizesAll ih]

/-- At each place of a subtree there is a node. -/
theorem exists_descend_of_lt {n : Node} {k : Nat} (hk : k < n.size) :
    ∃ m, n.descend k = some m := by
  have hsize := n.getElem?_sizes k
  rw [List.getElem?_eq_getElem (by rwa [length_sizes])] at hsize
  obtain ⟨m, hm, -⟩ := Option.map_eq_some_iff.mp hsize.symm
  exact ⟨m, hm⟩

/-- The addresses of siblings of which the first is at `first`. -/
def starts : Nat → List Node → List Nat
  | _, [] => []
  | first, c :: cs => first :: starts (first + c.size) cs

end Node

namespace BehaviorTree

variable {tree : BehaviorTree}

/-- The size that is noted is that of the subtree. -/
theorem subtreeSize_of_node? {id : NodeId} {n : Node} (h : tree.node? id = some n) :
    tree.subtreeSize id = n.size := by
  have hsize := tree.root.getElem?_sizes id
  rw [node?] at h
  rw [h, Option.map_some] at hsize
  rw [subtreeSize, List.getD_eq_getElem?_getD, hsize, Option.getD_some]

/-- Below a node are its children, wherever it lies in the tree. -/
theorem node?_below {id : NodeId} {n m : Node} {k : Nat} (h : tree.node? id = some n)
    (hk : Node.descendAll n.children k = some m) : tree.node? (id + 1 + k) = some m := by
  rw [← Node.descend_succ] at hk
  have hbelow := tree.root.descend_add h (Node.lt_size_of_descend hk)
  rw [node?, Nat.add_assoc, Nat.add_comm 1 k, hbelow, hk]

/-- Siblings that are in the tree, the first of them at `first`. -/
def HasSiblings (tree : BehaviorTree) (first : NodeId) (cs : List Node) : Prop :=
  ∀ k m, Node.descendAll cs k = some m → tree.node? (first + k) = some m

section Siblings

variable {id first : NodeId} {n c : Node} {cs : List Node}

/-- The children of a node are in the tree, and the first comes next to the node. -/
theorem hasSiblings_children (h : tree.node? id = some n) :
    tree.HasSiblings (id + 1) n.children :=
  fun _ _ hk => node?_below h hk

/-- The first sibling is where they start. -/
theorem HasSiblings.head (h : tree.HasSiblings first (c :: cs)) : tree.node? first = some c := by
  refine h 0 c ?_
  rw [Node.descendAll_of_lt cs c.size_pos, Node.descend_zero]

theorem HasSiblings.tail (h : tree.HasSiblings first (c :: cs)) :
    tree.HasSiblings (first + c.size) cs := by
  intro k m hk
  rw [Nat.add_assoc]
  refine h (c.size + k) m ?_
  rwa [Node.descendAll_of_le cs (Nat.le_add_right _ _), Nat.add_sub_cancel_left]

/-- The addresses by the table are those by the sizes of the siblings. -/
theorem HasSiblings.siblingIds_eq_starts (h : tree.HasSiblings first cs) :
    tree.siblingIds first cs = Node.starts first cs := by
  induction cs generalizing first with
  | nil => rfl
  | cons c cs ih => rw [siblingIds, Node.starts, subtreeSize_of_node? h.head, ih h.tail]

/-- The children of a node start where the subtrees of those before them end. -/
theorem childIds_of_node? (h : tree.node? id = some n) :
    tree.childIds id n = Node.starts (id + 1) n.children :=
  (hasSiblings_children h).siblingIds_eq_starts

end Siblings

end BehaviorTree

end Herd
