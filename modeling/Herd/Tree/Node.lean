/-!
# Behavior tree nodes

A tree is built of leaves, which act on an actor, and of composites, which decide
which of their children run. Nodes hold no run state: one tree serves any number
of runs at once.
-/

namespace Herd

/-- What a node answers in a tick. -/
inductive Status
  | success
  | failure
  | running
deriving DecidableEq, Inhabited

namespace Status

/-- A node that succeeded or failed is done. -/
def isDone : Status → Bool
  | running => false
  | _ => true

/-- Success and failure trade places. -/
def inverted : Status → Status
  | success => failure
  | failure => success
  | running => running

/-- The answer of a leaf that is a plain question. -/
def ofBool (passed : Bool) : Status := if passed then success else failure

end Status

/-- A node that is evaluated against an actor. -/
inductive Leaf
  /-- Execute the named action. -/
  | action (name : String)
  /-- Ask the named condition. -/
  | condition (name : String)
  /-- Succeed with the given probability, rolled for each actor. -/
  | chance (probability : Float)
deriving DecidableEq

/-- What a decorator makes of its child. -/
inductive Decorator
  /-- Success and failure trade places. -/
  | inverter
  /-- Run the child until it has succeeded this often. -/
  | repeated (count : Nat)
  /-- Run the child once a tick until it fails. -/
  | untilFail
  /-- Fail once the child was given this many ticks and is not done. -/
  | timeout (ticks : Nat)
deriving DecidableEq

/-- A node and all below it. -/
inductive Node
  | leaf (leaf : Leaf)
  /-- Run the children in order up to the first that does not succeed. -/
  | sequence (children : List Node)
  /-- Run the children in order up to the first that does not fail. -/
  | selector (children : List Node)
  /-- Run one child under a decorator. -/
  | decorated (decorator : Decorator) (child : Node)
  /-- Run all children, and succeed once `threshold` of them have. -/
  | parallel (threshold : Nat) (children : List Node)
deriving Inhabited

namespace Leaf

/-- The short name of the kind of leaf. -/
def kind : Leaf → String
  | action _ => "action"
  | condition _ => "condition"
  | chance _ => "chance"

/-- Equality of leaves, where probabilities are compared as numbers: zero equals negative
zero. -/
def alike : Leaf → Leaf → Bool
  | action a, action b => a == b
  | condition a, condition b => a == b
  | chance p, chance q => p == q
  | _, _ => false

end Leaf

namespace Node

/-- The children, in the order in which they run. -/
def children : Node → List Node
  | leaf _ => []
  | sequence cs | selector cs | parallel _ cs => cs
  | decorated _ c => [c]

def isLeaf : Node → Bool
  | leaf _ => true
  | _ => false

/-- The short name of the kind of node. -/
def kind : Node → String
  | leaf l => l.kind
  | sequence _ => "sequence"
  | selector _ => "selector"
  | decorated _ _ => "decorator"
  | parallel _ _ => "parallel"

mutual

/-- The number of nodes. -/
def size : Node → Nat
  | leaf _ => 1
  | sequence cs => sizeAll cs + 1
  | selector cs => sizeAll cs + 1
  | decorated _ c => c.size + 1
  | parallel _ cs => sizeAll cs + 1

/-- The number of nodes of a list of siblings. -/
def sizeAll : List Node → Nat
  | [] => 0
  | c :: cs => c.size + sizeAll cs

end

mutual

/-- Equality of nodes by shape and leaves. -/
def alike : Node → Node → Bool
  | leaf a, leaf b => a.alike b
  | sequence cs, sequence ds => alikeAll cs ds
  | selector cs, selector ds => alikeAll cs ds
  | decorated d c, decorated e b => d == e && c.alike b
  | parallel t cs, parallel u ds => t == u && alikeAll cs ds
  | _, _ => false

/-- Equality of siblings, one by one. -/
def alikeAll : List Node → List Node → Bool
  | [], [] => true
  | c :: cs, d :: ds => c.alike d && alikeAll cs ds
  | _, _ => false

end

/-- Induction on a tree, where what is known of the children of a node is known of each. -/
@[elab_as_elim, induction_eliminator]
theorem induction {P : Node → Prop} (leaf : ∀ l, P (.leaf l))
    (sequence : ∀ cs, (∀ c ∈ cs, P c) → P (.sequence cs))
    (selector : ∀ cs, (∀ c ∈ cs, P c) → P (.selector cs))
    (decorated : ∀ d c, P c → P (.decorated d c))
    (parallel : ∀ threshold cs, (∀ c ∈ cs, P c) → P (.parallel threshold cs)) (n : Node) : P n :=
  @Node.rec P (fun cs => ∀ c ∈ cs, P c) leaf sequence selector decorated parallel
    (fun _ h => absurd h List.not_mem_nil)
    (fun _ _ hc hcs => List.forall_mem_cons.mpr ⟨hc, hcs⟩) n

theorem size_eq_children (n : Node) : n.size = sizeAll n.children + 1 := by
  cases n <;> simp [size, children, sizeAll]

theorem size_pos (n : Node) : 0 < n.size := by
  rw [size_eq_children]; omega

end Node

end Herd
