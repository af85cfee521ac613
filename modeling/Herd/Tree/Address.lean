import Herd.Resource.Id
import Herd.Tree.Node

/-!
# Behavior trees and the addresses of their nodes

A node is addressed by its place in the pre-order listing of its tree, so the
root has address 0 and the subtree at `i` takes the addresses from `i` up to
`i + subtreeSize i`. Addresses are stored nowhere: `sizes` tabulates the subtree
sizes, `childIds` adds them up along siblings, and `node?` descends by them.
-/

namespace Herd

/-- The place of a node in the pre-order listing of its tree. -/
abbrev NodeId := Nat

namespace NodeId

/-- The written form of an address. -/
def text (id : NodeId) : String := "node#" ++ toString id

end NodeId

namespace Node

/-- The table of a composite from the table of all below it. -/
def headed (below : List Nat) : List Nat := (below.length + 1) :: below

mutual

/-- The sizes of all subtrees, in pre-order. A subtree is as large as the table below its
root is long, and one more. -/
def sizes : Node → List Nat
  | leaf _ => [1]
  | sequence cs => headed (sizesAll cs)
  | selector cs => headed (sizesAll cs)
  | decorated _ c => headed c.sizes
  | parallel _ cs => headed (sizesAll cs)

/-- The sizes of all subtrees of siblings, in pre-order. -/
def sizesAll : List Node → List Nat
  | [] => []
  | c :: cs => c.sizes ++ sizesAll cs

end

mutual

/-- The node `i` places after this one in pre-order, within its subtree. -/
def descend : Node → Nat → Option Node
  | n, 0 => some n
  | leaf _, _ + 1 => none
  | sequence cs, i + 1 => descendAll cs i
  | selector cs, i + 1 => descendAll cs i
  | decorated _ c, i + 1 => c.descend i
  | parallel _ cs, i + 1 => descendAll cs i

/-- The node `i` places after the first sibling: step over the siblings whose subtrees end
before it. -/
def descendAll : List Node → Nat → Option Node
  | [], _ => none
  | c :: cs, i => if i < c.size then c.descend i else descendAll cs (i - c.size)

end

end Node

/-- A named tree. -/
structure BehaviorTree where
  id : ResourceId
  root : Node
deriving Inhabited

namespace BehaviorTree

/-- The number of nodes. -/
def size (t : BehaviorTree) : Nat := t.root.sizes.length

/-- The number of nodes in the subtree at `id`; none lie beyond the tree. -/
def subtreeSize (t : BehaviorTree) (id : NodeId) : Nat := t.root.sizes.getD id 0

/-- The addresses of siblings of which the first is at `id`. -/
def siblingIds (t : BehaviorTree) : NodeId → List Node → List NodeId
  | _, [] => []
  | id, _ :: rest => id :: t.siblingIds (id + t.subtreeSize id) rest

/-- The addresses of the children of `node`, which is at `id`. -/
def childIds (t : BehaviorTree) (id : NodeId) (node : Node) : List NodeId :=
  t.siblingIds (id + 1) node.children

/-- The node at an address. -/
def node? (t : BehaviorTree) (id : NodeId) : Option Node := t.root.descend id

/-- Whether two trees are the same asset, whatever they hold. -/
def sameAsset (a b : BehaviorTree) : Bool := a.id.same b.id

end BehaviorTree

end Herd
