import Herd.Json.Decoder
import Herd.Resource.Codec
import Herd.Tree.Address

/-!
# Behavior trees in JSON

A node is written as its constructor: leaves with their name or probability,
composites with the array of their children. The source of a tree is a record
with the root as its only field.
-/

namespace Herd

open Json (Value Decoder)

namespace Status

def name : Status → String
  | success => "Success"
  | failure => "Failure"
  | running => "Running"

def toJson (s : Status) : Value := .ofString s.name

def ofJson : Decoder Status :=
  .oneOf ([success, failure, running].map fun s => (s.name, s))

end Status

namespace Decorator

def toJson : Decorator → Value
  | inverter => .ofString "Inverter"
  | repeated count => .tagged "Repeat" (.ofNat count)
  | untilFail => .ofString "UntilFail"
  | timeout ticks => .tagged "Timeout" (.ofNat ticks)

def ofJson : Decoder Decorator := fun room v => do
  let t ← Decoder.tagged room v
  match t.name with
  | "Inverter" => if t.isPlain then some .inverter else none
  | "UntilFail" => if t.isPlain then some .untilFail else none
  | "Repeat" => (t.payload .natural).map .repeated
  | "Timeout" => (t.payload .natural).map .timeout
  | _ => none

end Decorator

namespace Leaf

def toJson : Leaf → Value
  | action name => .tagged "Action" (.ofString name)
  | condition name => .tagged "Condition" (.ofString name)
  | chance p => .tagged "Chance" (.ofReal p)

end Leaf

namespace Node

mutual

def toJson : Node → Value
  | leaf l => l.toJson
  | sequence cs => .tagged "Sequence" (.array (toJsonAll cs))
  | selector cs => .tagged "Selector" (.array (toJsonAll cs))
  | decorated d c => .tagged "Decorator" (.array [d.toJson, c.toJson])
  | parallel t cs => .tagged "Parallel" (.array [.ofNat t, .array (toJsonAll cs)])

def toJsonAll : List Node → List Value
  | [] => []
  | c :: cs => c.toJson :: toJsonAll cs

end

/-- Read a node. Each composite opens an object and the array of its children, so its
children have two levels less room. -/
def ofJson : Decoder Node
  | room + 1, .object [(⟨some "Action", _⟩, v)] =>
    (Decoder.text room v).map (leaf ∘ .action)
  | room + 1, .object [(⟨some "Condition", _⟩, v)] =>
    (Decoder.text room v).map (leaf ∘ .condition)
  | room + 1, .object [(⟨some "Chance", _⟩, v)] =>
    (Decoder.real room v).map (leaf ∘ .chance)
  | room + 2, .object [(⟨some "Sequence", _⟩, .array vs)] =>
    (vs.mapM (ofJson room)).map sequence
  | room + 2, .object [(⟨some "Selector", _⟩, .array vs)] =>
    (vs.mapM (ofJson room)).map selector
  | room + 2, .object [(⟨some "Decorator", _⟩, .array [d, v])] => do
    return decorated (← Decorator.ofJson room d) (← ofJson room v)
  -- the children's array stands inside the array of threshold and children
  | room + 3, .object [(⟨some "Parallel", _⟩, .array [t, .array vs])] => do
    return parallel (← Decoder.natural room t) (← vs.mapM (ofJson room))
  | _, _ => none

end Node

namespace BehaviorTree

/-- A tree from its source. -/
def parse (id : ResourceId) (source : String) : Except Fault BehaviorTree :=
  let root : Decoder Node := fun room v => do
    (← Decoder.fields ["root"] room v).required "root" Node.ofJson
  match root.run source with
  | some root => .ok ⟨id, root⟩
  | none => .error .malformedJson

end BehaviorTree

end Herd
