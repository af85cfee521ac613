import Herd.Json.Decoder
import Herd.Fault
import Herd.Text.Blank

/-!
# Group definitions

A group definition is an asset that gives the label of a group and, if it likes,
the tree the group is expected to run. A blank label makes no definition.
-/

namespace Herd

structure GroupDefinition where
  label : String
  behavior : Option String
deriving DecidableEq, Inhabited

namespace GroupDefinition

open Json (Value Decoder)

def toJson (g : GroupDefinition) : Value :=
  .ofMembers [("groupLabel", .ofString g.label), ("behavior", .ofOption .ofString g.behavior)]

/-- A definition as reports show it. -/
def view (g : GroupDefinition) : Value :=
  .ofMembers [("group_label", .ofString g.label), ("behavior", .ofOption .ofString g.behavior)]

/-- Read a definition, whatever its label. -/
def ofJson : Decoder GroupDefinition := fun room v => do
  let f ← Decoder.fields ["groupLabel", "behavior"] room v
  return ⟨← f.required "groupLabel" .text, ← f.defaulted "behavior" none (.nullable .text)⟩

/-- A definition from its source. -/
def parse (source : String) : Except Fault GroupDefinition :=
  match ofJson.run source with
  | none => .error .malformedJson
  | some g =>
    if Text.isBlankText g.label then .error (.invalidSettings "group asset has an empty label")
    else .ok g

end GroupDefinition

end Herd
