import Herd.Asset.Library
import Herd.Text.Lower

/-!
# The register of groups

Group definitions by label. Labels that fold to one word are one entry, and the
definition that came last stands.
-/

namespace Herd

/-- Group definitions under their folded labels. -/
structure Registry where
  groups : Table String GroupDefinition

namespace Registry

def empty : Registry := ⟨.empty⟩

instance : Inhabited Registry := ⟨empty⟩

/-- Enter a definition. -/
def insert (r : Registry) (g : GroupDefinition) : Registry :=
  ⟨r.groups.insert (Text.lowerWord g.label) g⟩

def get? (r : Registry) (label : String) : Option GroupDefinition :=
  r.groups.find? (Text.lowerWord label)

def contains (r : Registry) (label : String) : Bool := (r.get? label).isSome

def size (r : Registry) : Nat := r.groups.size

def isEmpty (r : Registry) : Bool := r.groups.isEmpty

/-- The labels as the definitions spell them, in the order of the folded labels. -/
def labels (r : Registry) : List String := r.groups.values.map (·.label)

/-- The definitions of a library, in the order of their ids. Sources that make no
definition are passed over. -/
def load (l : Library) : Registry :=
  (l.available .group).foldl (fun r id =>
    match l.group id.text with
    | .ok g => r.insert g
    | .error _ => r) empty

end Registry

end Herd
