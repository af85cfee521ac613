import Herd.Asset.GroupDefinition
import Herd.Asset.Skin
import Herd.Table
import Herd.Tree.Codec

/-!
# Asset libraries

A library holds trees, sources of group definitions, and skins, each under its
id. Assets are looked up by a written id: the first that it designates, in the
order of ids, is the answer, so a bare name finds the asset of that name with no
module or with the least one.
-/

namespace Herd

/-- The kinds of assets. -/
inductive AssetKind
  | behaviorTree
  | group
  | material
deriving DecidableEq, Inhabited

namespace AssetKind

open Json (Value Decoder)

def name : AssetKind → String
  | behaviorTree => "BehaviorTree"
  | group => "Group"
  | material => "Material"

def toJson (k : AssetKind) : Value := .ofString k.name

def ofJson : Decoder AssetKind :=
  .oneOf ([behaviorTree, group, material].map fun k => (k.name, k))

end AssetKind

/-- Assets of one kind, each with the id it was first registered under. -/
abbrev Shelf (α : Type) := Table ResourceId.Key (ResourceId × α)

namespace Shelf

variable {α : Type}

/-- Register an asset. Under an id that is taken the asset is replaced, and the spelling of
the id stays. -/
def register (shelf : Shelf α) (id : ResourceId) (asset : α) : Shelf α :=
  match shelf.find? id.key with
  | some (spelled, _) => shelf.insert id.key (spelled, asset)
  | none => shelf.insert id.key (id, asset)

/-- The first asset that an id designates. -/
def findFirst? (shelf : Shelf α) (query : ResourceId) : Option α :=
  (shelf.values.find? fun e => query.designates e.1).map (·.2)

/-- The first asset that a written id designates; what is no id designates nothing. -/
def lookup (shelf : Shelf α) (name : String) : Option α :=
  match ResourceId.parse name with
  | .ok query => shelf.findFirst? query
  | .error _ => none

/-- The ids of the assets, in order. -/
def ids (shelf : Shelf α) : List ResourceId := shelf.values.map (·.1)

end Shelf

/-- Trees, sources of group definitions, and skins. -/
structure Library where
  trees : Shelf BehaviorTree
  groups : Shelf String
  skins : Shelf Skin

namespace Library

def empty : Library := ⟨.empty, .empty, .empty⟩

instance : Inhabited Library := ⟨empty⟩

/-- Register a tree under its own id. -/
def addTree (l : Library) (tree : BehaviorTree) : Library :=
  { l with trees := l.trees.register tree.id tree }

/-- Register the source of a group definition; it is read when it is looked up. -/
def addGroup (l : Library) (id : ResourceId) (source : String) : Library :=
  { l with groups := l.groups.register id source }

def addSkin (l : Library) (id : ResourceId) : Library :=
  { l with skins := l.skins.register id ⟨id⟩ }

def tree? (l : Library) (name : String) : Option BehaviorTree := l.trees.lookup name

def skin? (l : Library) (name : String) : Option Skin := l.skins.lookup name

/-- The tree of a name. -/
def tree (l : Library) (name : String) : Except Fault BehaviorTree :=
  match l.tree? name with
  | some tree => .ok tree
  | none => .error (.resourceNotFound name)

/-- The group definition of a name. -/
def group (l : Library) (name : String) : Except Fault GroupDefinition :=
  match l.groups.lookup name with
  | some source => GroupDefinition.parse source
  | none => .error (.resourceNotFound name)

/-- The ids of all assets of a kind, in order. -/
def available (l : Library) : AssetKind → List ResourceId
  | .behaviorTree => l.trees.ids
  | .group => l.groups.ids
  | .material => l.skins.ids

end Library

end Herd
