import Herd.Asset.Registry
import Herd.Group.Report
import Herd.Settings
import Herd.World.Store

/-!
# Coordinators

A coordinator puts group operations to work on a store of entities, with a
library of assets and with settings. It reads the group definitions of the
library once, when it is set up.
-/

namespace Herd

/-- A store with what group operations need besides. -/
structure Coordinator (σ : Type) where
  store : σ
  library : Library
  settings : Settings
  registry : Registry
  /-- How many collective records were created; the next one takes this as its identity. -/
  recordCount : Nat

namespace Coordinator

variable {σ : Type}

/-- Set up a coordinator. -/
def create (store : σ) (library : Library) (settings : Settings) : Except Fault (Coordinator σ) :=
  match settings.validate with
  | .ok () => .ok ⟨store, library, settings, .load library, 0⟩
  | .error fault => .error fault

/-- Set the coordinator up again with other settings and another library, over the same
store. -/
def reconfigure (c : Coordinator σ) (library : Library) (settings : Settings) :
    Except Fault (Coordinator σ) :=
  match settings.validate with
  | .ok () => .ok { c with library, settings, registry := .load library }
  | .error fault => .error fault

/-- A fresh identity for a collective record. -/
def freshRecord (c : Coordinator σ) : Nat × Coordinator σ :=
  (c.recordCount, { c with recordCount := c.recordCount + 1 })

variable [EntityStore σ]

/-- The members of a group at this moment. -/
def members (c : Coordinator σ) (label : String) : List EntityId := membersOf label c.store

/-- The hivemind that an entity carries. -/
def hivemind? (c : Coordinator σ) (entity : EntityId) : Option Hivemind :=
  EntityStore.get? entity .hivemind c.store

/-- The definition of a group asset. -/
def describeGroup (c : Coordinator σ) (name : String) : Except Fault GroupDefinition :=
  c.library.group name

end Coordinator

end Herd
