import Herd.Resource.Codec

/-!
# Skins

A skin is a material that a mesh can show; all that matters of it is its id.
-/

namespace Herd

structure Skin where
  id : ResourceId
deriving DecidableEq

namespace Skin

open Json (Value Decoder)

def toJson (s : Skin) : Value := .ofMembers [("id", s.id.toJson)]

def ofJson : Decoder Skin := fun room v => do
  let f ← Decoder.fields ["id"] room v
  return ⟨← f.required "id" ResourceId.ofJson⟩

end Skin

end Herd
