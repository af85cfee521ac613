import Herd.Json.Decoder
import Herd.Resource.Id

/-!
# Resource ids in JSON

An id is written as its text.
-/

namespace Herd.ResourceId

open Json (Value Decoder)

def toJson (id : ResourceId) : Value := .ofString id.text

def ofJson : Decoder ResourceId := fun room v =>
  (Decoder.text room v).bind fun s => (parse s).toOption

end Herd.ResourceId
