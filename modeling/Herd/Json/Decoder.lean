import Herd.Json.Reader

/-!
# Decoding JSON values

Decoders turn JSON values into domain values. A decoder fails or succeeds, and
gives no reason. What it opens counts: at most 127 arrays and objects may be open
at once, and `room` says how many more. Values under keys that nobody asks for
are not opened, so they may be as deep as they like.

A record is an object with its fields by name, or an array with its fields in
order. A constructor is its name, or an object with its name as the only key.
-/

namespace Herd.Json

/-- Reads a value in which `room` more arrays and objects may be opened. -/
abbrev Decoder (α : Type) := (room : Nat) → Value → Option α

namespace Decoder

/-- How many arrays and objects may be open at once. -/
def depthLimit : Nat := 127

/-- Read and decode a text. -/
def run {α : Type} (d : Decoder α) (source : String) : Option α :=
  (Value.parse? source).bind (d depthLimit)

def text : Decoder String
  | _, .string s => s
  | _, _ => none

def bool : Decoder Bool
  | _, .bool b => some b
  | _, _ => none

/-- A natural number: no sign, no point, no exponent. -/
def natural : Decoder Nat
  | _, .number (some (.integer (.ofNat n))) => some n
  | _, _ => none

/-- Any number, as a binary64 number. -/
def real : Decoder Float
  | _, .number (some n) => some n.toFloat
  | _, _ => none

/-- Any number, as a binary32 number. -/
def real32 : Decoder Float32
  | _, .number (some n) => some n.toFloat32
  | _, _ => none

/-- A value, or null. -/
def nullable {α : Type} (d : Decoder α) : Decoder (Option α)
  | _, .null => some none
  | room, v => (d room v).map some

/-- An array of values of one kind. -/
def list {α : Type} (d : Decoder α) : Decoder (List α)
  | room + 1, .array vs => vs.mapM (d room)
  | _, _ => none

/-- An array of exactly two values. -/
def pair {α β : Type} (d : Decoder α) (e : Decoder β) : Decoder (α × β)
  | room + 1, .array [v, w] => do return (← d room v, ← e room w)
  | _, _ => none

/-- The members of an object, with their keys and values decoded. -/
def members {κ α : Type} (key : Key → Option κ) (d : Decoder α) : Decoder (List (κ × α))
  | room + 1, .object ms => ms.mapM fun m => do return (← key m.1, ← d room m.2)
  | _, _ => none

/-- A natural number below 2^64 as a key is written with plain digits. -/
def naturalKey (k : Key) : Option Nat :=
  if k.escaped then none
  else
    match Number.literal? (k.text.getD "").toList with
    | some (l, []) =>
      match l.value with
      | some (.integer (.ofNat n)) => some n
      | _ => none
    | _ => none

/-! ## Constructors -/

/-- A constructor's name, and its argument with the room left for it if there is one. -/
structure Tagged where
  name : String
  argument : Option (Nat × Value)

/-- A constructor. -/
def tagged : Decoder Tagged
  | _, .string (some name) => some ⟨name, none⟩
  | room + 1, .object [(⟨some name, _⟩, v)] => some ⟨name, some (room, v)⟩
  | _, _ => none

/-- Decode the argument of a constructor that has one. -/
def Tagged.payload {α : Type} (t : Tagged) (d : Decoder α) : Option α :=
  t.argument.bind fun (room, v) => d room v

/-- Whether the constructor stands without an argument, or with null for it. -/
def Tagged.isPlain (t : Tagged) : Bool :=
  match t.argument with
  | none | some (_, .null) => true
  | _ => false

/-- One of a list of constructors without arguments. -/
def oneOf {α : Type} (cases : List (String × α)) : Decoder α := fun room v => do
  let t ← tagged room v
  if t.isPlain then cases.lookup t.name else none

/-! ## Records -/

/-- The fields of a record, as far as they are there. -/
structure Fields where
  /-- Room for what the fields open. -/
  room : Nat
  /-- Whether the record is written as an array. -/
  positional : Bool
  slots : List (String × Option Value)

/-- A record with the given fields. An object may have other members besides, but no field
twice; an array has no more elements than there are fields. -/
def fields (names : List String) : Decoder Fields
  | room + 1, .array vs =>
    if vs.length ≤ names.length then
      some ⟨room, true, names.zip (vs.map some ++ List.replicate (names.length - vs.length) none)⟩
    else none
  | room + 1, .object ms =>
    -- a key that denotes no text could be any field, so it is refused
    let readable := ms.all (·.1.text.isSome)
    let once := names.all fun n => ms.countP (·.1.text == some n) ≤ 1
    if readable && once then
      some ⟨room, false, names.map fun n => (n, (ms.find? (·.1.text == some n)).map (·.2))⟩
    else none
  | _, _ => none

namespace Fields

variable {α : Type}

/-- The value of a field. -/
def slot (f : Fields) (name : String) : Option Value := (f.slots.lookup name).bind id

/-- A field that has to be there. -/
def required (f : Fields) (name : String) (d : Decoder α) : Option α :=
  (f.slot name).bind (d f.room)

/-- A field that may be null, and may be missing from an object. -/
def optional (f : Fields) (name : String) (d : Decoder α) : Option (Option α) :=
  match f.slot name with
  | some v => nullable d f.room v
  | none => if f.positional then none else some none

/-- A field with a value to fall back on. -/
def defaulted (f : Fields) (name : String) (fallback : α) (d : Decoder α) : Option α :=
  match f.slot name with
  | some v => d f.room v
  | none => some fallback

end Fields

end Decoder

end Herd.Json
