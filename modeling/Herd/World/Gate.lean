import Herd.World.Population

/-!
# Gates before a population

A gate decides about each save and removal before the population does. `Rations`
admit a number of writes of a kind; a `Ban` refuses a fixed set of writes.
Creation and destruction pass every gate.
-/

namespace Herd

/-- Decides about writes, and may change with each. -/
class Gate (γ : Type) where
  /-- The reason to refuse a write to a kind of component of an entity, if it is refused. -/
  judge : EntityId → ComponentKind → γ → Option String × γ

/-- A population behind a gate. -/
structure Gated (γ : Type) where
  population : Population
  gate : γ

instance {γ : Type} [Gate γ] : EntityStore (Gated γ) where
  create name s :=
    match EntityStore.create name s.population with
    | (id, population) => (id, { s with population })
  entitiesWith kind s := EntityStore.entitiesWith kind s.population
  get? entity kind s := EntityStore.get? entity kind s.population
  save entity kind c s :=
    match Gate.judge entity kind s.gate with
    | (some reason, gate) => (.error (.rejected entity reason), { s with gate })
    | (none, gate) =>
      match EntityStore.save entity kind c s.population with
      | (result, population) => (result, ⟨population, gate⟩)
  remove entity kind s :=
    match Gate.judge entity kind s.gate with
    | (some reason, gate) => (.error (.rejected entity reason), { s with gate })
    | (none, gate) =>
      match EntityStore.remove entity kind s.population with
      | (result, population) => (result, ⟨population, gate⟩)
  destroy entity s :=
    match EntityStore.destroy entity s.population with
    | (found, population) => (found, { s with population })

/-! ## Rations -/

/-- How many writes of a kind are still admitted. -/
structure Ration where
  kind : ComponentKind
  left : Nat

/-- A list of rations. A write uses up each ration of its kind in turn, and is refused at
the first that is used up already. -/
abbrev Rations := List Ration

namespace Rations

/-- Why a write of a kind is refused. -/
def reason (kind : ComponentKind) : String := kind.name ++ " writes disabled"

def judge (kind : ComponentKind) : Rations → Option String × Rations
  | [] => (none, [])
  | r :: rest =>
    if r.kind = kind then
      match r.left with
      | 0 => (some (reason kind), r :: rest)
      | left + 1 =>
        match judge kind rest with
        | (verdict, rest) => (verdict, { r with left } :: rest)
    else
      match judge kind rest with
      | (verdict, rest) => (verdict, r :: rest)

end Rations

instance : Gate Rations where
  judge _ kind rations := rations.judge kind

/-! ## Bans -/

/-- A fixed set of refused writes. -/
structure Ban where
  refuses : EntityId → ComponentKind → Bool

instance : Gate Ban where
  judge entity kind ban := (if ban.refuses entity kind then some (Rations.reason kind) else none, ban)

end Herd
