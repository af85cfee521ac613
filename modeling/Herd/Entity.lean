/-!
# Entities

An entity is known by a number that its store hands out. Entities compare by
that number, so listings of them are in the order of their creation.
-/

namespace Herd

/-- A handle to an entity of a store. -/
structure EntityId where
  raw : Nat
deriving DecidableEq, Inhabited

namespace EntityId

/-- The written form of a handle. -/
def text (e : EntityId) : String := "entity#" ++ toString e.raw

instance : Ord EntityId := ⟨fun a b => compare a.raw b.raw⟩

instance : Std.TransOrd EntityId := inferInstanceAs (Std.TransCmp (compareOn raw))

instance : Std.LawfulEqOrd EntityId where
  eq_of_compare {a b} h := by
    cases a; cases b
    exact congrArg EntityId.mk (Std.LawfulEqOrd.eq_of_compare h)

end EntityId

end Herd
