import Herd.Fault
import Herd.Text.Lower

/-!
# Resource ids

A resource is named `module:name`, or by a bare `name`. Ids are compared without
regard to the case of ASCII letters: two ids with one `key` are the same
resource, whatever their spelling, and ids are ordered by their keys. As a query
an id also matches resources of other modules when one of the two names none.

`parse` accepts exactly the texts that `text` writes for ids with non-empty parts
that are free of colons.
-/

namespace Herd

/-- The name of a resource, as it was spelled. -/
structure ResourceId where
  module : Option String
  name : String
deriving DecidableEq, Inhabited

namespace ResourceId

/-- Read an id. A colon separates module and name, and both must be there; without a
colon the whole text is the name. -/
def parse (text : String) : Except Fault ResourceId :=
  let chars := text.toList
  let before := chars.takeWhile (· ≠ ':')
  match chars.dropWhile (· ≠ ':') with
  | [] => if before = [] then .error (.invalidResourceId text) else .ok ⟨none, text⟩
  | _ :: after =>
    if before = [] ∨ after = [] ∨ ':' ∈ after then .error (.invalidResourceId text)
    else .ok ⟨some (String.ofList before), String.ofList after⟩

/-- The written form of an id. -/
def text (id : ResourceId) : String :=
  match id.module with
  | some m => m ++ ":" ++ id.name
  | none => id.name

/-! ## Comparison -/

/-- What ids are compared by: module and name with ASCII letters in lower case. -/
structure Key where
  module : Option String
  name : String
deriving DecidableEq, Inhabited

/-- Keys without a module come first, then the order is that of the modules, then of the
names. -/
instance : Ord Key := ⟨compareLex (compareOn Key.module) (compareOn Key.name)⟩

instance : Std.TransOrd Key :=
  inferInstanceAs (Std.TransCmp (compareLex (compareOn Key.module) (compareOn Key.name)))

instance : Std.LawfulEqOrd Key where
  eq_of_compare {a b} h := by
    have h : (compare a.module b.module).then (compare a.name b.name) = .eq := h
    rw [Ordering.then_eq_eq] at h
    cases a; cases b
    simp only [Key.mk.injEq]
    exact ⟨Std.LawfulEqOrd.eq_of_compare h.1, Std.LawfulEqOrd.eq_of_compare h.2⟩

def key (id : ResourceId) : Key := ⟨id.module.map Text.lowerAscii, Text.lowerAscii id.name⟩

/-- Whether two ids name the same resource. -/
def same (a b : ResourceId) : Bool := a.key == b.key

/-- The order of ids. -/
def order (a b : ResourceId) : Ordering := compare a.key b.key

/-- Whether `query` designates `candidate`: the names are the same, and so are the modules
where both name one. -/
def designates (query candidate : ResourceId) : Bool :=
  query.key.name == candidate.key.name &&
    match query.key.module, candidate.key.module with
    | some a, some b => a == b
    | _, _ => true

end ResourceId

end Herd
