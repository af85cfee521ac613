import Mathlib.Data.List.Pairwise
import Herd.Proofs.Asset.Library

/-!
# Resolution by ids

What a library answers is settled by the ids of its assets. Two registrations that follow
one another can change places, unless their ids are the same and so are their kinds
(`add_swap`); so a library in which no id is taken twice is the same in whatever order its
assets were registered (`ofAdditions_perm`). A query is compared by its key, so the case of
its letters is no matter (`Shelf.lookup_spelled`), and one that names a module finds an
asset of this module or of none (`keepsToModule_lookup`).
-/

namespace Herd

/-- The id names no module but `m`, in any spelling. -/
def ResourceId.Within (id : ResourceId) (m : String) : Prop :=
  ∀ m' ∈ id.module, Text.lowerAscii m' = Text.lowerAscii m

/-- An id lies within a module if it names none or that one. -/
theorem ResourceId.within_iff {id : ResourceId} {m : String} : id.Within m ↔
    id.key.module = none ∨ id.key.module = some (Text.lowerAscii m) := by
  obtain ⟨_ | m', n⟩ := id <;> simp [ResourceId.Within, ResourceId.key]

namespace Library

open Herd.Shelf (lastUnder ofRegistrations)

/-! ## The order of registrations -/

/-- The kind of the asset that is registered. -/
def Addition.kind : Addition → AssetKind
  | tree _ => .behaviorTree
  | group _ _ => .group
  | skin _ => .material

/-- The assets are of different kinds, or their ids are not the same. -/
def Addition.Apart (a b : Addition) : Prop := a.kind = b.kind → a.id.same b.id = false

instance (a b : Addition) : Decidable (a.Apart b) :=
  inferInstanceAs (Decidable (a.kind = b.kind → a.id.same b.id = false))

/-- Two additions are apart if they do not compete for one place on one shelf. -/
theorem Addition.apart_iff {a b : Addition} :
    a.Apart b ↔ (a.kind = b.kind → a.id.key ≠ b.id.key) := by
  rw [Addition.Apart, ResourceId.same, beq_eq_false_iff_ne]

instance : Std.Symm Addition.Apart where
  symm a b h := by
    rw [Addition.apart_iff] at h ⊢
    exact fun hkind => (h hkind.symm).symm

/-- Registrations that are apart can be made in either order. -/
theorem add_swap (l : Library) {a b : Addition} (h : a.Apart b) :
    (l.add a).add b = (l.add b).add a := by
  have hkey := Addition.apart_iff.mp h
  cases a with
  | tree t =>
    cases b with
    | tree t' =>
      exact congrArg (fun s => { l with trees := s }) (l.trees.register_comm (hkey rfl) t t')
    | group _ _ => rfl
    | skin _ => rfl
  | group id source =>
    cases b with
    | tree _ => rfl
    | group id' source' =>
      exact congrArg (fun s => { l with groups := s })
        (l.groups.register_comm (hkey rfl) source source')
    | skin _ => rfl
  | skin id =>
    cases b with
    | tree _ => rfl
    | group _ _ => rfl
    | skin id' =>
      exact congrArg (fun s => { l with skins := s }) (l.skins.register_comm (hkey rfl) ⟨id⟩ ⟨id'⟩)

/-- **The order of registrations is no matter** where no id is taken twice for one kind. -/
theorem ofAdditions_perm {as bs : List Addition} (hperm : as.Perm bs)
    (hapart : as.Pairwise Addition.Apart) : ofAdditions as = ofAdditions bs := by
  refine hperm.foldl_eq' (fun a ha b hb l => ?_) empty
  by_cases hab : a = b
  · rw [hab]
  · exact add_swap l (hapart.forall ha hb hab)

/-! ## Queries that name a module -/

/-- What a query that names a module finds was registered under an id that names no other. -/
theorem exists_within_of_findFirst? {α : Type} {regs : List (ResourceId × α)} {m n : String}
    {asset : α} (h : (ofRegistrations regs).findFirst? ⟨some m, n⟩ = some asset) :
    ∃ id ∈ regs.map (·.1), id.Within m ∧ lastUnder id.key regs = some asset := by
  have hquery : (⟨some m, n⟩ : ResourceId).key.module = some (Text.lowerAscii m) := rfl
  rw [Shelf.findFirst?_ofRegistrations regs (.inl (hquery ▸ Option.some_ne_none _))] at h
  have hkey : ∃ k : ResourceId.Key, (k.module = none ∨ k.module = some (Text.lowerAscii m)) ∧
      lastUnder k regs = some asset := by
    rcases Option.or_eq_some_iff.mp h with hbare | ⟨-, hown⟩
    · exact ⟨_, .inl rfl, hbare⟩
    · exact ⟨_, .inr hquery, hown⟩
  obtain ⟨k, hmodule, hlast⟩ := hkey
  obtain ⟨r, hr, rfl⟩ := Shelf.isSome_lastUnder.mp (Option.isSome_iff_exists.mpr ⟨asset, hlast⟩)
  exact ⟨r.1, List.mem_map_of_mem hr, ResourceId.within_iff.mpr hmodule, hlast⟩

/-- A text that names a module finds nothing, or what was last registered under an id that names no
other module. -/
def KeepsToModule {α : Type} (regs : List (ResourceId × α)) (missing : String → Prop)
    (answers : String → α → Prop) : Prop :=
  ∀ s m n : String, ResourceId.parse s = .ok ⟨some m, n⟩ → missing s ∨
    ∃ id ∈ regs.map (·.1), id.Within m ∧
      ∃ asset, lastUnder id.key regs = some asset ∧ answers s asset

/-- A look-up does not cross into another module. -/
theorem keepsToModule_lookup {α : Type} (regs : List (ResourceId × α)) :
    KeepsToModule regs (fun s => (ofRegistrations regs).lookup s = none)
      fun s asset => (ofRegistrations regs).lookup s = some asset := by
  intro s m n hs
  cases hfound : (ofRegistrations regs).lookup s with
  | none => exact .inl hfound
  | some asset =>
    have hfirst := hfound
    rw [Shelf.lookup, hs] at hfirst
    obtain ⟨id, hid, hwithin, hlast⟩ := exists_within_of_findFirst? hfirst
    exact .inr ⟨id, hid, hwithin, asset, hlast, hfound⟩

theorem keepsToModule_group (as : List Addition) :
    KeepsToModule (as.filterMap Addition.group?)
      (fun s => (ofAdditions as).group s = .error (.resourceNotFound s))
      fun s source => (ofAdditions as).group s = GroupDefinition.parse source := by
  intro s m n hs
  rcases keepsToModule_lookup (as.filterMap Addition.group?) s m n hs with
    hnone | ⟨id, hid, hwithin, source, hlast, hfound⟩
  · left
    simp only [group, groups_ofAdditions, hnone]
  · refine .inr ⟨id, hid, hwithin, source, hlast, ?_⟩
    simp only [group, groups_ofAdditions, hfound]

/-! ## Resolution -/

/-- **Assets are resolved by their ids alone.** Where no id is taken twice for one kind, a library
whose assets were registered in another order answers every query alike, lists the same ids and
loads the same register of groups. In every library, queries that differ in the case of ASCII
letters find the same tree and the same skin, and a query that names a module never finds an asset
that is registered under another. -/
theorem resolved_by_ids (as bs : List Addition) :
    (as.Perm bs → as.Pairwise Addition.Apart →
      (∀ s, (ofAdditions as).tree? s = (ofAdditions bs).tree? s ∧
        (ofAdditions as).group s = (ofAdditions bs).group s ∧
        (ofAdditions as).skin? s = (ofAdditions bs).skin? s) ∧
      (∀ kind, (ofAdditions as).available kind = (ofAdditions bs).available kind) ∧
      Registry.load (ofAdditions as) = Registry.load (ofAdditions bs)) ∧
    (∀ s t, Text.lowerAscii s = Text.lowerAscii t →
      (ofAdditions as).tree? s = (ofAdditions as).tree? t ∧
      (ofAdditions as).skin? s = (ofAdditions as).skin? t) ∧
    KeepsToModule (as.filterMap Addition.tree?) (fun s => (ofAdditions as).tree? s = none)
      (fun s t => (ofAdditions as).tree? s = some t) ∧
    KeepsToModule (as.filterMap Addition.group?)
      (fun s => (ofAdditions as).group s = .error (.resourceNotFound s))
      (fun s source => (ofAdditions as).group s = GroupDefinition.parse source) ∧
    KeepsToModule (as.filterMap Addition.skin?) (fun s => (ofAdditions as).skin? s = none)
      (fun s skin => (ofAdditions as).skin? s = some skin) := by
  refine ⟨fun hperm hapart => ?_, fun s t h => ?_, ?_, keepsToModule_group as, ?_⟩
  · rw [ofAdditions_perm hperm hapart]
    exact ⟨fun s => ⟨rfl, rfl, rfl⟩, fun kind => rfl, rfl⟩
  · exact ⟨Shelf.lookup_spelled _ h, Shelf.lookup_spelled _ h⟩
  · simpa only [tree?, trees_ofAdditions] using keepsToModule_lookup (as.filterMap Addition.tree?)
  · simpa only [skin?, skins_ofAdditions] using keepsToModule_lookup (as.filterMap Addition.skin?)

/-- Two trees of one name, and a skin of that name. -/
def twoCritters : List Addition :=
  [.tree ⟨⟨some "Engine", "critter"⟩, .leaf (.action "graze")⟩, .skin ⟨none, "critter"⟩,
    .tree ⟨⟨some "Behaviors", "critter"⟩, .leaf (.action "wander")⟩]

/-- The name finds one tree in either order of registration and in either spelling, and with a
module before it the tree of that module. -/
theorem twoCritters_resolved :
    (ofAdditions twoCritters).tree? "critter" = (ofAdditions twoCritters.reverse).tree? "critter" ∧
      (ofAdditions twoCritters).tree? "CRITTER" = (ofAdditions twoCritters).tree? "critter" ∧
      ((ofAdditions twoCritters).tree? "engine:critter").map (·.id.text) =
        some "Engine:critter" := by
  obtain ⟨horder, hspelling, htrees, -, -⟩ := resolved_by_ids twoCritters twoCritters.reverse
  obtain ⟨hanswers, -, -⟩ := horder twoCritters.reverse_perm.symm (by decide)
  refine ⟨(hanswers "critter").1, (hspelling "CRITTER" "critter" (by decide)).1, ?_⟩
  rcases htrees "engine:critter" "engine" "critter" rfl with
    hmissing | ⟨id, hid, hwithin, t, hlast, hfound⟩
  · have hsome : ((ofAdditions twoCritters).tree? "engine:critter").isSome = true := by
      decide +kernel
    rw [hmissing] at hsome
    cases hsome
  · rw [hfound, ← hlast]
    obtain rfl | rfl : id = ⟨some "Engine", "critter"⟩ ∨ id = ⟨some "Behaviors", "critter"⟩ :=
      List.mem_pair.mp hid
    · decide +kernel
    · exact absurd (hwithin "Behaviors" rfl) (by decide)

end Library

end Herd
