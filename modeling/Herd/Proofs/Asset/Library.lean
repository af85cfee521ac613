import Herd.Asset.Registry
import Herd.Proofs.Asset.Shelf

/-!
# Assets under their own names

A library is a history of registrations, one shelf for each kind of asset
(`trees_ofAdditions` and its siblings). An asset is found under its own name as long as it
is not shadowed: the written form of its id finds what was last registered under the id,
unless the id names a module and the bare id of the same name is registered for the same
kind (`own_name_finds`). Where no source of a group definition is shadowed, the register
of groups is made of all of them.
-/

namespace Herd

namespace Library

open Herd.Shelf (Names lastUnder ofRegistrations)

/-- A registration. -/
inductive Addition
  | tree (tree : BehaviorTree)
  | group (id : ResourceId) (source : String)
  | skin (id : ResourceId)

namespace Addition

/-- The id under which the asset is registered. -/
def id : Addition → ResourceId
  | tree t => t.id
  | group id _ => id
  | skin id => id

def tree? : Addition → Option (ResourceId × BehaviorTree)
  | tree t => some (t.id, t)
  | _ => none

def group? : Addition → Option (ResourceId × String)
  | group id source => some (id, source)
  | _ => none

def skin? : Addition → Option (ResourceId × Skin)
  | skin id => some (id, ⟨id⟩)
  | _ => none

end Addition

def add (l : Library) : Addition → Library
  | .tree t => l.addTree t
  | .group id source => l.addGroup id source
  | .skin id => l.addSkin id

/-- The library in which assets were registered one after the other. -/
def ofAdditions (as : List Addition) : Library := as.foldl add empty

/-! ## One shelf for each kind -/

/-- A shelf that takes up the registrations of its kind holds these. -/
theorem shelf_ofAdditions {α : Type} (shelf : Library → Shelf α)
    (kind? : Addition → Option (ResourceId × α)) (hempty : shelf empty = .empty)
    (hadd : ∀ l a, shelf (l.add a) =
      match kind? a with
      | some r => (shelf l).register r.1 r.2
      | none => shelf l)
    (as : List Addition) : shelf (ofAdditions as) = ofRegistrations (as.filterMap kind?) := by
  have hfold : ∀ l : Library, shelf (as.foldl add l) =
      (as.filterMap kind?).foldl (fun s r => s.register r.1 r.2) (shelf l) := by
    induction as with
    | nil => exact fun l => rfl
    | cons a as ih =>
      intro l
      rw [List.foldl_cons, ih, hadd, List.filterMap_cons]
      cases kind? a <;> rfl
  rw [ofAdditions, hfold, hempty, ofRegistrations]

/-- The shelf of trees holds the trees that were added, in order. -/
theorem trees_ofAdditions (as : List Addition) :
    (ofAdditions as).trees = ofRegistrations (as.filterMap Addition.tree?) :=
  shelf_ofAdditions trees Addition.tree? rfl (fun l a => by cases a <;> rfl) as

theorem groups_ofAdditions (as : List Addition) :
    (ofAdditions as).groups = ofRegistrations (as.filterMap Addition.group?) :=
  shelf_ofAdditions groups Addition.group? rfl (fun l a => by cases a <;> rfl) as

theorem skins_ofAdditions (as : List Addition) :
    (ofAdditions as).skins = ofRegistrations (as.filterMap Addition.skin?) :=
  shelf_ofAdditions skins Addition.skin? rfl (fun l a => by cases a <;> rfl) as

/-! ## Own names -/

/-- The bare id of the same name is not registered, if it is another. -/
def Unshadowed {α : Type} (regs : List (ResourceId × α)) (id : ResourceId) : Prop :=
  id.module = none ∨ ∀ r ∈ regs, r.1.key ≠ id.bareKey

/-- A text that names a registered id is answered by the asset that was last registered under the
id; under the bare id of its name, where that shadows it. -/
def FindsOwn {α : Type} (regs : List (ResourceId × α)) (answers : String → α → Prop) : Prop :=
  ∀ (s : String) (id : ResourceId), Names s id → id ∈ regs.map (·.1) →
    ∃ asset, answers s asset ∧ (Unshadowed regs id → lastUnder id.key regs = some asset) ∧
      (¬Unshadowed regs id → lastUnder id.bareKey regs = some asset)

theorem lastUnder_of_mem {α : Type} {regs : List (ResourceId × α)} {r : ResourceId × α}
    (hr : r ∈ regs) {k : ResourceId.Key} (hk : r.1.key = k) :
    ∃ asset, lastUnder k regs = some asset :=
  Option.isSome_iff_exists.mp (Shelf.isSome_lastUnder.mpr ⟨r, hr, hk⟩)

/-- A look-up on a shelf is answered by what was registered last under the id. -/
theorem findsOwn_lookup {α : Type} (regs : List (ResourceId × α)) :
    FindsOwn regs fun s asset => (ofRegistrations regs).lookup s = some asset := by
  intro s id hnames hid
  have hlookup := Shelf.lookup_ofRegistrations hnames hid
  by_cases hunshadowed : Unshadowed regs id
  · obtain ⟨r, hr, hrid⟩ := List.mem_map.mp hid
    obtain ⟨asset, hasset⟩ := lastUnder_of_mem hr (congrArg ResourceId.key hrid)
    refine ⟨asset, hlookup.trans ?_, fun _ => hasset, fun h => absurd hunshadowed h⟩
    rcases hunshadowed with hmodule | hfree
    · have hbare : id.bareKey = id.key := by
        rw [ResourceId.bareKey, ResourceId.key, hmodule]
        rfl
      rw [hbare, hasset]
      rfl
    · have hnone : lastUnder id.bareKey regs = none := by
        refine Option.not_isSome_iff_eq_none.mp fun h => ?_
        obtain ⟨q, hq, hkey⟩ := Shelf.isSome_lastUnder.mp h
        exact hfree q hq hkey
      rw [hnone, hasset]
      rfl
  · obtain ⟨-, hbare⟩ := not_or.mp hunshadowed
    obtain ⟨r, hr, hkey⟩ : ∃ r ∈ regs, r.1.key = id.bareKey := by
      simpa only [not_forall, not_not, exists_prop] using hbare
    obtain ⟨asset, hasset⟩ := lastUnder_of_mem hr hkey
    refine ⟨asset, hlookup.trans ?_, fun h => absurd h hunshadowed, fun _ => hasset⟩
    rw [hasset]
    rfl

/-- The ids that a kind of assets is listed with are such as were registered. -/
theorem mem_of_mem_ids {α : Type} {regs : List (ResourceId × α)} {id : ResourceId}
    (h : id ∈ (ofRegistrations regs).ids) : id ∈ regs.map (·.1) := by
  obtain ⟨listed, hlisted, rfl⟩ := List.mem_map.mp h
  obtain ⟨e, he, rfl⟩ := List.mem_map.mp hlisted
  exact (Shelf.lists_ofRegistrations regs e.1 e.2 (Table.find?_eq_some_iff.mpr he)).2

/-- A group is read from the source that its name finds. -/
theorem findsOwn_group (as : List Addition) : FindsOwn (as.filterMap Addition.group?)
    fun s source => (ofAdditions as).group s = GroupDefinition.parse source := by
  intro s id hnames hid
  obtain ⟨source, hlookup, hlast⟩ := findsOwn_lookup _ s id hnames hid
  refine ⟨source, ?_, hlast⟩
  simp only [Library.group, groups_ofAdditions, hlookup]

/-- The id of a group was issued if those of all additions were. -/
theorem issued_of_group {as : List Addition} (hissued : ∀ a ∈ as, a.id.Issued) {id : ResourceId}
    (hid : id ∈ (as.filterMap Addition.group?).map (·.1)) : id.Issued := by
  obtain ⟨r, hr, rfl⟩ := List.mem_map.mp hid
  obtain ⟨a, ha, har⟩ := List.mem_filterMap.mp hr
  cases a with
  | group id source =>
    obtain rfl := Option.some.inj har
    exact hissued _ ha
  | tree t => cases har
  | skin id => cases har

/-- Where all ids of groups can be read and none is shadowed, every source is loaded. -/
theorem load_ofAdditions (as : List Addition) (hissued : ∀ a ∈ as, a.id.Issued)
    (hids : ∀ id ∈ (ofAdditions as).available .group, (∃ q, ResourceId.parse id.text = .ok q) ∧
      Unshadowed (as.filterMap Addition.group?) id) :
    Registry.load (ofAdditions as) = .ofDefinitions
      (((ofAdditions as).available .group).filterMap fun id =>
        (lastUnder id.key (as.filterMap Addition.group?)).bind fun source =>
          (GroupDefinition.parse source).toOption) := by
  rw [Registry.load_eq]
  refine congrArg Registry.ofDefinitions (List.filterMap_congr fun id hid => ?_)
  obtain ⟨hreadable, hunshadowed⟩ := hids id hid
  rw [available, groups_ofAdditions] at hid
  have hregistered := mem_of_mem_ids hid
  obtain ⟨source, hgroup, hlast, -⟩ :=
    findsOwn_group as id.text id ⟨issued_of_group hissued hregistered, hreadable, rfl⟩ hregistered
  rw [hgroup, hlast hunshadowed]
  rfl

/-- **Assets are found under their own names where these are not shadowed.** In every library, the
written form of a registered id, in any spelling, finds what was last registered for its kind under
an equal id, unless the bare id of its name is registered and is another: that one is found then.
If the ids of all sources of group definitions can be read and none is shadowed, the register of
groups is made of every source. -/
theorem own_name_finds (as : List Addition) (hissued : ∀ a ∈ as, a.id.Issued) :
    FindsOwn (as.filterMap Addition.tree?) (fun s t => (ofAdditions as).tree? s = some t) ∧
    FindsOwn (as.filterMap Addition.group?)
      (fun s source => (ofAdditions as).group s = GroupDefinition.parse source) ∧
    FindsOwn (as.filterMap Addition.skin?) (fun s skin => (ofAdditions as).skin? s = some skin) ∧
    ((∀ id ∈ (ofAdditions as).available .group, (∃ q, ResourceId.parse id.text = .ok q) ∧
        Unshadowed (as.filterMap Addition.group?) id) →
      Registry.load (ofAdditions as) = .ofDefinitions
        (((ofAdditions as).available .group).filterMap fun id =>
          (lastUnder id.key (as.filterMap Addition.group?)).bind fun source =>
            (GroupDefinition.parse source).toOption)) := by
  refine ⟨?_, findsOwn_group as, ?_, load_ofAdditions as hissued⟩
  · simpa only [tree?, trees_ofAdditions] using findsOwn_lookup (as.filterMap Addition.tree?)
  · simpa only [skin?, skins_ofAdditions] using findsOwn_lookup (as.filterMap Addition.skin?)

/-- A tree that replaces another, and a group. -/
def critterAdditions : List Addition :=
  [.tree ⟨⟨some "Behaviors", "critter"⟩, .leaf (.action "graze")⟩,
    .group ⟨some "engine", "magenta"⟩ "\x7b\"groupLabel\": \"magenta\"\x7d",
    .tree ⟨⟨some "behaviors", "Critter"⟩, .leaf (.action "wander")⟩]

/-- The later tree is found in a third spelling, and the group is loaded. -/
theorem critter_finds :
    ((ofAdditions critterAdditions).tree? "BEHAVIORS:critter").map (·.id.text) =
        some "behaviors:Critter" ∧
      Registry.load (ofAdditions critterAdditions) = .ofDefinitions [⟨"magenta", none⟩] := by
  have hissued : ∀ a ∈ critterAdditions, a.id.Issued := by
    simp only [critterAdditions, List.forall_mem_cons]
    exact ⟨.make _ _, .make _ _, .make _ _, fun _ h => absurd h List.not_mem_nil⟩
  obtain ⟨htrees, -, -, hload⟩ := own_name_finds critterAdditions hissued
  obtain ⟨t, ht, hlast, -⟩ := htrees "BEHAVIORS:critter" ⟨some "Behaviors", "critter"⟩
    ⟨.make _ _, ⟨⟨some "Behaviors", "critter"⟩, rfl⟩, by decide⟩ (by decide)
  refine ⟨?_, (hload fun id hid => ?_).trans ?_⟩
  · rw [ht, ← hlast (.inr (by decide))]
    decide +kernel
  · obtain rfl : id = ⟨some "engine", "magenta"⟩ := List.mem_singleton.mp hid
    exact ⟨⟨⟨some "engine", "magenta"⟩, rfl⟩, .inr (by decide)⟩
  · exact congrArg Registry.ofDefinitions (by decide +kernel)

/-- A tree with a module is not found under its own name beside a bare one of that name. -/
theorem not_found_beside_bare :
    ¬∀ (as : List Addition) (s : String) (id : ResourceId), Names s id →
      id ∈ (as.filterMap Addition.tree?).map (·.1) →
        (ofAdditions as).tree? s = lastUnder id.key (as.filterMap Addition.tree?) := by
  intro h
  have htree := h [.tree ⟨⟨none, "critter"⟩, .leaf (.action "graze")⟩,
      .tree ⟨⟨some "Behaviors", "critter"⟩, .leaf (.action "wander")⟩] "Behaviors:critter"
    ⟨some "Behaviors", "critter"⟩ ⟨.make _ _, ⟨⟨some "Behaviors", "critter"⟩, rfl⟩, rfl⟩ (by decide)
  have hmodule : some (none : Option String) = some (some "Behaviors") :=
    congrArg (Option.map fun t : BehaviorTree => t.id.module) htree
  cases hmodule

end Library

end Herd
