import Mathlib.Data.List.Sort
import Herd.Proofs.Text.Case
import Herd.Proofs.World.Population

/-!
# Groups part a population

Labels that match are one label to every group: matching is an equivalence, since it compares the
labels folded character by character (`labelsMatch_equivalence`), and no character is folded away,
so the empty label matches itself only (`labelsMatch_empty_iff`).

The members of a group are the entities with a tag of it, in ascending order (`mem_membersOf`,
`ascending_membersOf`). A tag has one label, so two groups are the same list of entities or have
none in common (`membersOf_eq_of_labelsMatch`, `disjoint_membersOf`). Who the members are is settled
by the labels of the tags (`membersOf_congr`).
-/

namespace Herd

open EntityStore SteadyStore

/-! ## Labels -/

namespace Text

theorem lowerChar_ne_nil (c : Char) : lowerChar c ≠ [] := by
  unfold lowerChar
  split
  · exact List.cons_ne_nil _ _
  · split <;> exact List.cons_ne_nil _ _

/-- No character is folded away. -/
theorem lowerEach_eq_nil_iff {s : String} : lowerEach s = [] ↔ s = "" := by
  rw [lowerEach, List.flatMap_eq_nil_iff, ← String.toList_eq_nil_iff,
    List.eq_nil_iff_forall_not_mem]
  exact forall₂_congr fun c _ => iff_false_intro (lowerChar_ne_nil c)

end Text

/-- **Labels that match are an equivalence**, since both sides are folded alike. -/
theorem labelsMatch_equivalence : Equivalence fun a b => labelsMatch a b = true where
  refl _ := labelsMatch_iff.mpr rfl
  symm h := labelsMatch_iff.mpr (labelsMatch_iff.mp h).symm
  trans h h' := labelsMatch_iff.mpr ((labelsMatch_iff.mp h).trans (labelsMatch_iff.mp h'))

theorem labelsMatch_empty_iff {label : String} : labelsMatch label "" = true ↔ label = "" := by
  rw [labelsMatch_iff, ← Text.lowerEach_eq_nil_iff]
  exact Iff.rfl

/-- A tag is of a group or not whichever way its label is spelled. -/
theorem GroupTag.isIn_congr {a b : String} (h : labelsMatch a b = true) (tag : GroupTag) :
    tag.isIn a = tag.isIn b := by
  have hfold : ∀ c, labelsMatch c a = labelsMatch c b := fun c => by
    rw [Bool.eq_iff_iff, labelsMatch_iff, labelsMatch_iff, labelsMatch_iff.mp h]
  rw [isIn, isIn, hfold]

/-- A tag is in a group if it has a label and the label matches. -/
theorem GroupTag.isIn_iff {tag : GroupTag} {label : String} :
    tag.isIn label = true ↔ tag.label ≠ "" ∧ labelsMatch tag.label label = true := by
  rw [isIn, Bool.and_eq_true, Bool.not_eq_true', ← Bool.not_eq_true, String.isEmpty_iff]

/-! ## Members -/

section Steady

variable {σ : Type} [EntityStore σ] [SteadyStore σ] {e : EntityId} {s t : σ} {label : String}

/-- The members of a group are the entities with a tag in it. -/
theorem mem_membersOf :
    e ∈ membersOf label s ↔ ¬ label.isEmpty = true ∧
      ∃ tag : GroupTag, get? e .groupTag s = some tag ∧ tag.isIn label = true := by
  constructor
  · intro h
    refine ⟨fun hempty => ?_, tag_of_mem_membersOf h⟩
    rw [membersOf, if_pos hempty] at h
    cases h
  · rintro ⟨hlabel, tag, htag, hin⟩
    rw [membersOf, if_neg hlabel, List.mem_filter]
    refine ⟨mem_entitiesWith.mpr (by rw [htag, Option.isSome_some]), ?_⟩
    rw [htag]
    exact hin

theorem AgreeAt.mem_membersOf (h : AgreeAt e s t) (label : String) :
    e ∈ membersOf label s ↔ e ∈ membersOf label t := by
  rw [Herd.mem_membersOf, Herd.mem_membersOf, h.components .groupTag]

/-- No tag is of the group of the empty label, so that it has no members takes no saying. -/
theorem mem_membersOf_iff_label :
    e ∈ membersOf label s ↔ ∃ tag : GroupTag, get? e .groupTag s = some tag ∧ tag.label ≠ "" ∧
      labelsMatch tag.label label = true := by
  rw [mem_membersOf]
  constructor
  · rintro ⟨-, tag, htag, hin⟩
    exact ⟨tag, htag, GroupTag.isIn_iff.mp hin⟩
  · rintro ⟨tag, htag, hne, hmatch⟩
    refine ⟨fun hempty => hne ?_, tag, htag, GroupTag.isIn_iff.mpr ⟨hne, hmatch⟩⟩
    rwa [String.isEmpty_iff.mp hempty, labelsMatch_empty_iff] at hmatch

/-- Members are listed in ascending order. -/
theorem ascending_membersOf (label : String) (s : σ) :
    (membersOf label s).Pairwise fun a b => a.raw < b.raw := by
  unfold membersOf
  split
  · exact List.Pairwise.nil
  · exact ((ascending_entitiesWith .groupTag s).imp Nat.compare_eq_lt.mp).filter _

/-- Who the members of a group are is settled by the labels of the tags. -/
theorem membersOf_congr (h : ∀ e, (get? e .groupTag s : Option GroupTag).map (·.label) =
    (get? e .groupTag t : Option GroupTag).map (·.label)) (label : String) :
    membersOf label s = membersOf label t := by
  have hsub : ∀ {s t : σ}, (∀ e, (get? e .groupTag s : Option GroupTag).map (·.label) =
      (get? e .groupTag t : Option GroupTag).map (·.label)) →
      ∀ e, e ∈ membersOf label s → e ∈ membersOf label t := by
    intro s t h e he
    obtain ⟨tag, htag, hne, hmatch⟩ := mem_membersOf_iff_label.mp he
    have hlabel := (h e).symm
    rw [htag, Option.map_some, Option.map_eq_some_iff] at hlabel
    obtain ⟨tag', htag', hlabel⟩ := hlabel
    exact mem_membersOf_iff_label.mpr ⟨tag', htag', hlabel ▸ hne, hlabel ▸ hmatch⟩
  have hanti : Std.Antisymm fun a b : EntityId => a.raw < b.raw := ⟨fun a b hab hba => by omega⟩
  have hirrefl : Std.Irrefl fun a b : EntityId => a.raw < b.raw := ⟨fun a => Nat.lt_irrefl a.raw⟩
  exact (ascending_membersOf label s).eq_of_mem_iff (ascending_membersOf label t) fun e =>
    ⟨hsub h e, hsub (fun e => (h e).symm) e⟩

omit [SteadyStore σ] in
/-- Labels that match name the same group. -/
theorem membersOf_eq_of_labelsMatch {a b : String} (h : labelsMatch a b = true) (s : σ) :
    membersOf a s = membersOf b s := by
  have hempty : a.isEmpty = b.isEmpty := by
    rw [Bool.eq_iff_iff, String.isEmpty_iff, String.isEmpty_iff, ← Text.lowerEach_eq_nil_iff,
      labelsMatch_iff.mp h, Text.lowerEach_eq_nil_iff]
  unfold membersOf
  rw [hempty]
  split
  · rfl
  · refine List.filter_congr fun e _ => ?_
    split
    · exact GroupTag.isIn_congr h _
    · rfl

/-- A tag has one label. -/
theorem disjoint_membersOf {a b : String} (h : labelsMatch a b = false) (s : σ) :
    (membersOf a s).Disjoint (membersOf b s) := by
  intro e ha hb
  obtain ⟨tag, htag, -, hmatch⟩ := mem_membersOf_iff_label.mp ha
  obtain ⟨tag', htag', -, hmatch'⟩ := mem_membersOf_iff_label.mp hb
  cases htag.symm.trans htag'
  rw [labelsMatch_equivalence.trans (labelsMatch_equivalence.symm hmatch) hmatch'] at h
  cases h

end Steady

namespace Population

/-- **Groups part a population by their folded labels.** Two labels match if and only if folding
each character makes them one, and that is an equivalence. The members of a group are, ascending and
each once, the entities that there are whose tag has a label that is not empty and matches; the
empty label has none. So two groups are the same if their labels match, and have no member in common
if they do not. -/
theorem parted_by_labels (p : Population) :
    (∀ a b, labelsMatch a b = true ↔ Text.lowerEach a = Text.lowerEach b) ∧
    Equivalence (fun a b => labelsMatch a b = true) ∧
    (∀ label, (membersOf label p).Pairwise (fun a b => a.raw < b.raw) ∧
      ∀ e, e ∈ membersOf label p ↔ p.contains e = true ∧ ∃ tag : GroupTag,
        EntityStore.get? e .groupTag p = some tag ∧ tag.label ≠ "" ∧
          labelsMatch tag.label label = true) ∧
    membersOf "" p = [] ∧
    ∀ a b, (labelsMatch a b = true → membersOf a p = membersOf b p) ∧
      (labelsMatch a b = false → (membersOf a p).Disjoint (membersOf b p)) := by
  refine ⟨fun a b => labelsMatch_iff, labelsMatch_equivalence, fun label =>
    ⟨ascending_membersOf label p, fun e => ?_⟩, rfl, fun a b =>
    ⟨fun h => membersOf_eq_of_labelsMatch h p, fun h => disjoint_membersOf h p⟩⟩
  rw [mem_membersOf_iff_label]
  constructor
  · rintro ⟨tag, htag, hlabel⟩
    exact ⟨contains_of_get? htag, tag, htag, hlabel⟩
  · exact fun h => h.2

/-- Four entities with tags. The Kelvin sign folds to a letter of ASCII, and the dotted capital I to
two characters. -/
def spelledTags : Population :=
  let tagged (label : String) :=
    { EntityRecord.ofName "deer" with groupTag := some (.ofLabel label) }
  let p := ((empty.spawn (tagged "K9")).2.spawn (tagged "\u0130")).2
  ((p.spawn (tagged "\u212a9")).2.spawn (tagged "i")).2

/-- A label in ASCII matches one that is not, and what folds to two characters does not match the
first of them alone. -/
theorem spelledTags_parted :
    membersOf "\u212a9" spelledTags = [⟨1⟩, ⟨3⟩] ∧
      membersOf "k9" spelledTags = membersOf "\u212a9" spelledTags ∧
      membersOf "i\u0307" spelledTags = membersOf "\u0130" spelledTags ∧
      (membersOf "i" spelledTags).Disjoint (membersOf "\u0130" spelledTags) ∧
      membersOf "" spelledTags = [] := by
  obtain ⟨-, -, -, hempty, hpair⟩ := parted_by_labels spelledTags
  exact ⟨by decide, (hpair _ _).1 (by decide), (hpair _ _).1 (by decide),
    (hpair _ _).2 (by decide), hempty⟩

end Population

end Herd
