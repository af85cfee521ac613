import Herd.Asset.Registry
import Herd.Proofs.Text.Case

/-!
# The register of groups and the labels of its members

The register is keyed by labels folded as a whole (`get?_ofDefinitions`), members are
found by labels folded character by character. Both are the same for labels that do not
differ in where a capital sigma ends a word: there the register holds a label exactly
when a definition in it has a matching one, and answers with the last such definition
(`get?_eq_last_matching`).
-/

namespace Herd

/-- Where a write is read back by those who look for it and by no others, the last one stands. -/
theorem read_foldl_eq_last {σ α β : Type*} {write : σ → α → σ} (read : σ → Option β)
    (value : α → β) (sought : α → Bool)
    (h : ∀ s a, read (write s a) = if sought a = true then some (value a) else read s)
    (l : List α) :
    ∀ s : σ, read (l.foldl write s) = ((l.filter sought).getLast?.map value).or (read s) := by
  induction l with
  | nil => exact fun s => rfl
  | cons a l ih =>
    intro s
    rw [List.foldl_cons, ih, h, List.filter_cons]
    split
    · rw [List.getLast?_cons]
      cases (l.filter sought).getLast? <;> rfl
    · rfl

namespace Registry

/-- The register in which definitions were entered one after the other. -/
def ofDefinitions (gs : List GroupDefinition) : Registry := gs.foldl insert empty

/-- A definition is found under its own label, and makes no difference to other labels. -/
theorem get?_insert (r : Registry) (g : GroupDefinition) (label : String) :
    (r.insert g).get? label =
      if (Text.lowerWord g.label == Text.lowerWord label) = true then some g else r.get? label := by
  unfold get? insert
  split
  · next h => rw [beq_iff_eq.mp h, Table.find?_insert_self]
  · next h => exact Table.find?_insert_of_ne _ (fun e => h (beq_iff_eq.mpr e.symm)) _

/-- Of the definitions whose labels are written the same when lower-cased, the last one counts. -/
theorem get?_ofDefinitions (gs : List GroupDefinition) (label : String) :
    (ofDefinitions gs).get? label =
      (gs.filter fun g => Text.lowerWord g.label == Text.lowerWord label).getLast? := by
  have hget := read_foldl_eq_last (get? · label) (fun g => g)
    (fun g => Text.lowerWord g.label == Text.lowerWord label)
    (fun r g => get?_insert r g label) gs empty
  rw [ofDefinitions, hget, Option.map_id']
  exact Option.or_none

/-- The register of a library is made of the definitions that its sources give. -/
theorem load_eq (l : Library) : load l =
    ofDefinitions ((l.available .group).filterMap fun id => (l.group id.text).toOption) := by
  rw [load, ofDefinitions, List.foldl_filterMap]
  congr 1
  funext r id
  cases l.group id.text <;> rfl

/-- Labels of which those that are equal but for case and the form of small sigmas have their
final sigmas in the same places match if and only if they are one entry. -/
theorem lowerWord_eq_iff_labelsMatch {a b : String}
    (h : Text.lowerPlain a = Text.lowerPlain b → Text.finalSigmas a = Text.finalSigmas b) :
    Text.lowerWord a = Text.lowerWord b ↔ labelsMatch a b = true := by
  rw [labelsMatch_iff]
  constructor
  · intro hword
    refine (Text.lowerEach_eq_iff (h ?_)).mpr hword
    rw [← Text.map_plainSigma_lowerWord, hword, Text.map_plainSigma_lowerWord]
  · intro heach
    refine (Text.lowerEach_eq_iff (h ?_)).mp heach
    rw [Text.lowerPlain, heach, Text.lowerPlain]

/-- **The register goes by matching labels**, but for final sigmas: if no label in it differs from
the label sought in these alone, it holds the label exactly when some definition has a matching
one, and answers with the last such definition. -/
theorem get?_eq_last_matching (gs : List GroupDefinition) (label : String)
    (h : ∀ g ∈ gs, Text.lowerPlain g.label = Text.lowerPlain label →
      Text.finalSigmas g.label = Text.finalSigmas label) :
    ((ofDefinitions gs).contains label = true ↔ ∃ g ∈ gs, labelsMatch g.label label = true) ∧
      (ofDefinitions gs).get? label = (gs.filter fun g => labelsMatch g.label label).getLast? := by
  have hget : (ofDefinitions gs).get? label =
      (gs.filter fun g => labelsMatch g.label label).getLast? := by
    rw [get?_ofDefinitions]
    refine congrArg List.getLast? (List.filter_congr fun g hg => ?_)
    rw [Bool.eq_iff_iff, beq_iff_eq]
    exact lowerWord_eq_iff_labelsMatch (h g hg)
  refine ⟨?_, hget⟩
  rw [contains, hget, List.getLast?_isSome, ne_eq, List.filter_eq_nil_iff]
  simp only [not_forall, not_not, exists_prop]

/-- Of two spellings of one label the later definition stands. -/
theorem last_of_two_spellings :
    let later : GroupDefinition := ⟨"äRGER", some "Behaviors:critter"⟩
    let r := ofDefinitions [⟨"Ärger", none⟩, ⟨"magenta", none⟩, later]
    r.contains "ÄRGER" = true ∧ r.get? "ÄRGER" = some later := by
  intro later r
  obtain ⟨hcontains, hget⟩ := get?_eq_last_matching [⟨"Ärger", none⟩, ⟨"magenta", none⟩, later]
    "ÄRGER" (by decide +kernel)
  exact ⟨hcontains.mpr ⟨later, by decide, by decide +kernel⟩, hget.trans (by decide +kernel)⟩

/-- A final sigma that was capital is not found under the small letter that its label matches. -/
theorem not_keyed_by_matching_labels :
    ¬∀ (gs : List GroupDefinition) (label : String),
      (ofDefinitions gs).contains label = true ↔ ∃ g ∈ gs, labelsMatch g.label label = true := by
  intro h
  have hcontains := (h [⟨"ΑΣ", none⟩] "ασ").mpr ⟨⟨"ΑΣ", none⟩, by decide, by decide +kernel⟩
  revert hcontains
  decide +kernel

end Registry

end Herd
