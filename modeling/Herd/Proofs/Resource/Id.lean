import Mathlib.Data.List.Basic
import Mathlib.Data.List.TakeWhile
import Herd.Resource.Id

/-!
# Written ids

`parse` reads exactly the texts of well-formed ids (`parse_eq_ok_iff`), which are those
with at most one colon and something on each side of it (`readable_iff`). So an id of
which the text can be read is read back from it, however it came to be
(`Issued.eq_of_parse`), and a spelling of the text in other ASCII letters is read as an
id with the same key (`WellFormed.parse_spelled`).
-/

namespace Herd.ResourceId

/-- The parts of the id are not empty and have no colon. -/
structure WellFormed (id : ResourceId) : Prop where
  name_ne : id.name ≠ ""
  name_colon : ':' ∉ id.name.toList
  module_ne : ∀ m ∈ id.module, m ≠ ""
  module_colon : ∀ m ∈ id.module, ':' ∉ m.toList

theorem toList_text_some (m n : String) :
    (text ⟨some m, n⟩).toList = m.toList ++ ':' :: n.toList := by
  rw [text, String.toList_append, String.toList_append, List.append_assoc]
  rfl

theorem ofList_ne_empty {cs : List Char} (h : cs ≠ []) : String.ofList cs ≠ "" := by
  rw [ne_eq, ← String.toList_eq_nil_iff, String.toList_ofList]
  exact h

/-! ## Reading -/

theorem forall_ne_colon {cs : List Char} (h : ':' ∉ cs) : ∀ c ∈ cs, decide (c ≠ ':') = true :=
  fun _ hc => decide_eq_true fun e => h (e ▸ hc)

/-- What is read of a text is well-formed and is written as that text. -/
theorem WellFormed.of_parse {t : String} {id : ResourceId} (h : parse t = .ok id) :
    id.WellFormed ∧ id.text = t := by
  have hbefore : ':' ∉ t.toList.takeWhile (· ≠ ':') := fun hmem => by
    simpa using List.mem_takeWhile_imp hmem
  have hchars := List.takeWhile_append_dropWhile (p := (· ≠ ':')) (l := t.toList)
  unfold parse at h
  cases hdrop : t.toList.dropWhile (· ≠ ':') with
  | nil =>
    rw [hdrop, List.append_nil] at hchars
    simp only [hdrop] at h
    split at h
    · cases h
    · next hne =>
      obtain rfl : (⟨none, t⟩ : ResourceId) = id := Except.ok.inj h
      rw [hchars] at hne hbefore
      exact ⟨⟨mt String.toList_eq_nil_iff.mpr hne, hbefore, by simp, by simp⟩, rfl⟩
  | cons c after =>
    have hc : c = ':' := by
      have hhead := List.head?_dropWhile_not (· ≠ ':') t.toList
      rw [hdrop] at hhead
      simpa using hhead
    rw [hdrop, hc] at hchars
    simp only [hdrop] at h
    split at h
    · cases h
    · next hparts =>
      obtain ⟨hmodule, hname, hcolon⟩ := not_or.mp hparts |>.imp_right not_or.mp
      obtain rfl := Except.ok.inj h
      refine ⟨⟨ofList_ne_empty hname, ?_, ?_, ?_⟩, ?_⟩
      · rwa [String.toList_ofList]
      · rintro m ⟨⟩
        exact ofList_ne_empty hmodule
      · rintro m ⟨⟩
        rwa [String.toList_ofList]
      · rw [← String.toList_inj, toList_text_some, String.toList_ofList, String.toList_ofList]
        exact hchars

/-- A well-formed id is read back from its text. -/
theorem WellFormed.parse_text {id : ResourceId} (h : id.WellFormed) : parse id.text = .ok id := by
  obtain ⟨_ | m, n⟩ := id
  · have hall := forall_ne_colon h.name_colon
    have hchars : n.toList ≠ [] := mt String.toList_eq_nil_iff.mp h.name_ne
    simp only [parse, text, List.dropWhile_eq_nil_iff.mpr hall, List.takeWhile_eq_self_iff.mpr hall,
      if_neg hchars]
  · have hall := forall_ne_colon (h.module_colon m rfl)
    have htake : (m.toList ++ ':' :: n.toList).takeWhile (· ≠ ':') = m.toList := by
      rw [List.takeWhile_append_of_pos hall, List.takeWhile_cons_of_neg (by simp), List.append_nil]
    have hdrop : (m.toList ++ ':' :: n.toList).dropWhile (· ≠ ':') = ':' :: n.toList := by
      rw [List.dropWhile_append_of_pos hall, List.dropWhile_cons_of_neg (by simp)]
    have hparts : ¬(m.toList = [] ∨ n.toList = [] ∨ ':' ∈ n.toList) := by
      rw [String.toList_eq_nil_iff, String.toList_eq_nil_iff]
      exact not_or.mpr ⟨h.module_ne m rfl, not_or.mpr ⟨h.name_ne, h.name_colon⟩⟩
    simp only [parse, toList_text_some, htake, hdrop, if_neg hparts, String.ofList_toList]

/-- **A text is read as an id if and only if it is the text of that id**, and the id is
well-formed. -/
theorem parse_eq_ok_iff {t : String} {id : ResourceId} :
    parse t = .ok id ↔ id.WellFormed ∧ id.text = t :=
  ⟨WellFormed.of_parse, fun ⟨h, ht⟩ => ht ▸ h.parse_text⟩

/-! ## Ids as they come to be -/

/-- An id that there can be: made of a module and a name, or read. -/
inductive Issued : ResourceId → Prop
  | make (module name : String) : Issued ⟨some module, name⟩
  | read {t : String} {id : ResourceId} (h : parse t = .ok id) : Issued id

/-- An id is read back from its text, if the text can be read. -/
theorem Issued.eq_of_parse {id q : ResourceId} (h : id.Issued) (hq : parse id.text = .ok q) :
    q = id := by
  obtain ⟨hwell, htext⟩ := parse_eq_ok_iff.mp hq
  cases h with
  | read h => exact Except.ok.inj (hq.symm.trans (parse_eq_ok_iff.mp h).1.parse_text)
  | make m n =>
    have hchars := (congrArg String.toList htext).trans (toList_text_some m n)
    obtain ⟨_ | m', n'⟩ := q
    · refine absurd ?_ hwell.name_colon
      rw [show n'.toList = m.toList ++ ':' :: n.toList from hchars]
      simp
    · rw [toList_text_some] at hchars
      obtain ⟨hm, -, hn⟩ := (List.append_cons_inj_of_notMem (hwell.module_colon m' rfl)
        hwell.name_colon).mp hchars
      obtain rfl := String.toList_inj.mp hm
      obtain rfl : n' = n := String.toList_inj.mp hn
      rfl

/-! ## Texts and ids -/

/-- The text is a name without a colon, or it has one colon, with a module before it and a name
behind it. -/
def Readable (t : String) : Prop :=
  t ≠ "" ∧ t.toList.count ':' = 0 ∨
    t.toList.count ':' = 1 ∧ ∃ m n : String, m ≠ "" ∧ n ≠ "" ∧ t = m ++ ":" ++ n

/-- The text of a qualified id has one colon more than its parts. -/
theorem count_colon_text (m n : String) :
    (text ⟨some m, n⟩).toList.count ':' = m.toList.count ':' + n.toList.count ':' + 1 := by
  rw [toList_text_some, List.count_append, List.count_cons_self, Nat.add_assoc]

/-- The readable texts are those of the well-formed ids. -/
theorem readable_iff {t : String} : Readable t ↔ ∃ id : ResourceId, id.WellFormed ∧ id.text = t := by
  constructor
  · rintro (⟨hne, hcolon⟩ | ⟨hcolon, m, n, hm, hn, rfl⟩)
    · exact ⟨⟨none, t⟩, ⟨hne, List.count_eq_zero.mp hcolon, by simp, by simp⟩, rfl⟩
    · -- the one colon is the one between the parts
      have hcount := (count_colon_text m n).symm.trans hcolon
      have hmodule : m.toList.count ':' = 0 := by omega
      have hname : n.toList.count ':' = 0 := by omega
      refine ⟨⟨some m, n⟩, ⟨hn, List.count_eq_zero.mp hname, ?_, ?_⟩, rfl⟩
      · rintro _ ⟨⟩
        exact hm
      · rintro _ ⟨⟩
        exact List.count_eq_zero.mp hmodule
  · rintro ⟨⟨_ | m, n⟩, h, rfl⟩
    · exact .inl ⟨h.name_ne, List.count_eq_zero.mpr h.name_colon⟩
    · refine .inr ⟨?_, m, n, h.module_ne m rfl, h.name_ne, rfl⟩
      rw [count_colon_text, List.count_eq_zero.mpr (h.module_colon m rfl),
        List.count_eq_zero.mpr h.name_colon]

/-- The texts that are read are those that are readable. -/
theorem exists_parse_iff {t : String} : (∃ id, parse t = .ok id) ↔ Readable t := by
  simp only [readable_iff, parse_eq_ok_iff]

/-- Reading has one fault, and it tells the text back. -/
theorem parse_cases (t : String) :
    (∃ id, parse t = .ok id) ∨ parse t = .error (.invalidResourceId t) := by
  unfold parse
  dsimp only
  split <;> split
  · exact .inr rfl
  · exact .inl ⟨_, rfl⟩
  · exact .inr rfl
  · exact .inl ⟨_, rfl⟩

/-- Any other text is refused, and the refusal names it. -/
theorem parse_of_not_readable {t : String} (h : ¬Readable t) :
    parse t = .error (.invalidResourceId t) :=
  (parse_cases t).resolve_left (mt exists_parse_iff.mp h)

/-- Of the ids that come to be, those with a readable text are well-formed. -/
theorem Issued.readable_text_iff {id : ResourceId} (h : id.Issued) :
    Readable id.text ↔ id.WellFormed := by
  rw [← exists_parse_iff]
  constructor
  · rintro ⟨q, hq⟩
    obtain rfl := h.eq_of_parse hq
    exact (parse_eq_ok_iff.mp hq).1
  · exact fun hwell => ⟨id, hwell.parse_text⟩

/-- **Reading and writing ids are inverse to each other.** The texts that are read are the readable
ones, and each is the text of the id it is read as; any other is told back in a fault. An id is read
back from its text, module and name as they were, exactly if these are not empty and have no colon;
of any other id that there can be the text is not read at all. -/
theorem parse_inverts_text :
    (∀ t : String, ((∃ id, parse t = .ok id) ↔ Readable t) ∧
      (∀ id, parse t = .ok id → id.text = t) ∧
      (¬Readable t → parse t = .error (.invalidResourceId t))) ∧
    ∀ id : ResourceId, id.Issued → (parse id.text = .ok id ↔ id.WellFormed) ∧
      (¬id.WellFormed → parse id.text = .error (.invalidResourceId id.text)) := by
  constructor
  · intro t
    exact ⟨exists_parse_iff, fun id h => (parse_eq_ok_iff.mp h).2, parse_of_not_readable⟩
  · intro id h
    refine ⟨⟨fun hparse => (parse_eq_ok_iff.mp hparse).1, WellFormed.parse_text⟩, fun hwell => ?_⟩
    exact parse_of_not_readable (mt h.readable_text_iff.mp hwell)

/-- An id is read back, and one with a colon in its name is not taken for another. -/
theorem critter_read_back :
    parse (text ⟨some "Behaviors", "critter"⟩) = .ok ⟨some "Behaviors", "critter"⟩ ∧
      parse (text ⟨some "Behaviors", "critter:"⟩) =
        .error (.invalidResourceId "Behaviors:critter:") := by
  obtain ⟨-, hids⟩ := parse_inverts_text
  constructor
  · refine (hids _ (.make "Behaviors" "critter")).1.mpr ⟨by decide, by decide, ?_, ?_⟩
    · rintro _ ⟨⟩
      decide
    · rintro _ ⟨⟩
      decide
  · exact (hids _ (.make "Behaviors" "critter:")).2 fun h => h.name_colon (by decide)

/-! ## Spellings -/

theorem toLower_eq_colon_iff {c : Char} : c.toLower = ':' ↔ c = ':' := by
  unfold Char.toLower
  split
  · next h =>
    -- a letter is neither, and is not made one
    have hlower : c.val + ('a'.val - 'A'.val) ≠ ':'.val := by grind
    have hc : c.val ≠ ':'.val := by grind
    exact iff_of_false (fun e => hlower (congrArg Char.val e)) fun e => hc (congrArg Char.val e)
  · exact Iff.rfl

theorem colon_mem_map_toLower {cs : List Char} : ':' ∈ cs.map Char.toLower ↔ ':' ∈ cs := by
  rw [List.mem_map]
  constructor
  · rintro ⟨c, hc, hlower⟩
    exact toLower_eq_colon_iff.mp hlower ▸ hc
  · exact fun h => ⟨':', h, rfl⟩

theorem lowerAscii_eq_iff {s t : String} : Text.lowerAscii s = Text.lowerAscii t ↔
    s.toList.map Char.toLower = t.toList.map Char.toLower := by
  rw [Text.lowerAscii, Text.lowerAscii, ← String.toList_inj, String.toList_ofList,
    String.toList_ofList]

section Spelled

variable {s t : String} (h : Text.lowerAscii s = Text.lowerAscii t)

include h

/-- Another spelling of a text is empty only if the text is. -/
theorem ne_empty_of_spelled (hs : s ≠ "") : t ≠ "" := by
  rw [lowerAscii_eq_iff] at h
  rw [ne_eq, ← String.toList_eq_nil_iff] at hs ⊢
  rwa [← List.map_eq_nil_iff (f := Char.toLower), ← h, List.map_eq_nil_iff]

theorem colon_notMem_of_spelled (hs : ':' ∉ s.toList) : ':' ∉ t.toList := by
  rw [lowerAscii_eq_iff] at h
  rwa [← colon_mem_map_toLower, ← h, colon_mem_map_toLower]

end Spelled

/-- **Spelling is no matter**: a text that differs from that of an id in the case of ASCII letters
only is read as an id with the same key. -/
theorem WellFormed.parse_spelled {id : ResourceId} (hid : id.WellFormed) {t : String}
    (h : Text.lowerAscii id.text = Text.lowerAscii t) : ∃ q, parse t = .ok q ∧ q.key = id.key := by
  obtain ⟨_ | m, n⟩ := id
  · have hwell : WellFormed ⟨none, t⟩ :=
      ⟨ne_empty_of_spelled h hid.name_ne, colon_notMem_of_spelled h hid.name_colon, by simp,
        by simp⟩
    exact ⟨⟨none, t⟩, parse_eq_ok_iff.mpr ⟨hwell, rfl⟩, congrArg (Key.mk none) h.symm⟩
  · have hchars := lowerAscii_eq_iff.mp h
    rw [toList_text_some, List.map_append, List.map_cons, eq_comm, List.map_eq_append_iff] at hchars
    obtain ⟨before, rest, ht, hbefore, hrest⟩ := hchars
    obtain ⟨c, after, rfl, hc, hafter⟩ := List.map_eq_cons_iff.mp hrest
    obtain rfl : c = ':' := toLower_eq_colon_iff.mp hc
    -- the text comes apart at its colon into spellings of the parts
    have hm : Text.lowerAscii m = Text.lowerAscii (String.ofList before) := by
      rw [lowerAscii_eq_iff, String.toList_ofList, hbefore]
    have hn : Text.lowerAscii n = Text.lowerAscii (String.ofList after) := by
      rw [lowerAscii_eq_iff, String.toList_ofList, hafter]
    have hwell : WellFormed ⟨some (String.ofList before), String.ofList after⟩ := by
      refine ⟨ne_empty_of_spelled hn hid.name_ne, colon_notMem_of_spelled hn hid.name_colon, ?_, ?_⟩
      · rintro _ ⟨⟩
        exact ne_empty_of_spelled hm (hid.module_ne m rfl)
      · rintro _ ⟨⟩
        exact colon_notMem_of_spelled hm (hid.module_colon m rfl)
    refine ⟨_, parse_eq_ok_iff.mpr ⟨hwell, ?_⟩, ?_⟩
    · rw [← String.toList_inj, toList_text_some, String.toList_ofList, String.toList_ofList, ht]
    · rw [key, key, Option.map_some, Option.map_some, hm, hn]

end Herd.ResourceId
