import Mathlib.Data.List.Nodup
import Mathlib.Data.List.TakeWhile
import Herd.Json.Decoder

/-!
# Decoders read what is written

For each form that values are written in, its decoder reads it back: natural numbers, values or
null, arrays, objects with any keys (`Decoder.members_ofMembers`), and records by their fields
(`Decoder.fields_ofMembers`). Under an address as a key stands its decimal, and the decimal of a
number below 2^64 is read as that number (`Decoder.naturalKey_toString`).
-/

namespace Herd.Json

/-! ## Decimals -/

namespace Number

/-- Digits whose number fits are all gathered. -/
theorem gatherWhole_of_fits {ds : List Nat} :
    ∀ {acc : Nat}, ds.foldl (fun acc d => acc * 10 + d) acc < significandBound →
      gatherWhole acc ds = (ds.foldl (fun acc d => acc * 10 + d) acc, 0) := by
  have hgrows : ∀ (ds : List Nat) (acc : Nat), acc ≤ ds.foldl (fun acc d => acc * 10 + d) acc := by
    intro ds
    induction ds with
    | nil => exact Nat.le_refl
    | cons d rest ih => exact fun acc => Nat.le_trans (by omega) (ih (acc * 10 + d))
  induction ds with
  | nil => exact fun _ => rfl
  | cons d rest ih =>
    intro acc h
    rw [List.foldl_cons] at h
    rw [gatherWhole, if_pos (Nat.lt_of_le_of_lt (hgrows rest _) h), ih h, List.foldl_cons]

/-- The digits of a number make up the number. -/
theorem foldl_digitValue (n : Nat) :
    ((Nat.toDigits 10 n).map digitValue).foldl (fun acc d => acc * 10 + d) 0 = n := by
  have hstep : (fun (acc : Nat) (c : Char) => acc * 10 + digitValue c) =
      fun acc c => 10 * acc + (c.toNat - '0'.toNat) := by
    funext acc c
    rw [Nat.mul_comm]
    rfl
  rw [List.foldl_map, hstep, ← Nat.ofDigitChars_eq_foldl]
  exact Nat.ofDigitChars_toDigits (by decide) (by decide)

/-- The decimal of a positive number does not begin with a zero. -/
theorem head?_digitValue (n : Nat) (hn : 0 < n) :
    ((Nat.toDigits 10 n).map digitValue).head? ≠ some 0 := by
  have hdigit : ∀ d < 10, digitValue (Nat.digitChar d) = d := by decide
  induction n using Nat.strongRecOn with
  | ind n ih =>
    by_cases hlt : n < 10
    · rw [Nat.toDigits_of_lt_base hlt, List.map_singleton, List.head?_cons, hdigit n hlt]
      exact fun h => Nat.ne_of_gt hn (Option.some.inj h)
    · have hne : (Nat.toDigits 10 (n / 10)).map digitValue ≠ [] :=
        mt List.map_eq_nil_iff.mp Nat.toDigits_ne_nil
      rw [Nat.toDigits_eq_if (by decide), if_neg hlt, List.map_append,
        List.head?_append_of_ne_nil _ hne]
      exact ih (n / 10) (by omega) (by omega)

/-- The decimal of a number is read whole, and without a sign, a point or an exponent. -/
theorem literal?_toDigits (n : Nat) : literal? (Nat.toDigits 10 n) =
    some (⟨false, (Nat.toDigits 10 n).map digitValue, none, none⟩, []) := by
  have hdigit : ∀ c ∈ Nat.toDigits 10 n, c.isDigit = true :=
    fun c hc => Nat.isDigit_of_mem_toDigits (by decide) (by decide) hc
  have hdigits : digits? (Nat.toDigits 10 n) =
      some ((Nat.toDigits 10 n).map digitValue, []) := by
    rw [digits?, List.takeWhile_eq_self_iff.mpr hdigit, List.dropWhile_eq_nil_iff.mpr hdigit]
    split
    · next h => exact absurd h Nat.toDigits_ne_nil
    · rfl
  have hwhole : whole? (Nat.toDigits 10 n) = some ((Nat.toDigits 10 n).map digitValue, []) := by
    rw [whole?, hdigits]
    split
    · next d rest _ h =>
      -- only the zero itself begins with a zero, and it has one digit
      have hcons : (Nat.toDigits 10 n).map digitValue = 0 :: d :: rest :=
        congrArg Prod.fst (Option.some.inj h)
      rcases Nat.eq_zero_or_pos n with rfl | hn
      · exact absurd (congrArg List.length hcons) (by simp [Nat.toDigits_of_lt_base])
      · exact absurd (by rw [hcons, List.head?_cons]) (head?_digitValue n hn)
    · rfl
  have hsign : ∀ cs, Nat.toDigits 10 n ≠ '-' :: cs := fun cs h =>
    absurd (hdigit '-' (h ▸ List.mem_cons_self)) (by decide)
  unfold literal?
  split
  next negative cs hcs =>
    split at hcs
    · next rest h => exact absurd h (hsign rest)
    · obtain ⟨rfl, rfl⟩ := Prod.mk.inj hcs
      rw [hwhole]
      rfl

end Number

namespace Decoder

/-- A key that writes a number is read as that number, if it fits. -/
theorem naturalKey_toString {n : Nat} (h : n < Number.significandBound) :
    naturalKey ⟨some (toString n), false⟩ = some n := by
  have hgather : Number.gatherWhole 0 ((Nat.toDigits 10 n).map Number.digitValue) = (n, 0) := by
    rw [Number.gatherWhole_of_fits (by rwa [Number.foldl_digitValue]), Number.foldl_digitValue]
  have hvalue : Number.Literal.value
      ⟨false, (Nat.toDigits 10 n).map Number.digitValue, none, none⟩ = some (.integer n) := by
    rw [Number.Literal.value, hgather]
    rfl
  have hchars : (toString n).toList = Nat.toDigits 10 n := by
    rw [Nat.toString_eq_ofList_toDigits, String.toList_ofList]
  simp only [naturalKey, Option.getD_some, hchars, Number.literal?_toDigits, hvalue]
  rfl

/-! ## Values -/

@[simp] theorem natural_ofNat (room n : Nat) : natural room (.ofNat n) = some n := rfl

section

variable {α κ : Type} {write : α → Value} {d : Decoder α} {room : Nat}

/-- An option is read back, if its values are and none of them is written as null. -/
theorem nullable_ofOption {o : Option α} (hread : ∀ a ∈ o, d room (write a) = some a)
    (hnull : ∀ a, write a ≠ .null) : nullable d room (.ofOption write o) = some o := by
  cases o with
  | none => rfl
  | some a =>
    rw [Value.ofOption, nullable, hread a rfl]
    · rfl
    · exact hnull a

/-- What is read back one by one is read back as a list. -/
theorem mapM_map_of_forall {β : Type} {f : α → β} {g : β → Option α} {l : List α}
    (h : ∀ a ∈ l, g (f a) = some a) : (l.map f).mapM g = some l := by
  induction l with
  | nil => rfl
  | cons a rest ih =>
    obtain ⟨ha, hrest⟩ := List.forall_mem_cons.mp h
    rw [List.map_cons, List.mapM_cons, ha, ih hrest]
    rfl

theorem list_array {l : List α} (h : ∀ a ∈ l, d room (write a) = some a) :
    list d (room + 1) (.array (l.map write)) = some l :=
  mapM_map_of_forall h

/-- An object is read back, if its keys and its values are. -/
theorem members_ofMembers {key : Key → Option κ} (spell : κ → String) (write : α → Value)
    {entries : List (κ × α)}
    (hkey : ∀ e ∈ entries, key ⟨some (spell e.1), false⟩ = some e.1)
    (hvalue : ∀ e ∈ entries, d room (write e.2) = some e.2) :
    members key d (room + 1) (.ofMembers (entries.map fun e => (spell e.1, write e.2))) =
      some entries := by
  rw [Value.ofMembers, List.map_map]
  refine mapM_map_of_forall fun e he => ?_
  simp only [Function.comp, hkey e he, hvalue e he]
  rfl

end

/-! ## Records -/

/-- A member of a record is found under its name, if names are distinct. -/
theorem find?_ofMembers {ms : List (String × Value)} (hnames : (ms.map (·.1)).Nodup)
    {m : String × Value} (hm : m ∈ ms) :
    ((ms.map fun m => ((⟨some m.1, false⟩ : Key), m.2)).find? (·.1.text == some m.1)).map (·.2) =
      some m.2 := by
  induction ms with
  | nil => cases hm
  | cons a rest ih =>
    obtain ⟨ha, hrest⟩ := List.nodup_cons.mp hnames
    rcases List.mem_cons.mp hm with rfl | hm
    · rw [List.map_cons, List.find?_cons_of_pos (by simp)]
      rfl
    · have hne : a.1 ≠ m.1 := fun h => ha (List.mem_map.mpr ⟨m, hm, h.symm⟩)
      rw [List.map_cons, List.find?_cons_of_neg (by simpa using hne)]
      exact ih hrest hm

/-- A record is read back by its fields, if they have different names. -/
theorem fields_ofMembers {names : List String} {ms : List (String × Value)}
    (hnames : names.Nodup) (hms : ms.map (·.1) = names) (room : Nat) :
    fields names (room + 1) (.ofMembers ms) =
      some ⟨room, false, ms.map fun m => (m.1, some m.2)⟩ := by
  subst hms
  have hreadable : (ms.map fun m => ((⟨some m.1, false⟩ : Key), m.2)).all
      (·.1.text.isSome) = true := by simp
  have hcount : ∀ n, (ms.map fun m => ((⟨some m.1, false⟩ : Key), m.2)).countP
      (·.1.text == some n) = (ms.map (·.1)).count n := by
    intro n
    rw [List.count, List.countP_map, List.countP_map]
    exact List.countP_congr fun m _ => by simp
  have honce : (ms.map (·.1)).all (fun n => (ms.map fun m =>
      ((⟨some m.1, false⟩ : Key), m.2)).countP (·.1.text == some n) ≤ 1) = true := by
    refine List.all_eq_true.mpr fun n _ => decide_eq_true ?_
    rw [hcount]
    exact List.nodup_iff_count_le_one.mp hnames n
  have hslots : ((ms.map (·.1)).map fun n => (n,
      ((ms.map fun m => ((⟨some m.1, false⟩ : Key), m.2)).find? (·.1.text == some n)).map (·.2))) =
      ms.map fun m => (m.1, some m.2) := by
    rw [List.map_map]
    exact List.map_congr_left fun m hm => congrArg (Prod.mk m.1) (find?_ofMembers hnames hm)
  rw [Value.ofMembers, fields, hreadable, honce, hslots]
  rfl

end Decoder

end Herd.Json
