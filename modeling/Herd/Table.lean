/-!
# Finite tables in key order

A `Table κ ν` holds at most one value per key and lists its entries by
ascending key, so two tables with the same lookups are the same table
(`Table.ext_find?`). Run memory, blackboards, entity stores and asset catalogues
are all tables; the order of their listings is the order of their keys.

Each operation is pinned down by what it does to `find?`: `find?_insert_self`,
`find?_insert_of_ne`, `find?_modify_self`, `find?_modify_of_ne`, `find?_erase_self`,
`find?_erase_of_ne`, `find?_filterKeys`.
-/

namespace Herd

universe u v

variable {κ : Type u} {ν : Type v}

/-- Entries with strictly ascending keys. -/
def Ascending [Ord κ] (entries : List (κ × ν)) : Prop :=
  entries.Pairwise fun a b => compare a.1 b.1 = .lt

/-- A finite map, listed by ascending key. -/
structure Table (κ : Type u) (ν : Type v) [Ord κ] where
  entries : List (κ × ν)
  ascending : Ascending entries

namespace Table

section Entries

variable [Ord κ]

/-- The value stored under `k` in a list of entries. -/
def lookupIn (k : κ) : List (κ × ν) → Option ν
  | [] => none
  | e :: rest => if compare k e.1 = .eq then some e.2 else lookupIn k rest

/-- Put `x` under `k`, in key order, in place of what was there. -/
def insertIn (k : κ) (x : ν) : List (κ × ν) → List (κ × ν)
  | [] => [(k, x)]
  | e :: rest =>
    match compare k e.1 with
    | .lt => (k, x) :: e :: rest
    | .eq => (k, x) :: rest
    | .gt => e :: insertIn k x rest

/-- Change the value under `k`. -/
def modifyIn (k : κ) (f : ν → ν) : List (κ × ν) → List (κ × ν)
  | [] => []
  | e :: rest => if compare k e.1 = .eq then (e.1, f e.2) :: rest else e :: modifyIn k f rest

theorem map_fst_modifyIn (k : κ) (f : ν → ν) (l : List (κ × ν)) :
    (modifyIn k f l).map (·.1) = l.map (·.1) := by
  induction l with
  | nil => rfl
  | cons e rest ih => unfold modifyIn; split <;> simp [ih]

theorem ascending_modifyIn (k : κ) (f : ν → ν) {l : List (κ × ν)} (h : Ascending l) :
    Ascending (modifyIn k f l) := by
  have hkeys : ((modifyIn k f l).map (·.1)).Pairwise (compare · · = .lt) := by
    rw [map_fst_modifyIn]
    exact List.pairwise_map.mpr h
  exact List.pairwise_map.mp hkeys

theorem mem_insertIn {k : κ} {x : ν} {a : κ × ν} {l : List (κ × ν)} (h : a ∈ insertIn k x l) :
    a = (k, x) ∨ a ∈ l := by
  induction l with
  | nil => exact .inl (by simpa [insertIn] using h)
  | cons e rest ih =>
    unfold insertIn at h
    split at h
    · simpa using h
    · rcases List.mem_cons.mp h with h | h
      · exact .inl h
      · exact .inr (List.mem_cons_of_mem _ h)
    · rcases List.mem_cons.mp h with h | h
      · exact .inr (h ▸ List.mem_cons_self)
      · exact (ih h).imp_right (List.mem_cons_of_mem _)

variable [Std.TransOrd κ] [Std.LawfulEqOrd κ]

theorem ascending_insertIn (k : κ) (x : ν) {l : List (κ × ν)} (h : Ascending l) :
    Ascending (insertIn k x l) := by
  induction l with
  | nil => exact List.pairwise_singleton _ _
  | cons e rest ih =>
    obtain ⟨he, hrest⟩ := List.pairwise_cons.mp h
    unfold insertIn
    split
    · next hk =>
      refine List.pairwise_cons.mpr ⟨fun a ha => ?_, h⟩
      rcases List.mem_cons.mp ha with rfl | ha
      · exact hk
      · exact Std.TransCmp.lt_trans hk (he a ha)
    · next hk =>
      have hk : k = e.1 := Std.LawfulEqOrd.eq_of_compare hk
      exact List.pairwise_cons.mpr ⟨fun a ha => hk ▸ he a ha, hrest⟩
    · next hk =>
      refine List.pairwise_cons.mpr ⟨fun a ha => ?_, ih hrest⟩
      rcases mem_insertIn ha with rfl | ha
      · exact Std.OrientedCmp.lt_of_gt hk
      · exact he a ha

end Entries

section Operations

variable [Ord κ]

/-- The table with no entries. -/
def empty : Table κ ν := ⟨[], List.Pairwise.nil⟩

instance : EmptyCollection (Table κ ν) := ⟨empty⟩

instance : Inhabited (Table κ ν) := ⟨empty⟩

/-- The value under `k`. -/
def find? (t : Table κ ν) (k : κ) : Option ν := lookupIn k t.entries

/-- Whether `k` has a value. -/
def contains (t : Table κ ν) (k : κ) : Bool := (t.find? k).isSome

/-- The keys, ascending. -/
def keys (t : Table κ ν) : List κ := t.entries.map (·.1)

/-- The values, by ascending key. -/
def values (t : Table κ ν) : List ν := t.entries.map (·.2)

def size (t : Table κ ν) : Nat := t.entries.length

def isEmpty (t : Table κ ν) : Bool := t.entries.isEmpty

/-- Keep the entries whose key passes `keep`. -/
def filterKeys (keep : κ → Bool) (t : Table κ ν) : Table κ ν :=
  ⟨t.entries.filter fun e => keep e.1, t.ascending.filter _⟩

/-- Drop the entry under `k`, if there is one. -/
def erase (t : Table κ ν) (k : κ) : Table κ ν :=
  t.filterKeys fun k' => compare k k' != .eq

/-- Change the value under `k`, if there is one. -/
def modify (t : Table κ ν) (k : κ) (f : ν → ν) : Table κ ν :=
  ⟨modifyIn k f t.entries, ascending_modifyIn k f t.ascending⟩

variable [Std.TransOrd κ] [Std.LawfulEqOrd κ]

/-- Put `x` under `k`. -/
def insert (t : Table κ ν) (k : κ) (x : ν) : Table κ ν :=
  ⟨insertIn k x t.entries, ascending_insertIn k x t.ascending⟩

/-- Insert the entries one by one: of two with one key the later stays. -/
def ofList (entries : List (κ × ν)) : Table κ ν :=
  entries.foldl (fun t e => t.insert e.1 e.2) empty

end Operations

instance [Ord κ] [DecidableEq κ] [DecidableEq ν] : DecidableEq (Table κ ν)
  | ⟨a, _⟩, ⟨b, _⟩ =>
    if h : a = b then isTrue (by subst h; rfl) else isFalse (by intro e; cases e; exact h rfl)

/-! ## Lookups after an operation -/

section Lookups

variable [Ord κ]

@[simp] theorem find?_empty (k : κ) : (empty : Table κ ν).find? k = none := rfl

theorem lookupIn_filter (keep : κ → Bool) [Std.LawfulEqOrd κ] (k : κ) (l : List (κ × ν)) :
    lookupIn k (l.filter fun e => keep e.1) = if keep k then lookupIn k l else none := by
  induction l with
  | nil => simp [lookupIn]
  | cons e rest ih =>
    by_cases hk : compare k e.1 = .eq
    · have : k = e.1 := Std.LawfulEqOrd.eq_of_compare hk
      subst this
      by_cases hkeep : keep e.1 <;> simp_all [lookupIn]
    · by_cases hkeep : keep e.1 <;> simp_all [lookupIn]

theorem find?_filterKeys [Std.LawfulEqOrd κ] (keep : κ → Bool) (t : Table κ ν) (k : κ) :
    (t.filterKeys keep).find? k = if keep k then t.find? k else none :=
  lookupIn_filter keep k t.entries

@[simp] theorem find?_erase_self [Std.LawfulEqOrd κ] (t : Table κ ν) (k : κ) :
    (t.erase k).find? k = none := by
  simp [erase, find?_filterKeys]

theorem find?_erase_of_ne [Std.LawfulEqOrd κ] (t : Table κ ν) {k k' : κ} (h : k' ≠ k) :
    (t.erase k).find? k' = t.find? k' := by
  have : compare k k' ≠ .eq := fun e => h (Std.LawfulEqOrd.eq_of_compare e).symm
  simp [erase, find?_filterKeys, this]

theorem find?_modify_self [Std.LawfulEqOrd κ] (t : Table κ ν) (k : κ) (f : ν → ν) :
    (t.modify k f).find? k = (t.find? k).map f := by
  show lookupIn k (modifyIn k f t.entries) = (lookupIn k t.entries).map f
  induction t.entries with
  | nil => rfl
  | cons e rest ih => unfold modifyIn; split <;> simp_all [lookupIn]

theorem find?_modify_of_ne [Std.LawfulEqOrd κ] (t : Table κ ν) {k k' : κ} (h : k' ≠ k)
    (f : ν → ν) : (t.modify k f).find? k' = t.find? k' := by
  show lookupIn k' (modifyIn k f t.entries) = lookupIn k' t.entries
  induction t.entries with
  | nil => rfl
  | cons e rest ih =>
    unfold modifyIn
    split
    · next hke =>
      have hk' : compare k' e.1 ≠ .eq := by
        rw [← Std.LawfulEqOrd.eq_of_compare hke]
        exact fun he => h (Std.LawfulEqOrd.eq_of_compare he)
      simp [lookupIn, hk']
    · simp [lookupIn, ih]

theorem contains_of_contains_erase [Std.LawfulEqOrd κ] {t : Table κ ν} {k k' : κ}
    (h : (t.erase k).contains k' = true) : t.contains k' = true := by
  by_cases hk : k' = k
  · subst hk
    rw [contains, find?_erase_self] at h
    cases h
  · rwa [contains, find?_erase_of_ne _ hk] at h

@[simp] theorem contains_modify [DecidableEq κ] [Std.LawfulEqOrd κ] (t : Table κ ν) (k k' : κ)
    (f : ν → ν) : (t.modify k f).contains k' = t.contains k' := by
  by_cases hk : k' = k
  · subst hk
    rw [contains, find?_modify_self, Option.isSome_map, contains]
  · rw [contains, find?_modify_of_ne _ hk, contains]

variable [Std.TransOrd κ] [Std.LawfulEqOrd κ]

@[simp] theorem find?_insert_self (t : Table κ ν) (k : κ) (x : ν) :
    (t.insert k x).find? k = some x := by
  show lookupIn k (insertIn k x t.entries) = some x
  induction t.entries with
  | nil => simp [insertIn, lookupIn]
  | cons e rest ih => unfold insertIn; split <;> simp_all [lookupIn]

theorem find?_insert_of_ne (t : Table κ ν) {k k' : κ} (h : k' ≠ k) (x : ν) :
    (t.insert k x).find? k' = t.find? k' := by
  have hk : compare k' k ≠ .eq := fun e => h (Std.LawfulEqOrd.eq_of_compare e)
  show lookupIn k' (insertIn k x t.entries) = lookupIn k' t.entries
  induction t.entries with
  | nil => simp [insertIn, lookupIn, hk]
  | cons e rest ih =>
    unfold insertIn
    split
    · simp [lookupIn, hk]
    · next hke =>
      have : k = e.1 := Std.LawfulEqOrd.eq_of_compare hke
      simp [lookupIn, ← this, hk]
    · simp [lookupIn, ih]

theorem contains_insert_of_ne (t : Table κ ν) {k k' : κ} (h : k' ≠ k) (x : ν) :
    (t.insert k x).contains k' = t.contains k' := by
  rw [contains, find?_insert_of_ne _ h, contains]

omit [Std.TransOrd κ] [Std.LawfulEqOrd κ] in
theorem lookupIn_eq_none_of_lt {k : κ} {l : List (κ × ν)} (h : ∀ e ∈ l, compare k e.1 = .lt) :
    lookupIn k l = none := by
  induction l with
  | nil => rfl
  | cons e rest ih =>
    simp [lookupIn, h e List.mem_cons_self, ih fun a ha => h a (List.mem_cons_of_mem _ ha)]

omit [Std.TransOrd κ] in
theorem lookupIn_eq_some_iff {l : List (κ × ν)} (hl : Ascending l) {k : κ} {x : ν} :
    lookupIn k l = some x ↔ (k, x) ∈ l := by
  induction l with
  | nil => simp [lookupIn]
  | cons e rest ih =>
    obtain ⟨he, hrest⟩ := List.pairwise_cons.mp hl
    by_cases hk : compare k e.1 = .eq
    · have hke : k = e.1 := Std.LawfulEqOrd.eq_of_compare hk
      have hnot : ∀ y, (k, y) ∉ rest := fun y hy => by simp [← hke] at he; simpa using he _ _ hy
      subst hke
      simp [lookupIn, hnot, Prod.ext_iff, eq_comm]
    · have hke : k ≠ e.1 := fun h => hk (by simp [h])
      simp [lookupIn, hk, ih hrest, Prod.ext_iff, hke]

omit [Std.TransOrd κ] in
theorem find?_eq_some_iff {t : Table κ ν} {k : κ} {x : ν} :
    t.find? k = some x ↔ (k, x) ∈ t.entries :=
  lookupIn_eq_some_iff t.ascending

omit [Std.TransOrd κ] in
theorem size_erase {t : Table κ ν} {k : κ} (h : t.contains k = true) :
    (t.erase k).size + 1 = t.size := by
  have key : ∀ {l : List (κ × ν)}, Ascending l → (lookupIn k l).isSome = true →
      (l.filter fun e => compare k e.1 != .eq).length + 1 = l.length := by
    intro l
    induction l with
    | nil => exact fun _ h => nomatch h
    | cons e rest ih =>
      intro hl h
      obtain ⟨he, hrest⟩ := List.pairwise_cons.mp hl
      by_cases hk : compare k e.1 = .eq
      · have hke : k = e.1 := Std.LawfulEqOrd.eq_of_compare hk
        have hkept : (rest.filter fun a => compare k a.1 != .eq) = rest :=
          List.filter_eq_self.mpr fun a ha => by rw [hke, he a ha]; rfl
        rw [List.filter_cons_of_neg (by simp [hk]), hkept, List.length_cons]
      · rw [lookupIn, if_neg hk] at h
        rw [List.filter_cons_of_pos (by simpa using hk), List.length_cons, ih hrest h,
          List.length_cons]
  exact key t.ascending h

/-- A table is determined by its lookups. -/
theorem ext_find? {a b : Table κ ν} (h : ∀ k, a.find? k = b.find? k) : a = b := by
  have key : ∀ {l m : List (κ × ν)}, Ascending l → Ascending m →
      (∀ k, lookupIn k l = lookupIn k m) → l = m := by
    intro l
    induction l with
    | nil =>
      intro m _ _ h
      cases m with
      | nil => rfl
      | cons e rest => simpa [lookupIn] using h e.1
    | cons e rest ih =>
      intro m hl hm h
      cases m with
      | nil => simpa [lookupIn] using h e.1
      | cons f tail =>
        obtain ⟨he, hrest⟩ := List.pairwise_cons.mp hl
        obtain ⟨hf, htail⟩ := List.pairwise_cons.mp hm
        have hin : e ∈ f :: tail :=
          (lookupIn_eq_some_iff hm).mp (by rw [← h]; simp [lookupIn])
        have hin' : f ∈ e :: rest :=
          (lookupIn_eq_some_iff hl).mp (by rw [h]; simp [lookupIn])
        have hef : e = f := by
          rcases List.mem_cons.mp hin with rfl | h1
          · rfl
          · rcases List.mem_cons.mp hin' with rfl | h2
            · rfl
            · simpa using Std.TransCmp.lt_trans (he f h2) (hf e h1)
        subst hef
        refine congrArg _ (ih hrest htail fun k => ?_)
        by_cases hk : compare k e.1 = .eq
        · have hke : k = e.1 := Std.LawfulEqOrd.eq_of_compare hk
          rw [hke, lookupIn_eq_none_of_lt he, lookupIn_eq_none_of_lt hf]
        · simpa [lookupIn, hk] using h k
  cases a with
  | mk l hl => cases b with
    | mk m hm =>
      have : l = m := key hl hm h
      subst this
      rfl

end Lookups

end Table

end Herd
