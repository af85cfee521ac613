import Herd.Asset.Library
import Herd.Proofs.Asset.Registry
import Herd.Proofs.Resource.Id

/-!
# What a written id finds on a shelf

A shelf is searched in the order of ids, and the search takes an asset with no module for
one of any module, also where the query names a module. Ids with no module come first, so
the asset of a bare id is what every query of its name finds (`findFirst?_of_bare`); where
there is none, an id with a module finds the asset under its own key
(`findFirst?_of_no_bare`).

`findFirst?_ofRegistrations` says it of a whole history of registrations: an id that names a
module or is itself registered finds the last that was registered under the bare id of the
same name, and if there is none, the last that was registered under the id itself. Written
ids are compared by what they are read as (`lookup_ofRegistrations`), so texts that differ in
the case of ASCII letters find the same (`lookup_spelled`).
-/

namespace Herd

namespace ResourceId

/-- The key of the id with the same name and no module. -/
def bareKey (id : ResourceId) : Key := ⟨none, id.key.name⟩

/-- A query designates what has its name, unless both name modules and these differ. -/
theorem designates_iff {query candidate : ResourceId} : query.designates candidate = true ↔
    candidate.key.name = query.key.name ∧ (query.key.module = none ∨ candidate.key.module = none ∨
      candidate.key.module = query.key.module) := by
  unfold designates
  rw [Bool.and_eq_true, beq_iff_eq, eq_comm]
  refine and_congr_right fun _ => ?_
  cases query.key.module with
  | none => simp
  | some a =>
    cases candidate.key.module with
    | none => simp
    | some b => simpa using eq_comm

/-- No id of a name comes before the bare one. -/
theorem compare_bare_ne_gt (n : String) (k : Key) (hk : k.name = n) :
    compare (⟨none, n⟩ : Key) k ≠ .gt := by
  obtain ⟨m, n'⟩ := k
  obtain rfl : n' = n := hk
  show (compare none m).then (compare n' n') ≠ .gt
  cases m with
  | none => simp
  | some m => exact fun h => nomatch h

end ResourceId

open ResourceId (Key)

/-- The first entry that passes is the least of those that do. -/
theorem Table.find?_entries_eq_some {κ ν : Type*} [Ord κ] [Std.OrientedOrd κ] (t : Table κ ν)
    {p : κ × ν → Bool} {e : κ × ν} (he : e ∈ t.entries) (hp : p e = true)
    (hleast : ∀ e' ∈ t.entries, p e' = true → compare e.1 e'.1 ≠ .gt) :
    t.entries.find? p = some e := by
  obtain ⟨before, after, hentries⟩ := List.append_of_mem he
  refine List.find?_eq_some_iff_append.mpr ⟨hp, before, after, hentries, fun a ha => ?_⟩
  have hlt : compare a.1 e.1 = .lt := by
    have hascending := t.ascending
    rw [hentries] at hascending
    exact (List.pairwise_append.mp hascending).2.2 a ha e List.mem_cons_self
  rw [Bool.not_eq_true']
  refine Bool.eq_false_iff.mpr fun hpa => ?_
  refine hleast a (hentries ▸ List.mem_append_left _ ha) hpa ?_
  exact Std.OrientedCmp.gt_of_lt hlt

namespace Shelf

variable {α : Type}

/-- The asset under a key. -/
def at? (shelf : Shelf α) (k : Key) : Option α := (shelf.find? k).map (·.2)

/-! ## Registrations -/

/-- What is registered is found under the key of its id, and nothing else changes. -/
theorem find?_register (shelf : Shelf α) (id : ResourceId) (asset : α) (k : Key) :
    (shelf.register id asset).find? k =
      if (id.key == k) = true then some (((shelf.find? k).map (·.1)).getD id, asset)
      else shelf.find? k := by
  unfold register
  by_cases hk : id.key = k
  · rw [if_pos (beq_iff_eq.mpr hk), ← hk]
    cases shelf.find? id.key with
    | none => exact Table.find?_insert_self ..
    | some e => exact Table.find?_insert_self ..
  · rw [if_neg (mt beq_iff_eq.mp hk)]
    cases shelf.find? id.key with
    | none => exact Table.find?_insert_of_ne _ (Ne.symm hk) _
    | some e => exact Table.find?_insert_of_ne _ (Ne.symm hk) _

/-- A registration replaces what was under its key, and nothing else. -/
theorem at?_register (shelf : Shelf α) (id : ResourceId) (asset : α) (k : Key) :
    (shelf.register id asset).at? k =
      if (id.key == k) = true then some asset else shelf.at? k := by
  rw [at?, find?_register]
  split <;> rfl

/-- Registrations under different keys can be made in either order. -/
theorem register_comm (shelf : Shelf α) {id id' : ResourceId} (h : id.key ≠ id'.key)
    (asset asset' : α) : (shelf.register id asset).register id' asset' =
      (shelf.register id' asset').register id asset := by
  refine Table.ext_find? fun k => ?_
  by_cases hid : id.key = k
  · have hid' : id'.key ≠ k := fun h' => h (hid.trans h'.symm)
    simp [find?_register, hid, hid']
  · simp [find?_register, hid]

/-- The shelf on which assets were registered one after the other. -/
def ofRegistrations (regs : List (ResourceId × α)) : Shelf α :=
  regs.foldl (fun shelf r => shelf.register r.1 r.2) .empty

/-- The asset that was last registered under a key. -/
def lastUnder (k : Key) (regs : List (ResourceId × α)) : Option α :=
  (regs.filter fun r => r.1.key == k).getLast?.map (·.2)

/-- Under each key stands what was registered there last. -/
theorem at?_ofRegistrations (regs : List (ResourceId × α)) (k : Key) :
    (ofRegistrations regs).at? k = lastUnder k regs := by
  have hread := read_foldl_eq_last (fun shelf : Shelf α => shelf.at? k) (·.2)
    (fun r => r.1.key == k) (fun shelf r => shelf.at?_register r.1 r.2 k) regs .empty
  rw [ofRegistrations, hread]
  exact Option.or_none

/-- Something is registered under a key exactly if one of the registrations has it. -/
theorem isSome_lastUnder {k : Key} {regs : List (ResourceId × α)} :
    (lastUnder k regs).isSome = true ↔ ∃ r ∈ regs, r.1.key = k := by
  rw [lastUnder, Option.isSome_map, List.getLast?_isSome, ne_eq, List.filter_eq_nil_iff]
  simp only [not_forall, not_not, exists_prop, beq_iff_eq]

/-- Every id on the shelf is one of `ids`, and its asset lies under its key. -/
def Lists (shelf : Shelf α) (ids : List ResourceId) : Prop :=
  ∀ k e, shelf.find? k = some e → e.1.key = k ∧ e.1 ∈ ids

theorem Lists.register {shelf : Shelf α} {ids : List ResourceId} (h : shelf.Lists ids)
    {id : ResourceId} (hid : id ∈ ids) (asset : α) : (shelf.register id asset).Lists ids := by
  intro k e he
  rw [find?_register] at he
  split at he
  · next hk =>
    obtain rfl := Option.some.inj he
    cases hspelled : shelf.find? k with
    | none => exact ⟨beq_iff_eq.mp hk, hid⟩
    | some e => exact h k e hspelled
  · exact h k e he

/-- A shelf lists ids as they were first spelled, so each of them was registered. -/
theorem lists_ofRegistrations (regs : List (ResourceId × α)) :
    (ofRegistrations regs).Lists (regs.map (·.1)) := by
  have hfold : ∀ (ids : List ResourceId) (rest : List (ResourceId × α)),
      (∀ r ∈ rest, r.1 ∈ ids) → ∀ shelf : Shelf α, shelf.Lists ids →
        (rest.foldl (fun shelf r => shelf.register r.1 r.2) shelf).Lists ids := by
    intro ids rest
    induction rest with
    | nil => exact fun _ shelf h => h
    | cons r rest ih =>
      intro hrest shelf h
      exact ih (fun q hq => hrest q (List.mem_cons_of_mem _ hq)) _
        (h.register (hrest r List.mem_cons_self) r.2)
  refine hfold _ regs (fun r hr => List.mem_map_of_mem hr) .empty fun k e he => ?_
  exact absurd he (Option.some_ne_none e).symm

/-! ## Search -/

section Search

variable {shelf : Shelf α} {ids : List ResourceId} {query : ResourceId} {a : α}

theorem findFirst?_eq_map (shelf : Shelf α) (query : ResourceId) : shelf.findFirst? query =
    (shelf.entries.find? fun e => query.designates e.2.1).map (·.2.2) := by
  rw [findFirst?, Table.values, List.find?_map, Option.map_map]
  rfl

/-- A query finds by its key, not by its spelling. -/
theorem findFirst?_congr (shelf : Shelf α) {q q' : ResourceId} (h : q.key = q'.key) :
    shelf.findFirst? q = shelf.findFirst? q' := by
  simp only [findFirst?, ResourceId.designates, h]

/-- The asset under a key is found where the key is the least that the query designates. -/
theorem findFirst?_of_least (h : shelf.Lists ids) {k : Key} (ha : shelf.at? k = some a)
    (hk : ∀ id : ResourceId, id.key = k → query.designates id = true)
    (hleast : ∀ id : ResourceId, query.designates id = true → (shelf.at? id.key).isSome = true →
      compare k id.key ≠ .gt) :
    shelf.findFirst? query = some a := by
  obtain ⟨e, he, rfl⟩ := Option.map_eq_some_iff.mp ha
  have hfind : shelf.entries.find? (fun e => query.designates e.2.1) = some (k, e) := by
    refine Table.find?_entries_eq_some shelf (Table.find?_eq_some_iff.mp he) (hk _ (h k e he).1)
      fun e' he' hdesignates => ?_
    have hfind' := Table.find?_eq_some_iff.mpr he'
    have hkey := (h e'.1 e'.2 hfind').1
    refine hkey ▸ hleast e'.2.1 hdesignates ?_
    rw [hkey, at?, hfind']
    rfl
  rw [findFirst?_eq_map, hfind]
  rfl

/-- A query finds nothing where nothing lies under what it designates. -/
theorem findFirst?_eq_none (h : shelf.Lists ids)
    (hnone : ∀ id : ResourceId, query.designates id = true → shelf.at? id.key = none) :
    shelf.findFirst? query = none := by
  rw [findFirst?_eq_map, Option.map_eq_none_iff, List.find?_eq_none]
  intro e he hdesignates
  have hfind := Table.find?_eq_some_iff.mpr he
  have hat := hnone e.2.1 hdesignates
  rw [(h e.1 e.2 hfind).1, at?, hfind] at hat
  cases hat

/-- **The asset of a bare id is found by every query of its name.** -/
theorem findFirst?_of_bare (h : shelf.Lists ids) (ha : shelf.at? query.bareKey = some a) :
    shelf.findFirst? query = some a := by
  refine findFirst?_of_least h ha (fun id hid => ?_) fun id hdesignates _ => ?_
  · rw [ResourceId.designates_iff, hid]
    exact ⟨rfl, .inr (.inl rfl)⟩
  · exact ResourceId.compare_bare_ne_gt _ _ (ResourceId.designates_iff.mp hdesignates).1

/-- **Where no bare id of its name is taken, an id with a module finds its own asset.** -/
theorem findFirst?_of_no_bare (h : shelf.Lists ids) (hnone : shelf.at? query.bareKey = none)
    (hmodule : query.key.module ≠ none) : shelf.findFirst? query = shelf.at? query.key := by
  -- whatever is designated and not bare has the key of the query
  have hown : ∀ id : ResourceId, query.designates id = true →
      id.key = query.bareKey ∨ id.key = query.key := by
    intro id hid
    obtain ⟨hname, hor⟩ := ResourceId.designates_iff.mp hid
    rcases hor with hor | hor | hor
    · exact absurd hor hmodule
    · exact .inl (by rw [ResourceId.bareKey, ← hname, ← hor])
    · have hparts : (⟨id.key.module, id.key.name⟩ : Key) = ⟨query.key.module, query.key.name⟩ := by
        rw [hor, hname]
      exact .inr hparts
  cases ha : shelf.at? query.key with
  | none =>
    refine findFirst?_eq_none h fun id hid => ?_
    rcases hown id hid with hid | hid <;> rw [hid]
    · exact hnone
    · exact ha
  | some a =>
    refine findFirst?_of_least h ha (fun id hid => ?_) fun id hid hsome => ?_
    · rw [ResourceId.designates_iff, hid]
      exact ⟨rfl, .inr (.inr rfl)⟩
    · rcases hown id hid with hid | hid
      · rw [hid, hnone] at hsome
        cases hsome
      · rw [hid, Std.ReflOrd.compare_self]
        exact fun h => nomatch h

end Search

/-! ## Written ids -/

/-- A text by which an id can be looked up: the written form of the id, which is one that can be
read, in any spelling. -/
structure Names (s : String) (id : ResourceId) : Prop where
  issued : id.Issued
  readable : ∃ q, ResourceId.parse id.text = .ok q
  spelled : Text.lowerAscii s = Text.lowerAscii id.text

/-- A text that names an id is read as an id that is the same. -/
theorem Names.parse {s : String} {id : ResourceId} (h : Names s id) :
    ∃ q, ResourceId.parse s = .ok q ∧ q.key = id.key := by
  obtain ⟨q, hq⟩ := h.readable
  obtain rfl : q = id := h.issued.eq_of_parse hq
  exact (ResourceId.parse_eq_ok_iff.mp hq).1.parse_spelled h.spelled.symm

/-- What a query finds that names a module or is itself registered: the last asset under the bare
id of its name, or else the last under itself. -/
theorem findFirst?_ofRegistrations (regs : List (ResourceId × α)) {q : ResourceId}
    (h : q.key.module ≠ none ∨ ∃ r ∈ regs, r.1.key = q.key) :
    (ofRegistrations regs).findFirst? q = (lastUnder q.bareKey regs).or (lastUnder q.key regs) := by
  have hlists := lists_ofRegistrations regs
  rw [← at?_ofRegistrations, ← at?_ofRegistrations]
  cases hbare : (ofRegistrations regs).at? q.bareKey with
  | some a => exact findFirst?_of_bare hlists hbare
  | none =>
    refine findFirst?_of_no_bare hlists hbare fun hmodule => ?_
    -- a bare query is itself registered, so something is there
    obtain ⟨r, hr, hkey⟩ := h.resolve_left (absurd hmodule)
    have hsome : (lastUnder q.bareKey regs).isSome = true := by
      refine isSome_lastUnder.mpr ⟨r, hr, ?_⟩
      rw [hkey, ResourceId.bareKey, ← hmodule]
    rw [at?_ofRegistrations] at hbare
    rw [hbare] at hsome
    cases hsome

/-- **What a registered id finds**: the last asset under the bare id of its name, or else the last
under itself. -/
theorem lookup_ofRegistrations {regs : List (ResourceId × α)} {s : String} {id : ResourceId}
    (h : Names s id) (hid : id ∈ regs.map (·.1)) : (ofRegistrations regs).lookup s =
      (lastUnder id.bareKey regs).or (lastUnder id.key regs) := by
  obtain ⟨q, hq, hkey⟩ := h.parse
  obtain ⟨r, hr, hrid⟩ := List.mem_map.mp hid
  rw [lookup, hq]
  show (ofRegistrations regs).findFirst? q = _
  rw [findFirst?_congr _ hkey, findFirst?_ofRegistrations regs (.inr ⟨r, hr, by rw [hrid]⟩)]

/-- Texts that differ in the case of ASCII letters find the same. -/
theorem lookup_spelled (shelf : Shelf α) {s t : String}
    (h : Text.lowerAscii s = Text.lowerAscii t) : shelf.lookup s = shelf.lookup t := by
  cases hs : ResourceId.parse s with
  | ok q =>
    obtain ⟨hwell, rfl⟩ := ResourceId.parse_eq_ok_iff.mp hs
    obtain ⟨q', ht, hkey⟩ := hwell.parse_spelled h
    rw [lookup, lookup, hs, ht]
    exact shelf.findFirst?_congr hkey.symm
  | error f =>
    cases ht : ResourceId.parse t with
    | ok q' =>
      -- the one can be read as the other can
      obtain ⟨hwell, rfl⟩ := ResourceId.parse_eq_ok_iff.mp ht
      obtain ⟨q, hq, -⟩ := hwell.parse_spelled h.symm
      rw [hs] at hq
      cases hq
    | error f' => rw [lookup, lookup, hs, ht]

end Shelf

end Herd
