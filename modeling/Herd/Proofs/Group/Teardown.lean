import Herd.Group.Teardown
import Herd.Proofs.World.Population

/-!
# What a teardown leaves

Entities that are destroyed one after another are gone, and nothing else is (`Population.Cleared`).
If each of them is there and is listed once, all of them are reported and the population is smaller
by their number (`Population.cleared_destroyAll`).

A teardown does so twice. The second list is made when the first entities are gone, so an entity
that carries both a hivemind and a tag is on the first list only, and the two are as one list of
entities without repetition (`Coordinator.teardown_exact`).
-/

namespace Herd

open EntityStore SteadyStore

namespace Population

variable {es es' : List EntityId} {p q r : Population} {e : EntityId}

/-- From `p` to `q` the entities `es` were there and are gone, with their marks, and everything else
is as it was. -/
structure Cleared (es : List EntityId) (p q : Population) : Prop where
  there : ∀ e ∈ es, p.contains e = true
  records : ∀ e, q.records.find? e = if e ∈ es then none else p.records.find? e
  readOnly : q.readOnly = p.readOnly.filter (· ∉ es)
  lastId : q.lastId = p.lastId
  size : es.length + q.size = p.size

theorem Cleared.refl (p : Population) : Cleared [] p p := by
  refine ⟨nofun, fun e => (if_neg List.not_mem_nil).symm, ?_, rfl, Nat.zero_add _⟩
  exact (List.filter_eq_self.mpr fun e _ => decide_eq_true List.not_mem_nil).symm

/-- What is left are the entities that were there and are not listed. -/
theorem Cleared.contains_eq (h : Cleared es p q) (e : EntityId) :
    q.contains e = (decide (e ∉ es) && p.contains e) := by
  rw [contains, contains, Table.contains, Table.contains, h.records]
  by_cases he : e ∈ es <;> simp [he]

/-- What is cleared is what was there and is gone. -/
theorem Cleared.mem_iff (h : Cleared es p q) :
    e ∈ es ↔ p.contains e = true ∧ ¬ q.contains e = true := by
  rw [h.contains_eq]
  by_cases he : e ∈ es
  · simp [he, h.there e he]
  · simp [he]

/-- What is left keeps its components. -/
theorem Cleared.get?_eq (h : Cleared es p q) (e : EntityId) (kind : ComponentKind) :
    (get? e kind q : Option kind.Payload) = if e ∈ es then none else get? e kind p := by
  show (q.records.find? e).bind _ = _
  rw [h.records]
  split <;> rfl

/-- Two lists that are cleared one after another are cleared as one. -/
theorem Cleared.append (h : Cleared es p q) (h' : Cleared es' q r) : Cleared (es ++ es') p r := by
  refine ⟨fun e he => ?_, fun e => ?_, ?_, h'.lastId.trans h.lastId, ?_⟩
  · rcases List.mem_append.mp he with he | he
    · exact h.there e he
    · have hthere := h'.there e he
      rw [h.contains_eq, Bool.and_eq_true] at hthere
      exact hthere.2
  · rw [h'.records, h.records]
    by_cases he : e ∈ es <;> simp [he]
  · rw [h'.readOnly, h.readOnly, List.filter_filter]
    refine List.filter_congr fun e _ => ?_
    simp [Bool.and_comm]
  · rw [List.length_append, Nat.add_assoc, h'.size, h.size]

/-- An entity that is there is cleared when it is destroyed. -/
theorem cleared_destroy (h : p.contains e = true) : Cleared [e] p (destroy e p).2 := by
  refine ⟨fun d hd => List.mem_singleton.mp hd ▸ h, fun d => ?_, ?_, rfl, ?_⟩
  · show (p.records.erase e).find? d = _
    by_cases hd : d = e
    · rw [hd, Table.find?_erase_self, if_pos (List.mem_singleton_self e)]
    · rw [Table.find?_erase_of_ne _ hd, if_neg fun hmem => hd (List.mem_singleton.mp hmem)]
  · show p.readOnly.filter (· ≠ e) = _
    refine List.filter_congr fun d _ => ?_
    simp
  · show 1 + (p.records.erase e).size = p.records.size
    rw [Nat.add_comm, Table.size_erase h]

/-- **Entities that are there and are listed once are all destroyed**, and all are reported. -/
theorem cleared_destroyAll (hnodup : es.Nodup) :
    ∀ {p : Population}, (∀ e ∈ es, p.contains e = true) →
      (destroyAll es p).1 = es ∧ Cleared es p (destroyAll es p).2 := by
  induction es with
  | nil => exact fun {p} _ => ⟨rfl, .refl p⟩
  | cons d rest ih =>
    intro p hthere
    obtain ⟨hd, hrest⟩ := List.nodup_cons.mp hnodup
    have hfirst : Cleared [d] p (destroy d p).2 := cleared_destroy (hthere d List.mem_cons_self)
    -- the others are still there when `d` is gone
    have hleft : ∀ e ∈ rest, (destroy d p).2.contains e = true := by
      intro e he
      have hne : e ∉ [d] := fun hmem => hd (List.mem_singleton.mp hmem ▸ he)
      rw [hfirst.contains_eq, decide_eq_true hne, Bool.true_and]
      exact hthere e (List.mem_cons_of_mem d he)
    obtain ⟨hlist, hcleared⟩ := ih hrest hleft
    refine ⟨?_, hfirst.append hcleared⟩
    have hfound : (destroy d p).1 = true := hthere d List.mem_cons_self
    show (if (destroy d p).1 then d :: (destroyAll rest (destroy d p).2).1 else _) = _
    rw [if_pos hfound, hlist]

/-- So it is with the entities that have a component of a kind. -/
theorem cleared_entitiesWith (kind : ComponentKind) (p : Population) :
    (destroyAll (entitiesWith kind p) p).1 = entitiesWith kind p ∧
      Cleared (entitiesWith kind p) p (destroyAll (entitiesWith kind p) p).2 := by
  refine cleared_destroyAll (nodup_of_ascending (ascending_entitiesWith kind p)) fun e he => ?_
  obtain ⟨x, hx⟩ := Option.isSome_iff_exists.mp (mem_entitiesWith.mp he)
  exact contains_of_get? hx

end Population

open Population

/-- What a teardown comes to, exactly: the report `r` of it, and the population `q` that it leaves
of `p`. -/
structure TeardownReport.Exact (r : TeardownReport) (p q : Population) : Prop where
  survivors : ∀ e record, q.records.find? e = some record ↔
    p.records.find? e = some record ∧ record.hivemind = none ∧ record.groupTag = none
  hiveminds : ∀ e, e ∈ r.hiveminds ↔ (get? e .hivemind p : Option Hivemind).isSome = true
  tagged : ∀ e, e ∈ r.tagged ↔ (get? e .groupTag p : Option GroupTag).isSome = true ∧
    (get? e .hivemind p : Option Hivemind) = none
  destroyed : ∀ e, e ∈ r.hiveminds ++ r.tagged ↔ p.contains e = true ∧ ¬ q.contains e = true
  nodup : (r.hiveminds ++ r.tagged).Nodup
  ascending : (r.hiveminds.Pairwise fun a b => a.raw < b.raw) ∧
    r.tagged.Pairwise fun a b => a.raw < b.raw
  total : r.total + q.size = p.size
  readOnly : q.readOnly = p.readOnly.filter (· ∉ r.hiveminds ++ r.tagged)
  lastId : q.lastId = p.lastId

namespace Coordinator

variable (c : Coordinator Population) {e : EntityId}

/-- What is left when the hiveminds are gone. -/
def unled : Population := (destroyAll (entitiesWith .hivemind c.store) c.store).2

/-- The hiveminds go first, and then the tagged entities that are left. -/
theorem teardown_lists :
    c.teardown.1 = ⟨entitiesWith .hivemind c.store, entitiesWith .groupTag c.unled⟩ ∧
      Cleared (entitiesWith .hivemind c.store) c.store c.unled ∧
      Cleared (entitiesWith .groupTag c.unled) c.unled c.teardown.2.store := by
  obtain ⟨hhiveminds, hfirst⟩ := cleared_entitiesWith .hivemind c.store
  obtain ⟨htagged, hsecond⟩ := cleared_entitiesWith .groupTag c.unled
  refine ⟨?_, hfirst, hsecond⟩
  show TeardownReport.mk _ (destroyAll (entitiesWith .groupTag c.unled) c.unled).1 = _
  rw [hhiveminds, htagged]

variable {c}

/-- The second list leaves out what was on the first. -/
theorem mem_tagged_unled : e ∈ entitiesWith .groupTag c.unled ↔
    (get? e .groupTag c.store : Option GroupTag).isSome = true ∧
      (get? e .hivemind c.store : Option Hivemind) = none := by
  have hfirst := c.teardown_lists.2.1
  rw [mem_entitiesWith, hfirst.get?_eq]
  by_cases he : e ∈ entitiesWith .hivemind c.store
  · have hhive := mem_entitiesWith.mp he
    rw [if_pos he]
    exact ⟨nofun, fun h => by rw [h.2] at hhive; cases hhive⟩
  · have hnone := Option.not_isSome_iff_eq_none.mp fun h => he (mem_entitiesWith.mpr h)
    rw [if_neg he]
    exact ⟨fun h => ⟨h, hnone⟩, fun h => h.1⟩

/-- Between them the lists have whatever carries a hivemind or a tag. -/
theorem mem_torn_down {record : EntityRecord} (hrecord : c.store.records.find? e = some record) :
    e ∈ entitiesWith .hivemind c.store ++ entitiesWith .groupTag c.unled ↔
      ¬ (record.hivemind = none ∧ record.groupTag = none) := by
  have hhive : (get? e .hivemind c.store : Option Hivemind) = record.hivemind := by
    show (c.store.records.find? e).bind _ = _
    rw [hrecord]
    rfl
  have htag : (get? e .groupTag c.store : Option GroupTag) = record.groupTag := by
    show (c.store.records.find? e).bind _ = _
    rw [hrecord]
    rfl
  rw [List.mem_append, mem_tagged_unled, mem_entitiesWith, hhive, htag]
  cases record.hivemind <;> cases record.groupTag <;> simp

/-- The report of a teardown lists who was there with a hivemind or a tag, and is gone. -/
theorem exact_teardown (c : Coordinator Population) :
    c.teardown.1.Exact c.store c.teardown.2.store := by
  obtain ⟨hreport, hfirst, hsecond⟩ := c.teardown_lists
  have hcleared := hfirst.append hsecond
  rw [hreport]
  refine ⟨fun e record => ?_, fun e => mem_entitiesWith, fun e => mem_tagged_unled,
    fun e => hcleared.mem_iff, ?_, ⟨?_, ?_⟩, ?_, hcleared.readOnly, hcleared.lastId⟩
  · rw [hcleared.records]
    split
    · next he =>
      refine ⟨nofun, fun ⟨hrecord, hnone⟩ => absurd hnone ((mem_torn_down hrecord).mp he)⟩
    · next he =>
      refine ⟨fun hrecord => ⟨hrecord, ?_⟩, fun h => h.1⟩
      exact Classical.not_not.mp fun h => he ((mem_torn_down hrecord).mpr h)
  · refine List.nodup_append.mpr ⟨nodup_of_ascending (ascending_entitiesWith _ _),
      nodup_of_ascending (ascending_entitiesWith _ _), ?_⟩
    rintro e he _ he' rfl
    have hhive := mem_entitiesWith.mp he
    rw [(mem_tagged_unled.mp he').2] at hhive
    cases hhive
  · exact (ascending_entitiesWith .hivemind c.store).imp Nat.compare_eq_lt.mp
  · exact (ascending_entitiesWith .groupTag c.unled).imp Nat.compare_eq_lt.mp
  · rw [TeardownReport.total, ← List.length_append]
    exact hcleared.size

/-- Where there are no group entities, a teardown does nothing. -/
theorem teardown_of_none
    (h : ∀ e record, c.store.records.find? e = some record →
      record.hivemind = none ∧ record.groupTag = none) :
    c.teardown = (⟨[], []⟩, c) := by
  have hnil : ∀ kind : ComponentKind, (∀ e, (get? e kind c.store : Option kind.Payload) = none) →
      entitiesWith kind c.store = [] := by
    intro kind hnone
    refine List.eq_nil_iff_forall_not_mem.mpr fun e he => ?_
    have hsome := mem_entitiesWith.mp he
    rw [hnone] at hsome
    cases hsome
  have hhiveminds := hnil .hivemind fun e =>
    Option.bind_eq_none_iff.mpr fun record hrecord => (h e record hrecord).1
  have htagged := hnil .groupTag fun e =>
    Option.bind_eq_none_iff.mpr fun record hrecord => (h e record hrecord).2
  simp only [teardown, hhiveminds, htagged, destroyAll]

/-- **A teardown removes exactly the group entities, and reports each once.** What is left are the
entities that carry neither a hivemind nor a tag, each as it was. The report lists the hiveminds and
the other tagged entities, each list ascending and no entity twice, and its total is what the
population has lost. A second teardown finds nothing. -/
theorem teardown_exact (c : Coordinator Population) :
    c.teardown.1.Exact c.store c.teardown.2.store ∧
      c.teardown.2 = { c with store := c.teardown.2.store } ∧
      c.teardown.2.teardown = (⟨[], []⟩, c.teardown.2) := by
  refine ⟨c.exact_teardown, rfl, teardown_of_none fun e record hrecord => ?_⟩
  exact ((c.exact_teardown.survivors e record).mp hrecord).2

/-- An entity that carries both goes as a hivemind. -/
example :
    let both := { EntityRecord.ofName "alpha" with
      groupTag := some (.ofLabel "herd"), hivemind := some (.empty "herd") }
    let p := (Population.empty.spawn both).2
    let c : Coordinator Population := ⟨p, .empty, .standard, .empty, 0⟩
    c.teardown.1 = ⟨[⟨1⟩], []⟩ := by decide

end Coordinator

end Herd
