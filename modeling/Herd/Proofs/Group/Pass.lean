import Herd.Group.Report
import Herd.Proofs.World.Steady

/-!
# Passes over local turns

On a steady store a step is `LocalAt` an entity if it reads and changes components of
that entity only, and tallies that entity only. In a pass over distinct entities whose
turns are local, each of them gets the turn it would get on the store as it was before
the pass (`Tally.pass_of_mem`), and no other entity is concerned
(`Tally.pass_of_not_mem`). So the tally of the pass is that of these turns, one after
another (`Tally.fst_pass`).
-/

namespace Herd

open EntityStore SteadyStore

/-! ## What a tally says about one entity -/

namespace Tally

variable {e e' : EntityId} {a b t : Tally}

theorem ext {a b : Tally} (haffected : a.affected = b.affected) (hskipped : a.skipped = b.skipped)
    (hfailures : a.failures = b.failures) : a = b := by
  cases a
  cases b
  simp only at haffected hskipped hfailures
  rw [haffected, hskipped, hfailures]

@[simp] theorem empty_append (t : Tally) : ∅ ++ t = t := rfl

@[simp] theorem append_empty (t : Tally) : t ++ ∅ = t :=
  ext (List.append_nil _) (List.append_nil _) (List.append_nil _)

/-- The entries about one entity. -/
def about (e : EntityId) (t : Tally) : Tally :=
  ⟨t.affected.filter (· = e), t.skipped.filter (·.1 = e), t.failures.filter (·.1 = e)⟩

@[simp] theorem about_empty (e : EntityId) : about e ∅ = ∅ := rfl

/-- What two tallies say about an entity is what the one says and then the other. -/
@[simp] theorem about_append (e : EntityId) (a b : Tally) :
    (a ++ b).about e = a.about e ++ b.about e :=
  ext (List.filter_append ..) (List.filter_append ..) (List.filter_append ..)

@[simp] theorem about_affect (e : EntityId) : (affect e).about e = affect e := by
  simp [about, affect]

@[simp] theorem about_skip (e : EntityId) (reason : SkipReason) :
    (skip e reason).about e = skip e reason := by
  simp [about, skip]

@[simp] theorem about_fail (e : EntityId) (fault : Fault) :
    (fail e fault).about e = fail e fault := by
  simp [about, fail]

/-- What is tallied of each entity, one after another. -/
def each (tally : EntityId → Tally) : List EntityId → Tally
  | [] => ∅
  | e :: rest => tally e ++ each tally rest

/-- What is tallied of a list depends on the entities on it only. -/
theorem each_congr {f g : EntityId → Tally} {es : List EntityId} (h : ∀ e ∈ es, f e = g e) :
    each f es = each g es := by
  induction es with
  | nil => rfl
  | cons d rest ih =>
    rw [each, each, h d List.mem_cons_self, ih fun e he => h e (List.mem_cons_of_mem d he)]

/-- Entries about one entity are not about another. -/
theorem about_eq_empty_of_ne (h : t.about e = t) (hne : e' ≠ e) : t.about e' = ∅ := by
  rw [← h]
  refine ext ?_ ?_ ?_
  · refine List.filter_eq_nil_iff.mpr fun a ha => ?_
    have hae : a = e := by simpa using (List.mem_filter.mp ha).2
    simpa [hae] using hne.symm
  · refine List.filter_eq_nil_iff.mpr fun a ha => ?_
    have hae : a.1 = e := by simpa using (List.mem_filter.mp ha).2
    simpa [hae] using hne.symm
  · refine List.filter_eq_nil_iff.mpr fun a ha => ?_
    have hae : a.1 = e := by simpa using (List.mem_filter.mp ha).2
    simpa [hae] using hne.symm

end Tally

/-! ## Local steps -/

variable {σ : Type} [EntityStore σ] [SteadyStore σ] {e : EntityId} {s t : σ}

/-- A step that tallies, reads and changes one entity and nothing else. -/
structure LocalAt (e : EntityId) (f : σ → Tally × σ) : Prop where
  tally : ∀ s, (f s).1.about e = (f s).1
  keeps : ∀ s, Keeps e s (f s).2
  agree : ∀ {s t}, AgreeAt e s t → (f s).1 = (f t).1 ∧ AgreeAt e (f s).2 (f t).2

/-- A step that only tallies. -/
theorem LocalAt.const {tally : Tally} (h : tally.about e = tally) :
    LocalAt e fun s : σ => (tally, s) :=
  ⟨fun _ => h, fun s => Keeps.refl e s, fun hst => ⟨rfl, hst⟩⟩

/-- A step that is local for each value of a component of the entity. -/
theorem LocalAt.read (kind : ComponentKind) {f : σ → Tally × σ}
    (hf : ∀ x : Option kind.Payload,
      ∃ g, LocalAt e g ∧ ∀ s, get? e kind s = x → f s = g s) : LocalAt e f := by
  refine ⟨fun s => ?_, fun s => ?_, fun {s t} hst => ?_⟩
  · obtain ⟨g, hg, hfg⟩ := hf (get? e kind s)
    rw [hfg s rfl]
    exact hg.tally s
  · obtain ⟨g, hg, hfg⟩ := hf (get? e kind s)
    rw [hfg s rfl]
    exact hg.keeps s
  · obtain ⟨g, hg, hfg⟩ := hf (get? e kind s)
    rw [hfg s rfl, hfg t (hst.components kind).symm]
    exact hg.agree hst

/-- One step after another. -/
theorem LocalAt.append {f g : σ → Tally × σ} (hf : LocalAt e f) (hg : LocalAt e g) :
    LocalAt e fun s => ((f s).1 ++ (g (f s).2).1, (g (f s).2).2) := by
  refine ⟨fun s => ?_, fun s => (hf.keeps s).trans (hg.keeps (f s).2), fun {s t} hst => ?_⟩
  · rw [Tally.about_append, hf.tally, hg.tally]
  · obtain ⟨htally, hst'⟩ := hf.agree hst
    obtain ⟨htally', hst''⟩ := hg.agree hst'
    exact ⟨by rw [htally, htally'], hst''⟩

/-! ## Passes -/

namespace Tally

variable {turn : EntityId → σ → Tally × σ}

/-- An entity that has no turn is not concerned. -/
theorem pass_of_not_mem (hturn : ∀ e, LocalAt e (turn e)) :
    ∀ {es : List EntityId}, e ∉ es → ∀ s, (pass turn es s).1.about e = ∅ ∧
      AgreeAt e s (pass turn es s).2 := by
  intro es
  induction es with
  | nil => exact fun _ s => ⟨rfl, AgreeAt.refl e s⟩
  | cons d rest ih =>
    intro he s
    have hne : e ≠ d := fun h => he (h ▸ List.mem_cons_self)
    obtain ⟨hrest, hagree⟩ := ih (fun h => he (List.mem_cons_of_mem d h)) (turn d s).2
    refine ⟨?_, ((hturn d).keeps s |>.others e hne).trans hagree⟩
    show ((turn d s).1 ++ (pass turn rest (turn d s).2).1).about e = ∅
    rw [about_append, about_eq_empty_of_ne ((hturn d).tally s) hne, hrest]
    rfl

/-- **In a pass each entity gets the turn it would get before the pass**, and is then left alone. -/
theorem pass_of_mem (hturn : ∀ e, LocalAt e (turn e)) :
    ∀ {es : List EntityId}, es.Nodup → e ∈ es → ∀ s,
      (pass turn es s).1.about e = (turn e s).1 ∧
        AgreeAt e (turn e s).2 (pass turn es s).2 := by
  intro es
  induction es with
  | nil => exact fun _ he _ => absurd he List.not_mem_nil
  | cons d rest ih =>
    intro hnodup he s
    obtain ⟨hd, hrest⟩ := List.nodup_cons.mp hnodup
    have htally : (pass turn (d :: rest) s).1.about e =
        (turn d s).1.about e ++ (pass turn rest (turn d s).2).1.about e := about_append ..
    rw [htally]
    by_cases hde : e = d
    · subst hde
      obtain ⟨hempty, hagree⟩ := pass_of_not_mem hturn hd (turn e s).2
      rw [hempty, (hturn e).tally, append_empty]
      exact ⟨rfl, hagree⟩
    · have hin : e ∈ rest := (List.mem_cons.mp he).resolve_left hde
      -- the turn of `d` leaves `e` as it was, so `e` has the same turn after it
      obtain ⟨hsame, hafter⟩ := (hturn e).agree (((hturn d).keeps s).others e hde)
      obtain ⟨hturn', hagree⟩ := ih hrest hin (turn d s).2
      rw [about_eq_empty_of_ne ((hturn d).tally s) hde, empty_append, hturn', ← hsame]
      exact ⟨rfl, hafter.trans hagree⟩

/-- **A pass over distinct entities tallies their turns in order**, each as it would be before the
pass. -/
theorem fst_pass (hturn : ∀ e, LocalAt e (turn e)) :
    ∀ {es : List EntityId}, es.Nodup → ∀ s,
      (pass turn es s).1 = each (fun e => (turn e s).1) es := by
  intro es
  induction es with
  | nil => exact fun _ _ => rfl
  | cons d rest ih =>
    intro hnodup s
    obtain ⟨hd, hrest⟩ := List.nodup_cons.mp hnodup
    -- the turn of `d` leaves the entities behind it as they were, and so their turns
    have hsame : ∀ e ∈ rest, (turn e (turn d s).2).1 = (turn e s).1 := by
      intro e he
      have hed : e ≠ d := fun h => hd (h ▸ he)
      exact ((hturn e).agree (((hturn d).keeps s).others e hed)).1.symm
    show (turn d s).1 ++ (pass turn rest (turn d s).2).1 = _
    rw [ih hrest, each_congr hsame, each]

end Tally

end Herd
