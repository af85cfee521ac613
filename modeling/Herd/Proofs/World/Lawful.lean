import Herd.Proofs.World.Population
import Herd.World.Gate

/-!
# Lawful stores

A store may refuse any write, and refuse it now and not the next time. It is lawful if even so a
write that it admits changes the component it names and nothing else, one that it refuses changes
no component, a created entity has none, and destroying an entity takes its components only.

So what holds of each component in a lawful store is kept by everything that is done to the store,
as long as it holds of what is saved (`Each`). Populations are lawful, alone and behind any gate.
-/

namespace Herd

open EntityStore SteadyStore

section Outcomes

variable {σ : Type} [EntityStore σ]

/-- A component of an entity was set or cleared, and no other component has changed. -/
structure Sets (e : EntityId) (kind : ComponentKind) (x : Option kind.Payload) (s s' : σ) :
    Prop where
  written : get? e kind s' = x
  kinds : ∀ kind', kind' ≠ kind → get? e kind' s' = get? e kind' s
  others : ∀ e', e' ≠ e → ∀ kind', get? e' kind' s' = get? e' kind' s

/-- No component has changed. -/
def SameComponents (s s' : σ) : Prop := ∀ e kind, get? e kind s' = get? e kind s

/-- What may come of a write that is to set or clear a component: it does so and nothing else, or it
is refused and no component has changed. -/
def Obeys {α : Type} (e : EntityId) (kind : ComponentKind) (x : Option kind.Payload) (s : σ) :
    Except StoreFault α × σ → Prop
  | (.ok _, s') => Sets e kind x s s'
  | (.error _, s') => SameComponents s s'

end Outcomes

/-- A store that does what it admits and nothing else. -/
class LawfulStore (σ : Type) [EntityStore σ] : Prop where
  save_obeys : ∀ (e : EntityId) (kind : ComponentKind) (x : kind.Payload) (s : σ),
    Obeys e kind (some x) s (save e kind x s)
  remove_obeys : ∀ (e : EntityId) (kind : ComponentKind) (s : σ),
    Obeys e kind none s (remove e kind s)
  same_of_create : ∀ (name : String) (s : σ), SameComponents s (create name s).2
  get?_destroy : ∀ (d : EntityId) (s : σ) (e : EntityId) (kind : ComponentKind),
    get? e kind (destroy d s).2 = if e = d then none else get? e kind s

open LawfulStore

/-! ## What holds of each component -/

section Each

variable {σ : Type} [EntityStore σ] {P : EntityId → (kind : ComponentKind) → kind.Payload → Prop}
  {s s' : σ}

/-- Each component in the store is `P`. -/
def Each (P : EntityId → (kind : ComponentKind) → kind.Payload → Prop) (s : σ) : Prop :=
  ∀ (e : EntityId) (kind : ComponentKind) (x : kind.Payload), get? e kind s = some x → P e kind x

/-- What holds of each component holds where all components are the same. -/
theorem Each.of_same (h : Each P s) (hsame : SameComponents s s') : Each P s' :=
  fun e kind x hx => h e kind x (hsame e kind ▸ hx)

/-- What holds of each component holds after a write, admitted or refused, if it holds of what is
written. -/
theorem Each.of_obeys (h : Each P s) {α : Type} {e : EntityId} {kind : ComponentKind}
    {x : Option kind.Payload} (hx : ∀ y, x = some y → P e kind y)
    {result : Except StoreFault α × σ} (hresult : Obeys e kind x s result) : Each P result.2 := by
  rcases result with ⟨_ | _, s'⟩
  · exact h.of_same hresult
  · intro e' kind' y hy
    by_cases he : e' = e
    · subst he
      by_cases hkind : kind' = kind
      · subst hkind
        exact hx y (hresult.written ▸ hy)
      · exact h e' kind' y (hresult.kinds kind' hkind ▸ hy)
    · exact h e' kind' y (hresult.others e' he kind' ▸ hy)

variable [LawfulStore σ]

theorem Each.save (h : Each P s) (e : EntityId) (kind : ComponentKind) {x : kind.Payload}
    (hx : P e kind x) : Each P (save e kind x s).2 :=
  h.of_obeys (fun _ hy => Option.some.inj hy ▸ hx) (save_obeys e kind x s)

theorem Each.remove (h : Each P s) (e : EntityId) (kind : ComponentKind) :
    Each P (remove e kind s).2 :=
  h.of_obeys (fun y hy => absurd hy.symm (Option.some_ne_none y)) (remove_obeys e kind s)

theorem Each.create (h : Each P s) (name : String) : Each P (create name s).2 :=
  h.of_same (same_of_create name s)

/-- What holds of each component holds of those that are left. -/
theorem Each.destroy (h : Each P s) (d : EntityId) : Each P (destroy d s).2 := by
  intro e kind x hx
  rw [get?_destroy] at hx
  split at hx
  · cases hx
  · exact h e kind x hx

end Each

/-! ## Populations -/

namespace Population

/-- An entity that is added has its components, and no other entity changes. -/
theorem get?_spawn (record : EntityRecord) (p : Population) (e : EntityId) (kind : ComponentKind) :
    EntityStore.get? e kind (p.spawn record).2 =
      if e = ⟨p.lastId + 1⟩ then record.get? kind else EntityStore.get? e kind p := by
  show ((p.records.insert ⟨p.lastId + 1⟩ record).find? e).bind (·.get? kind) = _
  by_cases he : e = ⟨p.lastId + 1⟩
  · rw [if_pos he, he, Table.find?_insert_self, Option.bind_some]
  · rw [if_neg he, Table.find?_insert_of_ne _ he]
    rfl

instance : LawfulStore Population where
  save_obeys e kind x p := by
    cases hrefusal : refusal e kind p with
    | some f =>
      rw [save_refused x hrefusal]
      exact fun _ _ => rfl
    | none =>
      obtain ⟨p', hp, hw⟩ := save_admitted x hrefusal
      rw [hp]
      exact ⟨hw.written, hw.kinds, hw.others⟩
  remove_obeys e kind p := by
    cases hrefusal : refusal e kind p with
    | some f =>
      rw [remove_refused hrefusal]
      exact fun _ _ => rfl
    | none =>
      obtain ⟨p', hp, hw⟩ := remove_admitted hrefusal
      rw [hp]
      exact ⟨hw.written, hw.kinds, hw.others⟩
  same_of_create name p := get?_create name p
  get?_destroy d p e kind := by
    show ((p.records.erase d).find? e).bind (·.get? kind) = _
    by_cases he : e = d
    · rw [if_pos he, he, Table.find?_erase_self]
      rfl
    · rw [if_neg he, Table.find?_erase_of_ne _ he]
      rfl

end Population

/-! ## Behind a gate -/

namespace Gated

variable {γ : Type} [Gate γ]

/-- What may come of a write to the population may come of it behind the gate. -/
theorem obeys_population {α : Type} {e : EntityId} {kind : ComponentKind}
    {x : Option kind.Payload} {s : Gated γ} {gate : γ} {result : Except StoreFault α × Population}
    (h : Obeys e kind x s.population result) :
    Obeys e kind x s (result.1, (⟨result.2, gate⟩ : Gated γ)) := by
  rcases result with ⟨_ | _, p⟩
  · exact h
  · exact ⟨h.written, h.kinds, h.others⟩

instance : LawfulStore (Gated γ) where
  save_obeys e kind x s := by
    rcases hjudge : Gate.judge e kind s.gate with ⟨_ | reason, gate⟩
    · simp only [save, hjudge]
      exact obeys_population (save_obeys e kind x s.population)
    · simp only [save, hjudge]
      exact fun _ _ => rfl
  remove_obeys e kind s := by
    rcases hjudge : Gate.judge e kind s.gate with ⟨_ | reason, gate⟩
    · simp only [remove, hjudge]
      exact obeys_population (remove_obeys e kind s.population)
    · simp only [remove, hjudge]
      exact fun _ _ => rfl
  same_of_create name s := same_of_create name s.population
  get?_destroy d s e kind := get?_destroy d s.population e kind

end Gated

end Herd
