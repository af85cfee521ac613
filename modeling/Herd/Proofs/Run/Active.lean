import Herd.Proofs.Run.Passage

/-!
# Where the active node lies

An evaluation makes no node active outside the subtree that it evaluates
(`evaluate_activatesIn`). A subtree that is done takes its active node with it, so a
tick that ends the run leaves no node active (`active_evaluate_of_isDone`).
-/

namespace Herd

universe u

variable {σ : Type u}

/-- What is active was so before, or is one of the nodes from `lo` up to `hi`. -/
def ActiveIn (lo hi : Nat) (before after : Option NodeId) : Prop :=
  ∀ k : Nat, after = some k → before = some k ∨ (lo ≤ k ∧ k < hi)

namespace ActiveIn

variable {lo hi lo' hi' : Nat} {a b c : Option NodeId}

theorem refl (lo hi : Nat) (a : Option NodeId) : ActiveIn lo hi a a := fun _ h => .inl h

/-- What becomes active in two steps does so in one of them. -/
theorem trans (h₁ : ActiveIn lo hi a b) (h₂ : ActiveIn lo hi b c) : ActiveIn lo hi a c :=
  fun k hk => (h₂ k hk).elim (h₁ k) .inr

theorem mono (h : ActiveIn lo hi a b) (hlo : lo' ≤ lo) (hhi : hi ≤ hi') :
    ActiveIn lo' hi' a b :=
  fun k hk => (h k hk).imp_right fun ⟨h₁, h₂⟩ =>
    ⟨Nat.le_trans hlo h₁, Nat.lt_of_lt_of_le h₂ hhi⟩

end ActiveIn

/-- An evaluator that makes no node active but those from `lo` up to `hi`. -/
def ActivatesIn (lo hi : Nat) (f : Evaluator σ) : Prop :=
  Moves (fun v w => ActiveIn lo hi v.active w.active) f

theorem ActivatesIn.mono {lo hi lo' hi' : Nat} {f : Evaluator σ} (h : ActivatesIn lo hi f)
    (hlo : lo' ≤ lo) (hhi : hi ≤ hi') : ActivatesIn lo' hi' f :=
  fun v => (h v).mono hlo hhi

/-- Notes are nothing to the active node. -/
theorem passage_activeIn (lo hi id : Nat) :
    Passage id fun v w : Visit σ => ActiveIn lo hi v.active w.active where
  refl v := .refl lo hi v.active
  trans := .trans
  remember v _ := .refl lo hi v.active
  forget v := .refl lo hi v.active

/-! ## Taking leave -/

/-- Taking leave of a subtree makes at most its root active. -/
theorem settle_activeIn (v : Visit σ) (id size : Nat) (status : Status) :
    ActiveIn id (id + 1) v.active (v.settle id size status).active := by
  intro k hk
  unfold Visit.settle at hk
  split at hk
  · exact .inl (Option.filter_eq_some_iff.mp hk).1
  · cases hv : v.active with
    | some active => rw [hv] at hk; exact .inl hk
    | none =>
      rw [hv] at hk
      obtain rfl : id = k := Option.some.inj hk
      exact .inr ⟨Nat.le_refl _, Nat.lt_succ_self _⟩

/-- A subtree that is done is not active. -/
theorem outside_of_active_settle {v : Visit σ} {id size k : Nat} {status : Status}
    (hdone : status.isDone = true) (hk : (v.settle id size status).active = some k) :
    k < id ∨ id + size ≤ k := by
  rw [Visit.settle, if_pos hdone] at hk
  have hout := (Option.filter_eq_some_iff.mp hk).2
  simpa [Visit.outside] using hout

/-- To take leave of a subtree makes at most its root active. -/
theorem settled_activatesIn {id size : Nat} {body : Evaluator σ} (hsize : 0 < size)
    (h : ActivatesIn id (id + size) body) : ActivatesIn id (id + size) (settled id size body) :=
  fun v => (h v).trans ((settle_activeIn _ _ _ _).mono (Nat.le_refl _) (by omega))

/-! ## Nodes -/

section Nodes

variable (leaf : LeafEvaluator σ) (now : Nat)

/-- The evaluators of siblings, of which each stays in its own subtree. -/
theorem evaluators_activatesIn {cs : List Node}
    (hcs : ∀ c ∈ cs, ∀ id : Nat, ActivatesIn id (id + c.size) (evaluate leaf now c id)) :
    ∀ first : Nat, ∀ f ∈ evaluators leaf now cs first,
      ActivatesIn first (first + Node.sizeAll cs) f := by
  induction cs with
  | nil => exact fun first f hf => absurd hf List.not_mem_nil
  | cons c cs ih =>
    intro first f hf
    rw [Node.sizeAll]
    simp only [evaluators] at hf
    rcases List.mem_cons.mp hf with rfl | hf
    · exact (hcs c List.mem_cons_self first).mono (Nat.le_refl _) (by omega)
    · exact (ih (fun d hd => hcs d (List.mem_cons_of_mem _ hd)) (first + c.size) f hf).mono
        (by omega) (by omega)

/-- An evaluation makes no node active outside its subtree. -/
theorem evaluate_activatesIn (n : Node) :
    ∀ id : Nat, ActivatesIn id (id + n.size) (evaluate leaf now n id) := by
  have hchildren : ∀ {cs : List Node} {id : Nat},
      (∀ c ∈ cs, ∀ id : Nat, ActivatesIn id (id + c.size) (evaluate leaf now c id)) →
      ∀ f ∈ evaluators leaf now cs (id + 1), ActivatesIn id (id + (Node.sizeAll cs + 1)) f :=
    fun hcs f hf => (evaluators_activatesIn leaf now hcs _ f hf).mono (by omega) (by omega)
  induction n with
  | leaf l =>
    intro id
    simp only [evaluate]
    exact settled_activatesIn Nat.one_pos fun v => .refl _ _ v.active
  | sequence cs ih =>
    intro id
    simp only [evaluate]
    exact settled_activatesIn (Nat.succ_pos _) ((passage_activeIn ..).resumed _ (hchildren ih))
  | selector cs ih =>
    intro id
    simp only [evaluate]
    exact settled_activatesIn (Nat.succ_pos _) ((passage_activeIn ..).resumed _ (hchildren ih))
  | decorated d c ih =>
    intro id
    have hsize : (Node.decorated d c).size = c.size + 1 := rfl
    simp only [evaluate]
    exact settled_activatesIn (Nat.succ_pos _)
      ((passage_activeIn ..).decorate now ((ih (id + 1)).mono (by omega) (by omega)) d)
  | parallel threshold cs ih =>
    intro id
    simp only [evaluate]
    exact settled_activatesIn (Nat.succ_pos _) ((passage_activeIn ..).parallel _ (hchildren ih))

/-- An evaluation of a node ends with its taking leave. -/
theorem exists_settle (n : Node) (id : Nat) (v : Visit σ) :
    ∃ w : Visit σ, (evaluate leaf now n id v).2 =
      w.settle id n.size (evaluate leaf now n id v).1 := by
  cases n <;> simp only [evaluate, settled] <;> exact ⟨_, rfl⟩

/-- A node that is done leaves no node active, unless one was before. -/
theorem active_evaluate_of_isDone (n : Node) (id : Nat) {v : Visit σ} (hv : v.active = none)
    (hdone : (evaluate leaf now n id v).1.isDone = true) :
    (evaluate leaf now n id v).2.active = none := by
  cases hactive : (evaluate leaf now n id v).2.active with
  | none => rfl
  | some k =>
    have hin := evaluate_activatesIn leaf now n id v k hactive
    obtain ⟨w, hw⟩ := exists_settle leaf now n id v
    rw [hw] at hactive
    have hout := outside_of_active_settle hdone hactive
    rw [hv] at hin
    rcases hin with hin | hin
    · cases hin
    · omega

end Nodes

end Herd
