import Herd.Proofs.Run.Interchange

/-!
# Nested sequences and selectors

A sequence among the children of a sequence goes on to the next child where its own last child does.
So its children may as well stand in its place, and the same holds of selectors. The one cursor of
the flat node is two cursors of the nested ones, or one at another index (`Progress.nested`).

What a list of children comes to is what its first part comes to, followed by the rest where that
goes on (`Machine.ordered_append`). Both nodes are made of the same three parts, and each part only
counts its children from elsewhere (`Machine.map_ordered`).
-/

namespace Herd

universe u

variable {σ : Type u}

/-- The state of a sequence or a selector, as that of one whose children from `before` on, as many
as `inner`, are in one of their own. -/
def Progress.nested (before inner : Nat) : Progress → Progress
  | .ordered index q =>
    if index < before then .ordered index q
    else if index < before + inner then .ordered before (.ordered (index - before) q)
    else .ordered (index - inner + 1) q
  | p => p

section Cursors

variable {before inner index : Nat} (q : Progress)

/-- Before the nested children, progress stays what it is. -/
theorem Progress.nested_before (h : index < before) :
    nested before inner (.ordered index q) = .ordered index q :=
  if_pos h

theorem Progress.nested_within (h : index < inner) :
    nested before inner (.ordered (before + index) q) = .ordered before (.ordered index q) := by
  rw [nested, if_neg (by omega), if_pos (by omega), Nat.add_sub_cancel_left]

/-- After the nested children, it is counted as if they were one. -/
theorem Progress.nested_after (index : Nat) :
    nested before inner (.ordered (before + inner + index) q) =
      .ordered (before + 1 + index) q := by
  have hindex : before + inner + index - inner + 1 = before + 1 + index := by omega
  rw [nested, if_neg (by omega), if_neg (by omega), hindex]

end Cursors

namespace Machine

/-- An answer, followed by the rest where it is the one to go on. -/
def followed (goOn : Bool) (rest : σ → Answer Progress × σ) :
    Answer Progress × σ → Answer Progress × σ
  | (.running q, x) => (.running q, x)
  | (.done b, x) => if b = goOn then rest x else (.done b, x)

variable (goOn : Bool) {φ ψ : Progress → Progress}

/-- What comes after may be translated with what it follows. -/
theorem map_followed (rest : σ → Answer Progress × σ) (r : Answer Progress × σ) :
    Prod.map (Answer.map φ) id (followed goOn rest r) =
      followed goOn (fun x => Prod.map (Answer.map φ) id (rest x))
        (Prod.map (Answer.map φ) id r) := by
  rcases r with ⟨b | q, x⟩
  · by_cases hb : b = goOn
    · simp only [followed, Prod.map, Answer.map, if_pos hb, id]
    · simp only [followed, Prod.map, Answer.map, if_neg hb, id]
  · rfl

/-- Children in order are the first, followed by the others. -/
theorem ordered_cons (k : Nat) (f : Machine σ) (fs : List (Machine σ)) (p : Option Progress)
    (x : σ) :
    ordered goOn k (f :: fs) p x =
      followed goOn (ordered goOn (k + 1) fs none)
        (Prod.map (Answer.map (.ordered k)) id (f p x)) := by
  rw [ordered]
  rcases f p x with ⟨b | q, y⟩ <;> rfl

/-- One part of the children, then the other. A state is that of a child, so there is none where
the first part is empty. -/
theorem ordered_append (fs gs : List (Machine σ)) : ∀ (k : Nat) {p : Option Progress},
    (fs = [] → p = none) → ∀ x,
    ordered goOn k (fs ++ gs) p x =
      followed goOn (ordered goOn (k + fs.length) gs none) (ordered goOn k fs p x) := by
  -- For every state, since from the second child on there is none.
  induction fs with
  | nil =>
    intro k p hp x
    rw [hp rfl]
    exact (if_pos rfl).symm
  | cons f fs ih =>
    intro k p _ x
    rw [List.cons_append, ordered, ordered]
    rcases f p x with ⟨b | q, y⟩
    · by_cases hb : b = goOn
      · simp only [if_pos hb]
        rw [ih (k + 1) (fun _ => rfl), List.length_cons, Nat.add_assoc, Nat.add_comm 1]
      · simp only [if_neg hb, followed]
    · rfl

/-- Children that are counted from elsewhere, with their states read accordingly. -/
theorem map_ordered (fs : List (Machine σ)) : ∀ {k l : Nat},
    (∀ i < fs.length, ∀ q, φ (.ordered (k + i) q) = ψ (.ordered (l + i) q)) → ∀ p x,
    Prod.map (Answer.map φ) id (ordered goOn k fs p x) =
      Prod.map (Answer.map ψ) id (ordered goOn l fs p x) := by
  induction fs with
  | nil => exact fun _ p x => rfl
  | cons f fs ih =>
    intro k l h p x
    rw [ordered, ordered]
    rcases f p x with ⟨b | q, y⟩
    · by_cases hb : b = goOn
      · simp only [if_pos hb]
        refine ih (fun i hi q => ?_) none y
        have hnext := h (i + 1) (Nat.succ_lt_succ hi) q
        rwa [Nat.add_comm i, ← Nat.add_assoc, ← Nat.add_assoc] at hnext
      · simp only [if_neg hb]
        rfl
    · have hhere := h 0 (Nat.succ_pos _) q
      simp only [Prod.map, Answer.map]
      rw [← Nat.add_zero k, ← Nat.add_zero l, hhere]

theorem map_eq_self (h : ∀ p, φ p = p) (r : Answer Progress × σ) :
    Prod.map (Answer.map φ) id r = r := by
  rw [funext h]
  exact Prod.ext (Answer.map_id _) rfl

variable (fs gs hs : List (Machine σ)) {index : Nat} {p : Option Progress}

/-- From among the children after the inner node on. -/
theorem map_ordered_after {before inner : Nat} (index : Nat) (p : Option Progress) (x : σ) :
    Prod.map (Answer.map (Progress.nested before inner)) id
        (ordered goOn (before + inner + index) hs p x) =
      ordered goOn (before + 1 + index) hs p x := by
  rw [map_ordered goOn (ψ := id) hs fun i _ q => ?_]
  · exact map_eq_self (fun _ => rfl) _
  · rw [Nat.add_assoc, Progress.nested_after q (index + i), ← Nat.add_assoc]
    rfl

/-- From among the inner children on, where `g` does what the rest of the inner node does. -/
theorem map_ordered_within {before inner : Nat} (hp : gs = [] → p = none)
    (hindex : index + gs.length = inner) {g : Machine σ} {p' : Option Progress} {x : σ}
    (hg : g p' x = ordered goOn index gs p x) :
    Prod.map (Answer.map (Progress.nested before inner)) id
        (ordered goOn (before + index) (gs ++ hs) p x) =
      ordered goOn before (g :: hs) p' x := by
  have hrest : ∀ y, Prod.map (Answer.map (Progress.nested before inner)) id
      (ordered goOn (before + index + gs.length) hs none y) =
        ordered goOn (before + 1) hs none y := by
    intro y
    rw [Nat.add_assoc, hindex]
    exact map_ordered_after goOn hs 0 none y
  -- Both sides are the inner children, followed by the children behind them.
  rw [ordered_append goOn gs hs _ hp, map_followed, funext hrest, ordered_cons, hg]
  congr 1
  refine map_ordered goOn gs (fun i hi q => ?_) p x
  rw [Nat.add_assoc, Progress.nested_within q (by omega)]

/-- From among the children before the inner node on. -/
theorem map_ordered_before {before : Nat} (hp : fs = [] → p = none)
    (hindex : index + fs.length = before) (x : σ) :
    Prod.map (Answer.map (Progress.nested before gs.length)) id
        (ordered goOn index (fs ++ (gs ++ hs)) p x) =
      ordered goOn index (fs ++ resumed goOn gs :: hs) p x := by
  have hrest : ∀ y, Prod.map (Answer.map (Progress.nested before gs.length)) id
      (ordered goOn (index + fs.length) (gs ++ hs) none y) =
        ordered goOn (index + fs.length) (resumed goOn gs :: hs) none y := by
    intro y
    rw [hindex]
    exact map_ordered_within goOn gs hs (fun _ => rfl) (Nat.zero_add gs.length) rfl
  rw [ordered_append goOn fs _ _ hp, map_followed, funext hrest, ordered_append goOn fs _ _ hp,
    map_ordered goOn (ψ := id) fs fun i hi q => Progress.nested_before q (by omega),
    map_eq_self fun p => id_eq p]

/-- The children of an inner node of the same kind may stand in its place. -/
theorem resumed_nested :
    (resumed goOn (fs ++ (gs ++ hs))).Through (Progress.nested fs.length gs.length)
      (resumed goOn (fs ++ resumed goOn gs :: hs)) := by
  intro p x
  match p with
  | some (.ordered index q) =>
    by_cases hbefore : index < fs.length
    · -- the child in progress is before the inner node
      have hle := Nat.le_of_lt hbefore
      simp only [Option.map, Progress.nested_before q hbefore, resumed,
        List.drop_append_of_le_length hle]
      refine (map_ordered_before goOn _ gs hs (fun hnil => ?_) ?_ x).symm
      · exact absurd (List.drop_eq_nil_iff.mp hnil) (Nat.not_le_of_lt hbefore)
      · rw [List.length_drop, Nat.add_sub_cancel' hle]
    obtain ⟨index, rfl⟩ := Nat.exists_eq_add_of_le (Nat.not_lt.mp hbefore)
    by_cases hwithin : index < gs.length
    · -- it is a child of the inner node
      have hle := Nat.le_of_lt hwithin
      simp only [Option.map, Progress.nested_within q hwithin, resumed,
        List.drop_length_add_append, List.drop_left, List.drop_append_of_le_length hle]
      refine (map_ordered_within goOn _ hs (fun hnil => ?_) ?_ rfl).symm
      · exact absurd (List.drop_eq_nil_iff.mp hnil) (Nat.not_le_of_lt hwithin)
      · rw [List.length_drop, Nat.add_sub_cancel' hle]
    -- it is after the inner node
    obtain ⟨index, rfl⟩ := Nat.exists_eq_add_of_le (Nat.not_lt.mp hwithin)
    rw [← Nat.add_assoc]
    have hflat : (fs ++ (gs ++ hs)).drop (fs.length + gs.length + index) = hs.drop index := by
      rw [Nat.add_assoc, List.drop_length_add_append, List.drop_length_add_append]
    have hnested : (fs ++ resumed goOn gs :: hs).drop (fs.length + 1 + index) = hs.drop index := by
      rw [Nat.add_assoc, List.drop_length_add_append, Nat.add_comm, List.drop_succ_cons]
    simp only [Option.map, Progress.nested_after q, resumed, hflat, hnested]
    exact (map_ordered_after goOn (hs.drop index) index (some q) x).symm
  | none | some .leaf | some (.parallel _) | some (.repeated _ _) | some (.timeout _ _)
  | some (.inverter _) | some (.untilFail _) =>
    exact (map_ordered_before goOn fs gs hs (fun _ => rfl) (Nat.zero_add _) x).symm

end Machine

/-! ## Nodes -/

section Placeless

variable (ask : Leaf → σ → Status × σ) (xs zs : List Node)

/-- The machines of three parts of siblings are those of the parts. -/
theorem machines_three (ys : List Node) (i j : NodeId) :
    machines (fun _ => ask) (xs ++ ys ++ zs) i =
      machines (fun _ => ask) xs j ++
        (machines (fun _ => ask) ys j ++ machines (fun _ => ask) zs j) := by
  rw [List.append_assoc, machines_append, machines_append, machines_placeless ask xs i j,
    machines_placeless ask ys _ j, machines_placeless ask zs _ j]

/-- A child `n` that goes through children of its own as its parent does. -/
theorem through_nested (goOn : Bool) {ys : List Node} {n : Node}
    (hn : ∀ k, machine (fun _ => ask) n k = .resumed goOn (machines (fun _ => ask) ys k))
    (i j : NodeId) :
    (Machine.resumed goOn (machines (fun _ => ask) (xs ++ ys ++ zs) i)).Through
      (Progress.nested xs.length ys.length)
      (Machine.resumed goOn (machines (fun _ => ask) (xs ++ [n] ++ zs) j)) := by
  have hnested := Machine.resumed_nested goOn (machines (fun _ => ask) xs 0)
    (machines (fun _ => ask) ys 0) (machines (fun _ => ask) zs 0)
  rw [length_machines, length_machines, ← machines_three ask xs zs ys i, ← hn] at hnested
  rwa [machines_three ask xs zs [n] j 0]

end Placeless

/-- What one run shows as the other does, the other shows as the one does. -/
theorem Run.SameConduct.symm {d : Driver σ} {r r' : Run} {n : Nat} (h : SameConduct d r r' n) :
    SameConduct d r' r n :=
  ⟨h.status.symm, h.calls.symm, h.actor.symm, h.handler.symm⟩

namespace Node

/-- A sequence, and one that has some of the children in a sequence of their own. -/
theorem interchangeable_nested_sequence (xs ys zs : List Node) :
    Interchangeable.{u} (.sequence (xs ++ ys ++ zs)) (.sequence (xs ++ [.sequence ys] ++ zs)) := by
  refine ⟨Progress.nested xs.length ys.length, fun ask i j => ?_⟩
  rw [machine, machine]
  refine through_nested ask xs zs true (fun k => ?_) _ _
  rw [machine, machines_placeless ask ys (k + 1) k]

/-- A selector, and one that has some of the children in a selector of their own. -/
theorem interchangeable_nested_selector (xs ys zs : List Node) :
    Interchangeable.{u} (.selector (xs ++ ys ++ zs)) (.selector (xs ++ [.selector ys] ++ zs)) := by
  refine ⟨Progress.nested xs.length ys.length, fun ask i j => ?_⟩
  rw [machine, machine]
  refine through_nested ask xs zs false (fun k => ?_) _ _
  rw [machine, machines_placeless ask ys (k + 1) k]

/-- **Nested sequences and selectors flatten.** At any place of any tree, a sequence within a
sequence shows the same as its children in its place, and a selector within a selector likewise:
whoever runs the two trees, whatever the handler does and happens to it between ticks, in every tick
they have the same status, make the same calls of the handler with the same answers, and leave the
actor with the same blackboard. -/
theorem sameConduct_flattened (C : Context) (xs ys zs : List Node) (id : ResourceId) (actor : Actor)
    (d : Driver σ) (n : Nat) :
    Run.SameConduct d
        (.start actor ⟨id, C.plug (.sequence (xs ++ [.sequence ys] ++ zs))⟩)
        (.start actor ⟨id, C.plug (.sequence (xs ++ ys ++ zs))⟩) n ∧
      Run.SameConduct d
        (.start actor ⟨id, C.plug (.selector (xs ++ [.selector ys] ++ zs))⟩)
        (.start actor ⟨id, C.plug (.selector (xs ++ ys ++ zs))⟩) n := by
  have hsequence := interchangeable_plug (interchangeable_nested_sequence xs ys zs) C
  have hselector := interchangeable_plug (interchangeable_nested_selector xs ys zs) C
  exact ⟨(hsequence.sameConduct id actor d n).symm, (hselector.sameConduct id actor d n).symm⟩

/-- Two cursors on the one side are one on the other. -/
example :
    let h : ActionHandler Unit := ⟨fun a name x =>
        (if name = "stalk" then .success else .running, a, x),
      fun _ _ x => (false, x), fun _ _ x => (false, x)⟩
    let notes (root : Node) : List (NodeId × NodeMemory) :=
      ((Run.start (.ofEntity ⟨1⟩) ⟨⟨none, "hunt"⟩, root⟩).tick h ()).2.1.state.memory.entries
    let stalk := Node.leaf (.action "stalk")
    let leap := Node.leaf (.action "leap")
    notes (.sequence [stalk, .sequence [stalk, leap]]) = [(0, .cursor 1), (2, .cursor 1)] ∧
      notes (.sequence [stalk, stalk, leap]) = [(0, .cursor 2)] := by
  decide

end Node

end Herd
