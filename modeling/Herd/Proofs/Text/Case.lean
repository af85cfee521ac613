import Mathlib.Data.List.Basic
import Herd.World.Label

/-!
# How the foldings of case compare

Labels match when `lowerEach` folds them alike (`labelsMatch_iff`); the register of
groups is keyed by `lowerWord`. The two differ in one letter: a capital sigma at the end
of a word is `ς` to the one and `σ` to the other.

`folded` is the text from which both can be read, with each final sigma made of a
capital one marked. It is known from any two of: the text folded by character, the text
folded as a whole, and the marks (`folded_eq_of_each_of_word` and its siblings). So texts
that are folded alike by character are folded alike as a whole if and only if they have
the marks in the same places (`lowerWord_eq_iff`).
-/

namespace Herd

namespace Text

/-! ## ASCII -/

/-- Plain letters are lower-cased one by one. -/
theorem lowerEach_of_isAscii {s : String} (h : isAscii s = true) :
    lowerEach s = (lowerAscii s).toList := by
  have hchar : ∀ c ∈ s.toList, c.toNat < 0x80 := fun c hc =>
    of_decide_eq_true (List.all_eq_true.mp h c hc)
  rw [lowerAscii, String.toList_ofList, lowerEach]
  generalize s.toList = cs at hchar
  induction cs with
  | nil => rfl
  | cons c cs ih =>
    rw [List.flatMap_cons, List.map_cons, ih fun d hd => hchar d (List.mem_cons_of_mem _ hd),
      lowerChar, if_pos (hchar c List.mem_cons_self)]
    rfl

/-! ## Final sigmas -/

/-- A character of a folded text. -/
inductive Folded
  | plain (c : Char)
  /-- A capital sigma at the end of a word. -/
  | finalSigma

namespace Folded

/-- The character where every one is folded by itself. -/
def alone : Folded → Char
  | plain c => c
  | finalSigma => 'σ'

/-- The character where the text is folded as a whole. -/
def inWord : Folded → Char
  | plain c => c
  | finalSigma => 'ς'

def isFinal : Folded → Bool
  | plain _ => false
  | finalSigma => true

end Folded

/-- Fold the rest of a text of which `before` is already read, last character first. -/
def foldedAfter (before : List Char) : List Char → List Folded
  | [] => []
  | c :: rest =>
    (if c = 'Σ' ∧ (meetsCased before && !meetsCased rest) = true then [.finalSigma]
      else (lowerChar c).map .plain) ++ foldedAfter (c :: before) rest

/-- A text folded, with the final sigmas that were capital. -/
def folded (s : String) : List Folded := foldedAfter [] s.toList

/-- For each character of a folded text, whether it is a final sigma that was capital. -/
def finalSigmas (s : String) : List Bool := (folded s).map Folded.isFinal

theorem lowerChar_sigma : lowerChar 'Σ' = ['σ'] := by decide

/-- Read one by one, folded characters are lower-cased one by one. -/
theorem map_alone_foldedAfter (cs : List Char) :
    ∀ before : List Char, (foldedAfter before cs).map Folded.alone = cs.flatMap lowerChar := by
  induction cs with
  | nil => exact fun before => rfl
  | cons c cs ih =>
    intro before
    rw [foldedAfter, List.map_append, ih, List.flatMap_cons]
    split
    · next hfinal =>
      rw [hfinal.1, lowerChar_sigma]
      rfl
    · rw [List.map_map]
      exact congrArg (· ++ _) (List.map_id _)

theorem map_inWord_foldedAfter (cs : List Char) :
    ∀ before : List Char, (foldedAfter before cs).map Folded.inWord = lowerAfter before cs := by
  induction cs with
  | nil => exact fun before => rfl
  | cons c cs ih =>
    intro before
    have hplain : ((lowerChar c).map Folded.plain).map Folded.inWord = lowerChar c := by
      rw [List.map_map]
      exact List.map_id _
    rw [foldedAfter, List.map_append, ih, lowerAfter]
    by_cases hsigma : c = 'Σ'
    · by_cases hfinal : (meetsCased before && !meetsCased cs) = true
      · rw [if_pos ⟨hsigma, hfinal⟩, if_pos hsigma, if_pos hfinal]
        rfl
      · rw [if_neg fun h => hfinal h.2, hplain, if_pos hsigma, if_neg hfinal, hsigma,
          lowerChar_sigma]
    · rw [if_neg fun h => hsigma h.1, hplain, if_neg hsigma]

/-- A folded text tells its letters lower-cased one by one. -/
theorem map_alone_folded (s : String) : (folded s).map Folded.alone = lowerEach s :=
  map_alone_foldedAfter s.toList []

theorem map_inWord_folded (s : String) : (folded s).map Folded.inWord = (lowerWord s).toList := by
  rw [lowerWord, String.toList_ofList]
  exact map_inWord_foldedAfter s.toList []

/-! ### Two readings tell the third -/

section Readings

variable {a b : String}

/-- A list of values is known from two readings of each that tell it. -/
theorem eq_of_map_eq {α β γ : Type*} {f : α → β} {g : α → γ}
    (hinj : ∀ p q : α, f p = f q → g p = g q → p = q) {l m : List α}
    (hf : l.map f = m.map f) (hg : l.map g = m.map g) : l = m := by
  have hpair : Function.Injective fun p => (f p, g p) := fun p q h =>
    hinj p q (congrArg Prod.fst h) (congrArg Prod.snd h)
  refine hpair.list_map ?_
  rw [← List.zip_map', ← List.zip_map', hf, hg]

/-- Letters one by one and the places of final sigmas tell the folded text. -/
theorem folded_eq_of_each_of_final (heach : lowerEach a = lowerEach b)
    (hfinal : finalSigmas a = finalSigmas b) : folded a = folded b := by
  rw [← map_alone_folded, ← map_alone_folded] at heach
  refine eq_of_map_eq (fun p q h₁ h₂ => ?_) heach hfinal
  cases p <;> cases q <;> simp_all [Folded.alone, Folded.isFinal]

theorem folded_eq_of_word_of_final (hword : lowerWord a = lowerWord b)
    (hfinal : finalSigmas a = finalSigmas b) : folded a = folded b := by
  have hword := congrArg String.toList hword
  rw [← map_inWord_folded, ← map_inWord_folded] at hword
  refine eq_of_map_eq (fun p q h₁ h₂ => ?_) hword hfinal
  cases p <;> cases q <;> simp_all [Folded.inWord, Folded.isFinal]

theorem folded_eq_of_each_of_word (heach : lowerEach a = lowerEach b)
    (hword : lowerWord a = lowerWord b) : folded a = folded b := by
  have hword := congrArg String.toList hword
  rw [← map_alone_folded, ← map_alone_folded] at heach
  rw [← map_inWord_folded, ← map_inWord_folded] at hword
  have hforms : Folded.finalSigma.alone ≠ Folded.finalSigma.inWord := by decide
  refine eq_of_map_eq (fun p q h₁ h₂ => ?_) heach hword
  -- a plain character reads the same in both, a final sigma does not
  cases p with
  | plain c =>
    cases q with
    | plain d => exact congrArg Folded.plain h₁
    | finalSigma => exact absurd (h₁.symm.trans h₂) hforms
  | finalSigma =>
    cases q with
    | plain d => exact absurd (h₁.trans h₂.symm) hforms
    | finalSigma => rfl

/-- Texts that are folded alike by character are so as a whole where their final sigmas are. -/
theorem lowerWord_eq_iff (heach : lowerEach a = lowerEach b) :
    lowerWord a = lowerWord b ↔ finalSigmas a = finalSigmas b := by
  constructor
  · intro hword
    rw [finalSigmas, folded_eq_of_each_of_word heach hword, finalSigmas]
  · intro hfinal
    refine String.toList_inj.mp ?_
    rw [← map_inWord_folded, folded_eq_of_each_of_final heach hfinal, map_inWord_folded]

/-- Texts with the same final sigmas are folded alike either way or neither. -/
theorem lowerEach_eq_iff (hfinal : finalSigmas a = finalSigmas b) :
    lowerEach a = lowerEach b ↔ lowerWord a = lowerWord b := by
  constructor
  · exact fun heach => (lowerWord_eq_iff heach).mpr hfinal
  · intro hword
    rw [← map_alone_folded, folded_eq_of_word_of_final hword hfinal, map_alone_folded]

end Readings

/-! ### One form for every sigma -/

/-- A final sigma in its plain form. -/
def plainSigma (c : Char) : Char := if c = 'ς' then 'σ' else c

/-- Fold a text without regard to the form of small sigmas. -/
def lowerPlain (s : String) : List Char := (lowerEach s).map plainSigma

/-- It is all one which of the foldings the sigmas are made plain in. -/
theorem map_plainSigma_lowerWord (s : String) :
    (lowerWord s).toList.map plainSigma = lowerPlain s := by
  rw [← map_inWord_folded, lowerPlain, ← map_alone_folded, List.map_map, List.map_map]
  refine List.map_congr_left fun p _ => ?_
  cases p with
  | plain c => rfl
  | finalSigma => decide

end Text

/-! ## Labels -/

/-- Labels match if folding each character makes them one, whichever way they are compared. -/
theorem labelsMatch_iff {a b : String} :
    labelsMatch a b = true ↔ Text.lowerEach a = Text.lowerEach b := by
  unfold labelsMatch
  split
  · next h =>
    obtain ⟨ha, hb⟩ := Bool.and_eq_true_iff.mp h
    rw [beq_iff_eq, Text.lowerEach_of_isAscii ha, Text.lowerEach_of_isAscii hb,
      String.toList_inj]
  · exact beq_iff_eq

end Herd
