/-
  HZKA.Lib.LayerPath
  ────────────
  **CLIMBING A PERFECT TREE OF LAYERS.**

  A path lists, from the bottom up, the node to combine with and the side it stands on.
  Nothing is assumed about it: whoever presents it chooses the nodes, the sides and the length.

    • `climb_opening` — from every leaf the path of its neighbours leads to the root;
    • `climb_sound` — a path as long as the tree is high that ends in the root starts at the
      leaf in its position and is that leaf's own, or two different pairs combined on the way
      have one image;
    • `layerRoot_iterate`, `rootPairs_iterate` — a layer further up is a perfect tree of its own
      with the same root.
-/
import HZKA.Lib.LayeredRoot

namespace HZKA.Lib

variable {α : Type} (combine : α → α → α)

/-! ## §1. Paths. -/

/-- The pair combined in one step; the flag says that the current node is the right one. -/
def stepPair (current : α) (step : Bool × α) : α × α :=
  if step.1 then (step.2, current) else (current, step.2)

/-- Follow a path upwards. -/
def climb : α → List (Bool × α) → α
  | current, [] => current
  | current, step :: path =>
    climb (combine (stepPair current step).1 (stepPair current step).2) path

/-- The pairs combined on the way. -/
def climbPairs : α → List (Bool × α) → List (α × α)
  | _, [] => []
  | current, step :: path =>
    stepPair current step
      :: climbPairs (combine (stepPair current step).1 (stepPair current step).2) path

/-- The leaf position a path starts from: its sides, least significant first. -/
def pathPosition : List (Bool × α) → Nat
  | [] => 0
  | step :: path => 2 * pathPosition path + if step.1 then 1 else 0

variable {combine}

/-- The two nodes of pair `i` in a layer of even length. -/
theorem getElem?_of_layerPairs : ∀ {l : List α} {i : Nat} {p : α × α}, l.length % 2 = 0 →
    (layerPairs l)[i]? = some p → l[2 * i]? = some p.1 ∧ l[2 * i + 1]? = some p.2
  | [], i, p, _, h => by cases h
  | [_], i, p, heven, _ => by simp at heven
  | a :: b :: rest, 0, p, _, h => by
    obtain rfl := Option.some.inj h
    exact ⟨rfl, rfl⟩
  | a :: b :: rest, i + 1, p, heven, h => by
    have hrest : rest.length % 2 = 0 := by
      simp only [List.length_cons] at heven
      omega
    have hindex : 2 * (i + 1) = 2 * i + 1 + 1 := by omega
    rw [hindex, List.getElem?_cons_succ, List.getElem?_cons_succ, List.getElem?_cons_succ,
      List.getElem?_cons_succ]
    exact getElem?_of_layerPairs hrest h

/-- The current node of a step and the one it is combined with, by its side. -/
theorem getElem?_of_stepPair {l : List α} {i : Nat} {current : α} {step : Bool × α}
    (heven : l.length % 2 = 0) (h : (layerPairs l)[i]? = some (stepPair current step)) :
    l[2 * i + if step.1 then 1 else 0]? = some current
      ∧ l[2 * i + if step.1 then 0 else 1]? = some step.2 := by
  obtain ⟨hleft, hright⟩ := getElem?_of_layerPairs heven h
  unfold stepPair at hleft hright
  split at hleft
  · rw [if_pos ‹_›] at hright ⊢
    rw [if_pos ‹_›]
    exact ⟨hright, hleft⟩
  · rw [if_neg ‹_›] at hright ⊢
    rw [if_neg ‹_›]
    exact ⟨hleft, hright⟩

/-- Climb in two parts. -/
theorem climb_append (combine : α → α → α) (lower upper : List (Bool × α)) : ∀ current : α,
    climb combine current (lower ++ upper)
      = climb combine (climb combine current lower) upper := by
  induction lower with
  | nil => exact fun _ => rfl
  | cons step lower ih => exact fun _ => ih _

theorem climbPairs_append (combine : α → α → α) (lower upper : List (Bool × α)) :
    ∀ current : α, climbPairs combine current (lower ++ upper)
      = climbPairs combine current lower
        ++ climbPairs combine (climb combine current lower) upper := by
  induction lower with
  | nil => exact fun _ => rfl
  | cons step lower ih => exact fun current => congrArg (stepPair current step :: ·) (ih _)

/-! ## §2. Completeness. -/

variable (combine)

/-- The path from leaf `i`: at each layer the neighbour. -/
def layerOpening (d : α) : Nat → List α → Nat → List (Bool × α)
  | 0, _, _ => []
  | h + 1, l, i =>
    (decide (i % 2 = 1), l.getD (if i % 2 = 1 then i - 1 else i + 1) d)
      :: layerOpening d h (nextLayer combine l) (i / 2)

/-- One entry a layer. -/
theorem length_layerOpening (d : α) (h : Nat) : ∀ (l : List α) (i : Nat),
    (layerOpening combine d h l i).length = h := by
  induction h with
  | zero => exact fun _ _ => rfl
  | succ h ih =>
    intro l i
    rw [layerOpening, List.length_cons, ih]

/-- One step of the opening is the pair the leaf belongs to. -/
theorem stepPair_opening (d : α) {l : List α} {i : Nat} {current : α} (heven : l.length % 2 = 0)
    (hcurrent : l[i]? = some current) :
    (layerPairs l)[i / 2]? = some (stepPair current
      (decide (i % 2 = 1), l.getD (if i % 2 = 1 then i - 1 else i + 1) d)) := by
  have hi : i < l.length := (List.getElem?_eq_some_iff.mp hcurrent).1
  have hhere : l.getD i d = current := by
    rw [List.getD_eq_getElem?_getD, hcurrent]
    rfl
  rw [getElem?_layerPairs d l (i / 2) (by omega), if_pos (by omega)]
  unfold stepPair
  by_cases hside : i % 2 = 1
  · have hleft : i / 2 * 2 = i - 1 := by omega
    have hright : i / 2 * 2 + 1 = i := by omega
    rw [if_pos hside, hright, hleft, hhere]
    simp only [hside, decide_true, if_true]
  · have hleft : i / 2 * 2 = i := by omega
    rw [if_neg hside, hleft, hhere]
    simp only [hside, decide_false, Bool.false_eq_true, if_false]

/-- **Every leaf is opened.** -/
theorem climb_opening (d : α) (h : Nat) : ∀ {l : List α}, l.length = 2 ^ h →
    ∀ {i : Nat} {current : α}, l[i]? = some current →
      climb combine current (layerOpening combine d h l i) = layerRoot combine d l := by
  induction h with
  | zero =>
    intro l hl i current hcurrent
    obtain ⟨a, rfl⟩ := List.length_eq_one_iff.mp hl
    have hzero : i = 0 := by
      have hi : i < [a].length := (List.getElem?_eq_some_iff.mp hcurrent).1
      rw [List.length_singleton] at hi
      omega
    subst hzero
    rw [layerRoot]
    exact (Option.some.inj hcurrent).symm
  | succ h ih =>
    intro l hl i current hcurrent
    rw [Nat.pow_succ] at hl
    have hpos := Nat.two_pow_pos h
    have hnext : (nextLayer combine l).length = 2 ^ h := by
      rw [nextLayer_length]
      omega
    rw [layerRoot_nextLayer combine d (by omega), layerOpening, climb]
    apply ih hnext
    unfold nextLayer
    rw [List.getElem?_map, stepPair_opening d (by omega) hcurrent]
    rfl

/-! ## §3. Soundness. -/

/-- A step whose pair is a pair of the layer is the first step of an opening. -/
theorem cons_layerOpening (d : α) {h i : Nat} {l : List α} {current : α} {step : Bool × α}
    (heven : l.length % 2 = 0) (hpair : (layerPairs l)[i]? = some (stepPair current step)) :
    step :: layerOpening combine d h (nextLayer combine l) i
      = layerOpening combine d (h + 1) l (2 * i + if step.1 then 1 else 0) := by
  have hother := (getElem?_of_stepPair heven hpair).2
  obtain ⟨side, node⟩ := step
  rw [layerOpening]
  cases side with
  | true =>
    have hnode : l.getD (2 * i) d = node := by
      rw [List.getD_eq_getElem?_getD]
      exact congrArg (Option.getD · d) hother
    have hodd : (2 * i + 1) % 2 = 1 := by omega
    have hup : (2 * i + 1) / 2 = i := by omega
    simp only [if_true, hodd, hup, decide_true, Nat.add_sub_cancel, hnode]
  | false =>
    have hnode : l.getD (2 * i + 1) d = node := by
      rw [List.getD_eq_getElem?_getD]
      exact congrArg (Option.getD · d) hother
    have heven : ¬ (2 * i) % 2 = 1 := by omega
    have hup : 2 * i / 2 = i := by omega
    simp only [Bool.false_eq_true, if_false, Nat.add_zero, heven, hup, decide_false, hnode]

variable {combine}

/-- **A path of the full length that ends in the root is the opening of the leaf it starts
from.** -/
theorem climb_sound (d : α) (h : Nat) : ∀ {l : List α}, l.length = 2 ^ h →
    ∀ {path : List (Bool × α)}, path.length = h → ∀ current : α,
      climb combine current path = layerRoot combine d l →
      (l[pathPosition path]? = some current
          ∧ path = layerOpening combine d h l (pathPosition path))
        ∨ PairCollision combine (climbPairs combine current path) (rootPairs combine l) := by
  induction h with
  | zero =>
    intro l hl path hpath current hclimb
    obtain ⟨a, rfl⟩ := List.length_eq_one_iff.mp hl
    obtain rfl := List.length_eq_zero_iff.mp hpath
    rw [layerRoot] at hclimb
    exact Or.inl ⟨congrArg some hclimb.symm, rfl⟩
  | succ h ih =>
    intro l hl path hpath current hclimb
    obtain ⟨step, path, rfl⟩ := List.exists_cons_of_length_eq_add_one hpath
    rw [Nat.pow_succ] at hl
    have hpos := Nat.two_pow_pos h
    have htwo : 2 ≤ l.length := by omega
    have hnext : (nextLayer combine l).length = 2 ^ h := by
      rw [nextLayer_length]
      omega
    rw [layerRoot_nextLayer combine d htwo] at hclimb
    rw [rootPairs_nextLayer combine htwo]
    rcases ih hnext (Nat.succ.inj hpath) _ hclimb with ⟨hnode, hopening⟩ | hcol
    · -- the node above is the image of the pair of this step and of a pair of the layer
      unfold nextLayer at hnode
      rw [List.getElem?_map, Option.map_eq_some_iff] at hnode
      obtain ⟨q, hq, himage⟩ := hnode
      by_cases hsame : q = stepPair current step
      · left
        rw [hsame] at hq
        refine ⟨(getElem?_of_stepPair (by omega) hq).1, ?_⟩
        rw [pathPosition, ← cons_layerOpening combine d (by omega) hq, ← hopening]
      · right
        refine ⟨stepPair current step, List.mem_cons_self .., q, ?_, fun heq => hsame heq.symm,
          himage.symm⟩
        exact List.mem_append_left _ (List.mem_of_getElem? hq)
    · exact Or.inr (hcol.mono (List.subset_cons_self _ _) (List.subset_append_right _ _))

variable (combine)

/-! ## §4. Layers further up. -/

/-- The layer above a power of two. -/
theorem length_nextLayer_pow {h : Nat} {l : List α} (hl : l.length = 2 ^ (h + 1)) :
    2 ≤ l.length ∧ (nextLayer combine l).length = 2 ^ h := by
  have hpow : 2 ^ (h + 1) = 2 ^ h * 2 := Nat.pow_succ ..
  have hpos := Nat.two_pow_pos h
  rw [nextLayer_length]
  omega

theorem length_iterate {h : Nat} (j : Nat) : ∀ {l : List α}, l.length = 2 ^ (h + j) →
    ((nextLayer combine)^[j] l).length = 2 ^ h := by
  induction j with
  | zero => exact fun hl => hl
  | succ j ih =>
    intro l hl
    rw [Function.iterate_succ_apply]
    exact ih (length_nextLayer_pow combine hl).2

/-- The root is that of any layer. -/
theorem layerRoot_iterate (d : α) {h : Nat} (j : Nat) : ∀ {l : List α}, l.length = 2 ^ (h + j) →
    layerRoot combine d ((nextLayer combine)^[j] l) = layerRoot combine d l := by
  induction j with
  | zero => exact fun _ => rfl
  | succ j ih =>
    intro l hl
    obtain ⟨htwo, hnext⟩ := length_nextLayer_pow combine hl
    rw [Function.iterate_succ_apply, ih hnext, ← layerRoot_nextLayer combine d htwo]

/-- Its pairs are among the pairs. -/
theorem rootPairs_iterate {h : Nat} (j : Nat) : ∀ {l : List α}, l.length = 2 ^ (h + j) →
    rootPairs combine ((nextLayer combine)^[j] l) ⊆ rootPairs combine l := by
  induction j with
  | zero => exact fun _ => List.Subset.refl _
  | succ j ih =>
    intro l hl
    obtain ⟨htwo, hnext⟩ := length_nextLayer_pow combine hl
    rw [Function.iterate_succ_apply, rootPairs_nextLayer combine htwo]
    exact List.Subset.trans (ih hnext) (List.subset_append_right _ _)

end HZKA.Lib
