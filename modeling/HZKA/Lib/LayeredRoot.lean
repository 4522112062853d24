/-
  HZKA.Lib.LayeredRoot
  ────────────
  **MERKLE ROOTS OF LISTS, LAYER BY LAYER.**

  A layer is folded into the next by combining neighbours; a last node without a
  neighbour is combined with itself.  `layerRoot` repeats this until one node is left,
  for any list length and any combining function.

  Main results:
    • `nextLayer_length` — a layer of `n` nodes gives one of `(n + 1) / 2`;
    • `layerRoot_inj`    — two lists of one length with the same root are equal, or
      two different pairs combined on the way have the same image;
    • `clog_nextLayer`   — each layer is one closer to the root, of `⌈log₂ n⌉` in all;
    • `layerRoot_completed` — the root is that of the list completed to a power of two by
      copies of the nodes at its end.
-/
import Mathlib.Algebra.Ring.Nat
import Mathlib.Data.List.Basic
import Mathlib.Data.Nat.Log
import Mathlib.Tactic.Common

namespace HZKA.Lib

variable {α : Type} (combine : α → α → α)

/-! ## §1. Layers. -/

/-- The pairs combined in one layer. -/
def layerPairs : List α → List (α × α)
  | [] => []
  | [a] => [(a, a)]
  | a :: b :: rest => (a, b) :: layerPairs rest

/-- The layer above. -/
def nextLayer (l : List α) : List α := (layerPairs l).map (fun p => combine p.1 p.2)

/-- Half as many, rounded up. -/
theorem layerPairs_length : ∀ l : List α, (layerPairs l).length = (l.length + 1) / 2
  | [] => by simp [layerPairs]
  | [_] => by simp [layerPairs]
  | _ :: _ :: rest => by
    simp only [layerPairs, List.length_cons, layerPairs_length rest]
    omega

theorem nextLayer_length (l : List α) : (nextLayer combine l).length = (l.length + 1) / 2 := by
  rw [nextLayer, List.length_map, layerPairs_length]

/-- Pair `i` is nodes `2i` and `2i + 1`, or twice the last node. -/
theorem getElem?_layerPairs (d : α) : ∀ (l : List α) (i : Nat), i < (l.length + 1) / 2 →
    (layerPairs l)[i]? = some (l.getD (i * 2) d,
      l.getD (if i * 2 + 1 < l.length then i * 2 + 1 else i * 2) d)
  | [], i, h => by simp at h
  | [a], i, h => by
    have hzero : i = 0 := by
      rw [List.length_singleton] at h
      omega
    subst hzero
    rfl
  | a :: b :: rest, 0, _ => by simp [layerPairs]
  | a :: b :: rest, i + 1, h => by
    simp only [List.length_cons] at h
    have hrest := getElem?_layerPairs d rest i (by omega)
    have hindex : (i + 1) * 2 = i * 2 + 1 + 1 := by omega
    have hlength : (a :: b :: rest).length = rest.length + 1 + 1 := rfl
    rw [layerPairs, List.getElem?_cons_succ, hrest, hindex, hlength, List.getD_cons_succ,
      List.getD_cons_succ]
    by_cases hlast : i * 2 + 1 < rest.length
    · rw [if_pos hlast, if_pos (by omega), List.getD_cons_succ, List.getD_cons_succ]
    · rw [if_neg hlast, if_neg (by omega), List.getD_cons_succ, List.getD_cons_succ]

/-- The pairs of a layer spell it. -/
theorem layerPairs_inj : ∀ l l' : List α, l.length = l'.length →
    layerPairs l = layerPairs l' → l = l'
  | [], [], _, _ => rfl
  | [a], [b], _, h => by
    simp only [layerPairs, List.cons.injEq, Prod.mk.injEq, and_true] at h
    rw [h.1]
  | a :: b :: rest, c :: d :: rest', hlen, h => by
    simp only [layerPairs, List.cons.injEq, Prod.mk.injEq] at h
    obtain ⟨⟨rfl, rfl⟩, hrest⟩ := h
    rw [layerPairs_inj rest rest' (by simpa using hlen) hrest]
  | [], _ :: _, hlen, _ => by simp at hlen
  | _ :: _, [], hlen, _ => by simp at hlen
  | [_], _ :: _ :: _, hlen, _ => by simp at hlen
  | _ :: _ :: _, [_], hlen, _ => by simp at hlen

/-! ## §2. The root. -/

/-- The last node standing (`d` for the empty list). -/
def layerRoot (d : α) : List α → α
  | [] => d
  | [a] => a
  | a :: b :: rest => layerRoot d (nextLayer combine (a :: b :: rest))
termination_by l => l.length
decreasing_by
  rw [nextLayer_length]
  simp only [List.length_cons]
  omega

/-- All pairs combined on the way to the root. -/
def rootPairs : List α → List (α × α)
  | [] => []
  | [_] => []
  | a :: b :: rest =>
    layerPairs (a :: b :: rest) ++ rootPairs (nextLayer combine (a :: b :: rest))
termination_by l => l.length
decreasing_by
  rw [nextLayer_length]
  simp only [List.length_cons]
  omega

variable {combine}

/-! ## §3. Binding. -/

/-- Two different pairs, one of each list, with the same image. -/
def PairCollision (combine : α → α → α) (S T : List (α × α)) : Prop :=
  ∃ p ∈ S, ∃ q ∈ T, p ≠ q ∧ combine p.1 p.2 = combine q.1 q.2

theorem PairCollision.mono {S S' T T' : List (α × α)} (h : PairCollision combine S T)
    (hS : S ⊆ S') (hT : T ⊆ T') : PairCollision combine S' T' := by
  obtain ⟨p, hp, q, hq, hne, heq⟩ := h
  exact ⟨p, hS hp, q, hT hq, hne, heq⟩

/-- Equal images of two lists of pairs: the lists agree, or two pairs collide. -/
theorem map_combine_inj : ∀ S T : List (α × α),
    S.map (fun p => combine p.1 p.2) = T.map (fun p => combine p.1 p.2) →
    S = T ∨ PairCollision combine S T := by
  intro S
  induction S with
  | nil =>
    intro T h
    exact Or.inl (List.map_eq_nil_iff.mp h.symm).symm
  | cons p S ih =>
    intro T h
    cases T with
    | nil => exact absurd h (by simp)
    | cons q T =>
      simp only [List.map_cons, List.cons.injEq] at h
      obtain ⟨hhead, htail⟩ := h
      rcases ih T htail with rfl | hcol
      · by_cases hpq : p = q
        · exact Or.inl (by rw [hpq])
        · exact Or.inr ⟨p, List.mem_cons_self .., q, List.mem_cons_self .., hpq, hhead⟩
      · exact Or.inr (hcol.mono (List.subset_cons_self _ _) (List.subset_cons_self _ _))

/-- One layer binds the layer below it. -/
theorem nextLayer_inj {l l' : List α} (hlen : l.length = l'.length)
    (h : nextLayer combine l = nextLayer combine l') :
    l = l' ∨ PairCollision combine (layerPairs l) (layerPairs l') := by
  rcases map_combine_inj _ _ h with heq | hcol
  · exact Or.inl (layerPairs_inj l l' hlen heq)
  · exact Or.inr hcol

/-- **Equal-length binding.** -/
theorem layerRoot_inj (d : α) (l l' : List α) (hlen : l.length = l'.length)
    (h : layerRoot combine d l = layerRoot combine d l') :
    l = l' ∨ PairCollision combine (rootPairs combine l) (rootPairs combine l') := by
  -- the recursion of the root: equal next layers, or a collision above
  fun_induction layerRoot combine d l generalizing l' with
  | case1 => exact Or.inl (List.length_eq_zero_iff.mp hlen.symm).symm
  | case2 a =>
    obtain ⟨b, rfl⟩ := List.length_eq_one_iff.mp hlen.symm
    rw [layerRoot] at h
    exact Or.inl (by rw [h])
  | case3 a b rest ih =>
    match l', hlen with
    | c :: e :: rest', hlen =>
      rw [layerRoot] at h
      have hnext : (nextLayer combine (a :: b :: rest)).length
          = (nextLayer combine (c :: e :: rest')).length := by
        rw [nextLayer_length, nextLayer_length, hlen]
      rw [rootPairs, rootPairs]
      rcases ih _ hnext h with heq | hcol
      · rcases nextLayer_inj hlen heq with heq' | hcol
        · exact Or.inl heq'
        · exact Or.inr (hcol.mono (List.subset_append_left _ _) (List.subset_append_left _ _))
      · exact Or.inr (hcol.mono (List.subset_append_right _ _) (List.subset_append_right _ _))

/-! ## §4. The number of layers. -/

variable (combine)

/-- The root is that of the next layer. -/
theorem layerRoot_nextLayer (d : α) {l : List α} (h : 2 ≤ l.length) :
    layerRoot combine d l = layerRoot combine d (nextLayer combine l) := by
  match l, h with
  | a :: b :: rest, _ => rw [layerRoot]

/-- Its pairs, then those above. -/
theorem rootPairs_nextLayer {l : List α} (h : 2 ≤ l.length) :
    rootPairs combine l = layerPairs l ++ rootPairs combine (nextLayer combine l) := by
  match l, h with
  | a :: b :: rest, _ => rw [rootPairs]

/-- A layer of two or more nodes is one layer further from the root than the next. -/
theorem clog_nextLayer {l : List α} (h : 2 ≤ l.length) :
    Nat.clog 2 l.length = Nat.clog 2 (nextLayer combine l).length + 1 := by
  rw [nextLayer_length]
  exact Nat.clog_of_two_le (le_refl 2) h

theorem two_le_of_clog {n h : Nat} (hclog : Nat.clog 2 n = h + 1) : 2 ≤ n := by
  by_contra hlt
  have hzero : Nat.clog 2 n = 0 := Nat.clog_of_right_le_one (by omega) 2
  omega

/-! ## §5. Completed by copies. -/

/-- The nodes of a list of pairs, in order. -/
def unpair (ps : List (α × α)) : List α := ps.flatMap (fun p => [p.1, p.2])

/-- The leaves of the perfect tree of height `h` over a list: where a layer is odd, its last
node is doubled with everything below it. -/
def completed : (h : Nat) → {α : Type} → List α → List α
  | 0, _, l => l
  | h + 1, _, l => unpair (completed h (layerPairs l))

theorem unpair_length (ps : List (α × α)) : (unpair ps).length = 2 * ps.length := by
  induction ps with
  | nil => rfl
  | cons p ps ih =>
    show (unpair ps).length + 1 + 1 = 2 * (ps.length + 1)
    omega

theorem layerPairs_unpair (ps : List (α × α)) : layerPairs (unpair ps) = ps := by
  induction ps with
  | nil => rfl
  | cons p ps ih => exact congrArg (p :: ·) ih

theorem unpair_layerPairs : ∀ l : List α, l.length % 2 = 0 → unpair (layerPairs l) = l
  | [], _ => rfl
  | [_], h => by simp at h
  | a :: b :: rest, h => by
    have hrest : rest.length % 2 = 0 := by
      simp only [List.length_cons] at h
      omega
    show a :: b :: unpair (layerPairs rest) = a :: b :: rest
    rw [unpair_layerPairs rest hrest]

/-- Pairs are of elements. -/
theorem mem_layerPairs : ∀ {l : List α} {p : α × α}, p ∈ layerPairs l → p.1 ∈ l ∧ p.2 ∈ l
  | [_], p, h => by
    obtain rfl := List.mem_singleton.mp h
    simp
  | a :: b :: rest, p, h => by
    rcases List.mem_cons.mp h with rfl | h
    · simp
    · obtain ⟨h₁, h₂⟩ := mem_layerPairs h
      simp [h₁, h₂]

theorem layerPairs_map {β : Type} (f : α → β) : ∀ l : List α,
    layerPairs (l.map f) = (layerPairs l).map (Prod.map f f)
  | [] => rfl
  | [_] => rfl
  | a :: b :: rest => congrArg ((f a, f b) :: ·) (layerPairs_map f rest)

theorem unpair_map {β : Type} (f : α → β) (ps : List (α × α)) :
    unpair (ps.map (Prod.map f f)) = (unpair ps).map f := by
  induction ps with
  | nil => rfl
  | cons p ps ih => exact congrArg (f p.1 :: f p.2 :: ·) ih

/-- Completing does not look at the nodes. -/
theorem completed_map (h : Nat) : ∀ {α β : Type} (f : α → β) (l : List α),
    completed h (l.map f) = (completed h l).map f := by
  induction h with
  | zero =>
    intro α β f l
    rfl
  | succ h ih =>
    intro α β f l
    show unpair (completed h (layerPairs (l.map f))) = (unpair (completed h (layerPairs l))).map f
    rw [layerPairs_map, ih, unpair_map]

/-- It adds copies only. -/
theorem mem_completed (h : Nat) : ∀ {α : Type} {l : List α} {x : α}, x ∈ completed h l → x ∈ l := by
  induction h with
  | zero =>
    intro α l x hx
    exact hx
  | succ h ih =>
    intro α l x hx
    obtain ⟨p, hp, hx⟩ := List.mem_flatMap.mp hx
    have hpair := mem_layerPairs (ih hp)
    rcases List.mem_pair.mp hx with rfl | rfl
    · exact hpair.1
    · exact hpair.2

/-- One layer of the completed list is the next layer, completed. -/
theorem nextLayer_completed (h : Nat) (l : List α) :
    nextLayer combine (completed (h + 1) l) = completed h (nextLayer combine l) := by
  show (layerPairs (unpair (completed h (layerPairs l)))).map _ = completed h ((layerPairs l).map _)
  rw [layerPairs_unpair, completed_map]

/-- A power of two. -/
theorem completed_length (h : Nat) : ∀ {α : Type} {l : List α}, l ≠ [] → Nat.clog 2 l.length = h →
    (completed h l).length = 2 ^ h := by
  induction h with
  | zero =>
    intro α l hne hclog
    have hle : l.length ≤ 2 ^ 0 := by
      rw [← hclog]
      exact Nat.le_pow_clog (by omega) l.length
    have hpos := List.length_pos_iff.mpr hne
    show l.length = 2 ^ 0
    omega
  | succ h ih =>
    intro α l hne hclog
    have htwo := two_le_of_clog hclog
    have hlen := layerPairs_length l
    have hclog' : Nat.clog 2 l.length = Nat.clog 2 ((l.length + 1) / 2) + 1 :=
      Nat.clog_of_two_le (le_refl 2) htwo
    have hpairs : (completed h (layerPairs l)).length = 2 ^ h := by
      apply ih
      · intro hnil
        rw [hnil, List.length_nil] at hlen
        omega
      · rw [hlen]
        omega
    show (unpair (completed h (layerPairs l))).length = 2 ^ (h + 1)
    rw [unpair_length, hpairs, Nat.pow_succ, Nat.mul_comm]

/-- Above the leaves a completed list has two nodes or more. -/
theorem two_le_completed {h : Nat} {l : List α} (hclog : Nat.clog 2 l.length = h + 1) :
    2 ≤ (completed (h + 1) l).length := by
  have htwo := two_le_of_clog hclog
  have hpos := Nat.two_pow_pos h
  rw [completed_length (h + 1) (List.ne_nil_of_length_pos (by omega)) hclog, Nat.pow_succ]
  omega

/-- **Completing keeps the root.** -/
theorem layerRoot_completed (d : α) (h : Nat) : ∀ {l : List α}, Nat.clog 2 l.length = h →
    layerRoot combine d (completed h l) = layerRoot combine d l := by
  induction h with
  | zero =>
    intro l _
    rfl
  | succ h ih =>
    intro l hclog
    have htwo := two_le_of_clog hclog
    have hnext := clog_nextLayer combine htwo
    rw [layerRoot_nextLayer combine d (two_le_completed hclog), nextLayer_completed, ih (by omega),
      ← layerRoot_nextLayer combine d htwo]

/-- Nor does it combine other pairs. -/
theorem rootPairs_completed (h : Nat) : ∀ {l : List α}, Nat.clog 2 l.length = h →
    rootPairs combine (completed h l) ⊆ rootPairs combine l := by
  induction h with
  | zero =>
    intro l _
    exact List.Subset.refl _
  | succ h ih =>
    intro l hclog
    have htwo := two_le_of_clog hclog
    have hnext := clog_nextLayer combine htwo
    rw [rootPairs_nextLayer combine (two_le_completed hclog),
      rootPairs_nextLayer combine htwo, nextLayer_completed]
    have hpairs : layerPairs (completed (h + 1) l) ⊆ layerPairs l := by
      intro p hp
      rw [completed, layerPairs_unpair] at hp
      exact mem_completed h hp
    exact List.append_subset.mpr ⟨List.Subset.trans hpairs (List.subset_append_left _ _),
      List.Subset.trans (ih (by omega)) (List.subset_append_right _ _)⟩

/-- A power of two is complete. -/
theorem completed_of_pow (h : Nat) : ∀ {α : Type} {l : List α}, l.length = 2 ^ h →
    completed h l = l := by
  induction h with
  | zero =>
    intro α l _
    rfl
  | succ h ih =>
    intro α l hlen
    rw [Nat.pow_succ] at hlen
    have hpairs : (layerPairs l).length = 2 ^ h := by
      rw [layerPairs_length]
      omega
    rw [completed, ih hpairs]
    exact unpair_layerPairs l (by omega)

end HZKA.Lib
