/-
  HZKA.Simulator.Churn
  ────────────
  **EPOCH CHURN** (`hzka_protocol_sim.py`, `reassignment_churn`), read over exact rationals: the
  fraction of chains whose cluster changed, with clusters matched by greatest overlap.

  The matching is greedy, and of several greatest overlaps it takes the first in row-major
  order.  That order is one of NAMES, so where ties lead to different matchings the churn
  depends on how the clusters are called.

    • `matchLoop_greedy`    — the loop is the greedy run on the overlap counts that takes first
      cells;
    • `churn_of_first`      — the churn is what that run does not keep;
    • `churn_of_run`        — every greedy run is the loop's under some names;
    • `churn_invariant_iff` — the churn is independent of the current (previous, all) names
      exactly if the ties those names decide do not matter.
-/
import HZKA.Lib.GreedyMatching
import Mathlib.Tactic.Linarith

namespace HZKA.Simulator

open Function
open HZKA.Lib

/-! ## §1. `reassignment_churn`. -/

/-- Chains shared by an old and a new cluster. -/
abbrev Overlap := Nat → Nat → Int

/-- `int(labels.max()) + 1`. -/
def clusters (labels : List Nat) : Nat := labels.foldl max 0 + 1

/-- `overlap[x, y] += 1`. -/
def bump (overlap : Overlap) (a : Nat × Nat) : Overlap :=
  fun i j => if (i, j) = a then overlap i j + 1 else overlap i j

/-- The counts, chain by chain. -/
def overlapMatrix (prev cur : List Nat) : Overlap := (prev.zip cur).foldl bump fun _ _ => 0

/-- The cells in the order `np.argmax` goes through them. -/
def cells (nPrev nCur : Nat) : List (Nat × Nat) :=
  (List.range nPrev).flatMap fun i => (List.range nCur).map fun j => (i, j)

/-- `np.unravel_index(np.argmax(overlap), overlap.shape)`: the first greatest cell. -/
def argmaxCell (nPrev nCur : Nat) (overlap : Overlap) : Option (Nat × Nat) :=
  -- by name: instance search may find an order of `Int` that does not compute
  letI : Preorder Int := Int.instLinearOrder.toPreorder
  (cells nPrev nCur).argmax fun c => overlap c.1 c.2

/-- `overlap[i, :] = -1; overlap[:, j] = -1`. -/
def clear (overlap : Overlap) (i j : Nat) : Overlap :=
  fun i' j' => if i' = i ∨ j' = j then -1 else overlap i' j'

/-- The matching loop; `mapping` is the dictionary.  The matrix has cells, so `argmax` has a
result. -/
def matchLoop (nPrev nCur : Nat) : Nat → Overlap → (Nat → Option Nat) → Nat → Option Nat
  | 0, _, mapping => mapping
  | k + 1, overlap, mapping =>
    match argmaxCell nPrev nCur overlap with
    | none => mapping
    | some (i, j) =>
      if overlap i j ≤ 0 then mapping
      else matchLoop nPrev nCur k (clear overlap i j) (update mapping j (some i))

/-- The share of chains outside the matched clusters. -/
def reassignmentChurn (prev cur : List Nat) : ℚ :=
  let nPrev := clusters prev
  let nCur := clusters cur
  let mapping := matchLoop nPrev nCur (min nPrev nCur) (overlapMatrix prev cur) fun _ => none
  let moved := (prev.zip cur).countP fun a => decide (mapping a.2 ≠ some a.1)
  moved / prev.length

theorem matchLoop_stop {nPrev nCur k i j : Nat} {overlap : Overlap} {mapping : Nat → Option Nat}
    (hcell : argmaxCell nPrev nCur overlap = some (i, j)) (hstop : overlap i j ≤ 0) :
    matchLoop nPrev nCur (k + 1) overlap mapping = mapping := by
  rw [matchLoop, hcell]
  exact if_pos hstop

theorem matchLoop_pick {nPrev nCur k i j : Nat} {overlap : Overlap} {mapping : Nat → Option Nat}
    (hcell : argmaxCell nPrev nCur overlap = some (i, j)) (hpos : 0 < overlap i j) :
    matchLoop nPrev nCur (k + 1) overlap mapping
      = matchLoop nPrev nCur k (clear overlap i j) (update mapping j (some i)) := by
  rw [matchLoop, hcell]
  exact if_neg (by omega)

/-! ## §2. Overlaps. -/

/-- How many chains went from cluster `i` to cluster `j`. -/
def overlapCount (prev cur : List Nat) (i j : Nat) : Nat := (prev.zip cur).count (i, j)

theorem foldl_bump (l : List (Nat × Nat)) : ∀ (overlap : Overlap) (i j : Nat),
    l.foldl bump overlap i j = overlap i j + (l.count (i, j) : Int) := by
  induction l with
  | nil => simp
  | cons a l ih =>
    intro overlap i j
    rw [List.foldl_cons, ih, bump, List.count_cons]
    by_cases ha : (i, j) = a
    · simp [ha]
      omega
    · simp [ha, Ne.symm ha]

/-- The matrix counts the overlaps. -/
theorem overlapMatrix_eq (prev cur : List Nat) (i j : Nat) :
    overlapMatrix prev cur i j = overlapCount prev cur i j := by
  unfold overlapMatrix overlapCount
  rw [foldl_bump, Int.zero_add]

theorem lt_clusters {labels : List Nat} {x : Nat} (h : x ∈ labels) : x < clusters labels := by
  have hle : ∀ (l : List Nat) (m : Nat), m ≤ l.foldl max m ∧ ∀ y ∈ l, y ≤ l.foldl max m := by
    intro l
    induction l with
    | nil => exact fun m => ⟨Nat.le_refl m, nofun⟩
    | cons a l ih =>
      intro m
      obtain ⟨hm, hall⟩ := ih (max m a)
      rw [List.foldl_cons, List.forall_mem_cons]
      exact ⟨by omega, by omega, hall⟩
  have hx := (hle labels 0).2 x h
  unfold clusters
  omega

/-- There is overlap inside the matrix only. -/
theorem overlapCount_pos {prev cur : List Nat} {i j : Nat} (h : 0 < overlapCount prev cur i j) :
    i < clusters prev ∧ j < clusters cur := by
  have hmem := List.of_mem_zip (List.count_pos_iff.mp h)
  exact ⟨lt_clusters hmem.1, lt_clusters hmem.2⟩

theorem overlapCount_map (p q : Equiv.Perm Nat) (prev cur : List Nat) (i j : Nat) :
    overlapCount (prev.map q) (cur.map p) (q i) (p j) = overlapCount prev cur i j := by
  unfold overlapCount
  rw [List.zip_map]
  exact List.count_map_of_injective _ _ (q.injective.prodMap p.injective) (i, j)

theorem mem_cells {nPrev nCur i j : Nat} : (i, j) ∈ cells nPrev nCur ↔ i < nPrev ∧ j < nCur := by
  unfold cells
  simp [List.mem_flatMap]

/-- The cells are gone through row by row, and each row from left to right. -/
theorem cells_pairwise (nPrev nCur : Nat) :
    (cells nPrev nCur).Pairwise fun a b => a.1 < b.1 ∨ (a.1 = b.1 ∧ a.2 < b.2) := by
  unfold cells
  rw [List.pairwise_flatMap]
  constructor
  · intro i _
    rw [List.pairwise_map]
    exact List.pairwise_lt_range.imp fun h => .inr ⟨rfl, h⟩
  · refine List.pairwise_lt_range.imp fun hlt a ha b hb => ?_
    obtain ⟨_, _, rfl⟩ := List.mem_map.mp ha
    obtain ⟨_, _, rfl⟩ := List.mem_map.mp hb
    exact .inl hlt

/-- The first greatest cell. -/
theorem argmaxCell_first {nPrev nCur i j i' j' : Nat} {overlap : Overlap}
    (hcell : argmaxCell nPrev nCur overlap = some (i, j)) (hi' : i' < nPrev) (hj' : j' < nCur)
    (heq : overlap i' j' = overlap i j) : i < i' ∨ (i = i' ∧ j ≤ j') := by
  rcases argmax_first (cells_pairwise nPrev nCur) hcell (mem_cells.mpr ⟨hi', hj'⟩) heq with h | h
  · obtain ⟨rfl, rfl⟩ := Prod.mk.inj h
    exact .inr ⟨rfl, Nat.le_refl _⟩
  · exact h.imp_right fun h => ⟨h.1, Nat.le_of_lt h.2⟩

/-! ## §3. The loop is a greedy run. -/

/-- The matrix while the rows `U` and the columns `V` are used up. -/
structure Cleared (w : Nat → Nat → Nat) (nPrev nCur : Nat) (U V : List Nat) (overlap : Overlap) :
    Prop where
  entry : ∀ i j, overlap i j = if i ∈ U ∨ j ∈ V then -1 else (w i j : Int)
  inside : ∀ i j, 0 < w i j → i < nPrev ∧ j < nCur
  rows : U.Nodup ∧ ∀ i ∈ U, i < nPrev
  cols : V.Nodup ∧ ∀ j ∈ V, j < nCur
  square : U.length = V.length

section Loop

variable {w : Nat → Nat → Nat} {nPrev nCur : Nat} {U V : List Nat} {overlap : Overlap}

theorem Cleared.free (h : Cleared w nPrev nCur U V overlap) {i j : Nat} (hi : i ∉ U) (hj : j ∉ V) :
    overlap i j = w i j := by
  rw [h.entry, if_neg (by rintro (h | h); exacts [hi h, hj h])]

theorem Cleared.pos (h : Cleared w nPrev nCur U V overlap) {i j : Nat} (hpos : 0 < overlap i j) :
    i ∉ U ∧ j ∉ V ∧ 0 < w i j := by
  rw [h.entry] at hpos
  split at hpos
  case isTrue => omega
  case isFalse hfree => exact ⟨fun hi => hfree (.inl hi), fun hj => hfree (.inr hj), by omega⟩

theorem Cleared.clear (h : Cleared w nPrev nCur U V overlap) {i j : Nat} (hi : i ∉ U) (hj : j ∉ V)
    (hpos : 0 < w i j) : Cleared w nPrev nCur (i :: U) (j :: V) (clear overlap i j) := by
  obtain ⟨hin, hjn⟩ := h.inside i j hpos
  refine ⟨fun i' j' => ?_, h.inside, ⟨List.nodup_cons.mpr ⟨hi, h.rows.1⟩, ?_⟩,
    ⟨List.nodup_cons.mpr ⟨hj, h.cols.1⟩, ?_⟩, congrArg Nat.succ h.square⟩
  · unfold Simulator.clear
    rw [h.entry]
    by_cases hnew : i' = i ∨ j' = j
    · rw [if_pos hnew, if_pos]
      rcases hnew with rfl | rfl
      · exact .inl List.mem_cons_self
      · exact .inr List.mem_cons_self
    · rw [if_neg hnew]
      have hsame : (i' ∈ U ∨ j' ∈ V) ↔ (i' ∈ i :: U ∨ j' ∈ j :: V) := by
        simp only [List.mem_cons]
        tauto
      simp only [hsame]
  · exact List.forall_mem_cons.mpr ⟨hin, h.rows.2⟩
  · exact List.forall_mem_cons.mpr ⟨hjn, h.cols.2⟩

/-- With all rows or all columns used nothing is left. -/
theorem Cleared.full (h : Cleared w nPrev nCur U V overlap) (hfull : U.length = min nPrev nCur) :
    ∀ i ∉ U, ∀ j ∉ V, w i j = 0 := by
  intro i hi j hj
  by_contra hne
  obtain ⟨hin, hjn⟩ := h.inside i j (by omega)
  rcases Nat.le_total nPrev nCur with hle | hle
  · exact hi (mem_of_length_eq h.rows.1 h.rows.2 (by omega) hin)
  · have hlen := h.square
    exact hj (mem_of_length_eq h.cols.1 h.cols.2 (by omega) hjn)

/-- The dictionary after some picks. -/
def record (mapping : Nat → Option Nat) (picks : List (Nat × Nat)) : Nat → Option Nat :=
  picks.foldl (fun f p => update f p.2 (some p.1)) mapping

/-- **The loop is the greedy run that takes first cells.** -/
theorem matchLoop_greedy : ∀ (k : Nat) {U V : List Nat} {overlap : Overlap}
    (mapping : Nat → Option Nat), Cleared w nPrev nCur U V overlap →
    U.length + k = min nPrev nCur →
    ∃ picks, Greedy w True True U V picks
      ∧ matchLoop nPrev nCur k overlap mapping = record mapping picks := by
  intro k
  induction k with
  | zero =>
    intro U V overlap mapping h hk
    exact ⟨[], Greedy.stop (h.full hk), rfl⟩
  | succ k ih =>
    intro U V overlap mapping h hk
    cases hcell : argmaxCell nPrev nCur overlap with
    | none =>
      -- there are rows and columns left
      have hempty := List.argmax_eq_none.mp hcell
      have hmem : (0, 0) ∈ cells nPrev nCur := mem_cells.mpr (by omega)
      rw [hempty] at hmem
      exact absurd hmem List.not_mem_nil
    | some c =>
      obtain ⟨i, j⟩ := c
      have hmax : ∀ i' ∉ U, ∀ j' ∉ V, 0 < w i' j' → (w i' j' : Int) ≤ overlap i j := by
        intro i' hi' j' hj' hpos
        rw [← h.free hi' hj']
        exact List.le_of_mem_argmax (mem_cells.mpr (h.inside i' j' hpos)) hcell
      by_cases hstop : overlap i j ≤ 0
      · refine ⟨[], Greedy.stop fun i' hi' j' hj' => ?_, matchLoop_stop hcell hstop⟩
        by_contra hne
        have hle := hmax i' hi' j' hj' (by omega)
        omega
      · have hpick : 0 < overlap i j := by omega
        obtain ⟨hi, hj, hpos⟩ := h.pos hpick
        obtain ⟨picks, hrun, hloop⟩ := ih (update mapping j (some i))
          (h.clear hi hj hpos) (by rw [List.length_cons]; omega)
        have hfirst : ∀ i' ∉ U, ∀ j' ∉ V, w i' j' = w i j → i < i' ∨ (i = i' ∧ j ≤ j') := by
          intro i' hi' j' hj' heq
          obtain ⟨hin, hjn⟩ := h.inside i' j' (by omega)
          refine argmaxCell_first hcell hin hjn ?_
          rw [h.free hi' hj', h.free hi hj, heq]
        refine ⟨(i, j) :: picks, Greedy.pick hi hj hpos ?_ ⟨?_, ?_⟩ hrun,
          (matchLoop_pick hcell hpick).trans hloop⟩
        · intro i' hi' j' hj'
          rcases Nat.eq_zero_or_pos (w i' j') with hzero | hpos'
          · omega
          · have hle := hmax i' hi' j' hj' hpos'
            rw [h.free hi hj] at hle
            omega
        · intro _ i' hi' j' hj' heq
          have horder := hfirst i' hi' j' hj' heq
          omega
        · intro _ j' hj' heq
          have horder := hfirst i hi j' hj' heq
          omega

end Loop

/-- The matrix starts uncleared. -/
theorem cleared_overlapMatrix (prev cur : List Nat) :
    Cleared (overlapCount prev cur) (clusters prev) (clusters cur) [] []
      (overlapMatrix prev cur) where
  entry := fun i j => by simp [overlapMatrix_eq]
  inside := fun _ _ h => overlapCount_pos h
  rows := ⟨List.nodup_nil, nofun⟩
  cols := ⟨List.nodup_nil, nofun⟩
  square := rfl

/-! ## §4. The churn. -/

theorem record_eq_some : ∀ {picks : List (Nat × Nat)} {mapping : Nat → Option Nat} {x y : Nat},
    (picks.map Prod.snd).Nodup →
    (record mapping picks y = some x
      ↔ (x, y) ∈ picks ∨ (y ∉ picks.map Prod.snd ∧ mapping y = some x)) := by
  intro picks
  induction picks with
  | nil => simp [record]
  | cons p picks ih =>
    intro mapping x y hnodup
    obtain ⟨i, j⟩ := p
    obtain ⟨hj, hnodup⟩ := List.nodup_cons.mp hnodup
    show record (update mapping j (some i)) picks y = some x ↔ _
    rw [ih hnodup, List.mem_cons, List.map_cons, List.mem_cons, Prod.mk.injEq]
    by_cases hy : y = j
    · subst hy
      have hnone : (x, y) ∉ picks := fun hmem => hj (List.mem_map.mpr ⟨(x, y), hmem, rfl⟩)
      simp [hnone, hj, eq_comm]
    · simp [hy]

/-- The churn is what the recorded run does not keep. -/
theorem churn_of_record {prev cur : List Nat} (hlen : prev.length = cur.length)
    {picks : List (Nat × Nat)} (hrun : Greedy (overlapCount prev cur) True True [] [] picks)
    (hloop : matchLoop (clusters prev) (clusters cur) (min (clusters prev) (clusters cur))
      (overlapMatrix prev cur) (fun _ => none) = record (fun _ => none) picks) :
    reassignmentChurn prev cur
      = ((prev.length : ℚ) - kept (overlapCount prev cur) picks) / prev.length := by
  obtain ⟨hrows, hcols, _⟩ := hrun.nodup
  have hpicks : picks.Nodup := List.Nodup.of_map Prod.snd hcols
  -- a chain stays if its pair of labels was picked
  have hstay : ∀ a : Nat × Nat, record (fun _ => none) picks a.2 = some a.1 ↔ a ∈ picks := by
    intro a
    rw [record_eq_some hcols]
    simp
  have hkept : kept (overlapCount prev cur) picks
      = (prev.zip cur).countP (fun a => decide (a ∈ picks)) := by
    rw [countP_mem _ hpicks]
    rfl
  have htotal : (prev.zip cur).countP (fun a => decide (a ∈ picks))
      + (prev.zip cur).countP (fun a => decide (a ∉ picks)) = prev.length := by
    have hsplit := List.length_eq_countP_add_countP (l := prev.zip cur)
      (fun a => decide (a ∈ picks))
    rw [List.length_zip, ← hlen, Nat.min_self] at hsplit
    simpa using hsplit.symm
  unfold reassignmentChurn
  simp only [hloop, ne_eq, hstay]
  rw [hkept, ← htotal, Nat.cast_add, add_sub_cancel_left]

/-- **The churn is what the run that takes first cells does not keep.** -/
theorem churn_of_first {prev cur : List Nat} (hlen : prev.length = cur.length)
    {picks : List (Nat × Nat)} (hrun : Greedy (overlapCount prev cur) True True [] [] picks) :
    reassignmentChurn prev cur
      = ((prev.length : ℚ) - kept (overlapCount prev cur) picks) / prev.length := by
  obtain ⟨picks', hrun', hloop⟩ := matchLoop_greedy _ (fun _ => none)
    (cleared_overlapMatrix prev cur) (Nat.zero_add _)
  rw [churn_of_record hlen hrun' hloop, hrun.unique hrun']

/-! ## §5. Names. -/

/-- A permutation of the labels in use. -/
def Relabels (labels : List Nat) (p : Equiv.Perm Nat) : Prop := ∀ x, clusters labels ≤ x → p x = x

theorem monotone_of_eq_one {q : Equiv.Perm Nat} (hq : q = 1) : Monotone q := by
  subst hq
  exact monotone_id

section Rules

variable {prev cur : List Nat} {rows cols : Prop}

/-- **Every greedy run gives the churn under some names**, which differ only where no rule is in
force. -/
theorem churn_of_run (hlen : prev.length = cur.length) {picks : List (Nat × Nat)}
    (hrun : Greedy (overlapCount prev cur) rows cols [] [] picks) :
    ∃ p q, Relabels cur p ∧ Relabels prev q ∧ (rows → q = 1) ∧ (cols → p = 1)
      ∧ reassignmentChurn (prev.map q) (cur.map p)
        = ((prev.length : ℚ) - kept (overlapCount prev cur) picks) / prev.length := by
  obtain ⟨hrows, hcols, _⟩ := hrun.nodup
  have hlt : ∀ a ∈ picks, a.1 < clusters prev ∧ a.2 < clusters cur :=
    fun a ha => overlapCount_pos (hrun.pos a ha)
  obtain ⟨q, hq, hqone, hqnames⟩ := exists_names rows _ hrows
    (List.forall_mem_map.mpr fun a ha => (hlt a ha).1)
  obtain ⟨p, hp, hpone, hpnames⟩ := exists_names cols _ hcols
    (List.forall_mem_map.mpr fun a ha => (hlt a ha).2)
  refine ⟨p, q, hp, hq, hqone, hpone, ?_⟩
  have hmapped := hrun.map q p (overlapCount_map p q prev cur)
    (fun h => ⟨h, monotone_of_eq_one (hqone h)⟩) (fun h => ⟨h, monotone_of_eq_one (hpone h)⟩)
  rw [List.map_map] at hqnames hpnames
  have hfirst := hmapped.first (by rwa [List.map_map]) (by rwa [List.map_map])
  rw [churn_of_first (by rw [List.length_map, List.length_map, hlen]) hfirst,
    kept_map q p (overlapCount_map p q prev cur), List.length_map]

/-- Other names give the churn of another run. -/
theorem churn_relabelled (hlen : prev.length = cur.length) (p q : Equiv.Perm Nat)
    (hq : rows → q = 1) (hp : cols → p = 1) :
    ∃ picks, Greedy (overlapCount prev cur) rows cols [] [] picks
      ∧ reassignmentChurn (prev.map q) (cur.map p)
        = ((prev.length : ℚ) - kept (overlapCount prev cur) picks) / prev.length := by
  have hlen' : (prev.map q).length = (cur.map p).length := by
    rw [List.length_map, List.length_map, hlen]
  obtain ⟨picks, hrun, _⟩ := matchLoop_greedy _ (fun _ => none)
    (cleared_overlapMatrix (prev.map q) (cur.map p)) (Nat.zero_add _)
  have hback : ∀ i j, overlapCount prev cur (q.symm i) (p.symm j)
      = overlapCount (prev.map q) (cur.map p) i j := by
    intro i j
    rw [← overlapCount_map p q, q.apply_symm_apply, p.apply_symm_apply]
  have hqback : rows → Monotone q.symm := fun h => monotone_of_eq_one (by rw [hq h]; rfl)
  have hpback : cols → Monotone p.symm := fun h => monotone_of_eq_one (by rw [hp h]; rfl)
  refine ⟨_, hrun.map q.symm p.symm hback (fun h => ⟨trivial, hqback h⟩)
    (fun h => ⟨trivial, hpback h⟩), ?_⟩
  rw [churn_of_first hlen' hrun, kept_map q.symm p.symm hback, List.length_map]

/-- **The names without a rule do not matter exactly if the ties without a rule do not.** -/
theorem invariant_iff_tieFree (hlen : prev.length = cur.length) (hne : prev ≠ []) :
    (∀ p q : Equiv.Perm Nat, Relabels cur p → Relabels prev q → (rows → q = 1) → (cols → p = 1) →
        reassignmentChurn (prev.map q) (cur.map p) = reassignmentChurn prev cur)
      ↔ TieFree (overlapCount prev cur) rows cols := by
  have hsize : (prev.length : ℚ) ≠ 0 :=
    Nat.cast_ne_zero.mpr fun h => hne (List.length_eq_zero_iff.mp h)
  constructor
  · intro hinvariant picks picks' hrun hrun'
    obtain ⟨p, q, hp, hq, hqone, hpone, hchurn⟩ := churn_of_run hlen hrun
    obtain ⟨p', q', hp', hq', hqone', hpone', hchurn'⟩ := churn_of_run hlen hrun'
    rw [hinvariant p q hp hq hqone hpone] at hchurn
    rw [hinvariant p' q' hp' hq' hqone' hpone', hchurn, div_left_inj' hsize, sub_right_inj,
      Nat.cast_inj] at hchurn'
    exact hchurn'
  · intro htie p q _ _ hqone hpone
    obtain ⟨picks, hrun, hchurn⟩ := churn_relabelled hlen p q hqone hpone
    -- the names as they are
    obtain ⟨picks', hrun', hchurn'⟩ := churn_relabelled hlen 1 1
      (fun _ : rows => rfl) (fun _ : cols => rfl)
    rw [hchurn, htie picks picks' hrun hrun', ← hchurn']
    simp

end Rules

/-- **When the churn is independent of the names of the clusters.**  Of the current ones exactly
if all greedy matchings that take a greatest overlap in the first row that has one keep equally
many chains; of the previous ones exactly if all do that take the first greatest overlap of any
row; of both exactly if all do. -/
theorem churn_invariant_iff (prev cur : List Nat) (hlen : prev.length = cur.length)
    (hne : prev ≠ []) :
    ((∀ p : Equiv.Perm Nat, Relabels cur p →
        reassignmentChurn prev (cur.map p) = reassignmentChurn prev cur)
      ↔ TieFree (overlapCount prev cur) True False)
    ∧ ((∀ q : Equiv.Perm Nat, Relabels prev q →
        reassignmentChurn (prev.map q) cur = reassignmentChurn prev cur)
      ↔ TieFree (overlapCount prev cur) False True)
    ∧ ((∀ p q : Equiv.Perm Nat, Relabels cur p → Relabels prev q →
        reassignmentChurn (prev.map q) (cur.map p) = reassignmentChurn prev cur)
      ↔ TieFree (overlapCount prev cur) False False) := by
  have hone : ∀ l : List Nat, l.map (1 : Equiv.Perm Nat) = l := fun l => by simp
  rw [← invariant_iff_tieFree hlen hne, ← invariant_iff_tieFree hlen hne,
    ← invariant_iff_tieFree hlen hne]
  refine ⟨⟨fun h p q hp _ hq _ => ?_, fun h p hp => ?_⟩,
    ⟨fun h p q _ hq _ hp => ?_, fun h q hq => ?_⟩,
    ⟨fun h p q hp hq _ _ => h p q hp hq, fun h p q hp hq => h p q hp hq nofun nofun⟩⟩
  · rw [hq trivial, hone]
    exact h p hp
  · have hkeep := h p 1 hp (fun _ _ => rfl) (fun _ => rfl) nofun
    rwa [hone] at hkeep
  · rw [hp trivial, hone]
    exact h q hq
  · have hkeep := h 1 q (fun _ _ => rfl) hq nofun (fun _ => rfl)
    rwa [hone] at hkeep

theorem relabels_swap {labels : List Nat} (h : clusters labels = 2) :
    Relabels labels (Equiv.swap 0 1) := by
  intro x hx
  rw [h] at hx
  exact Equiv.swap_apply_of_ne_of_ne (by omega) (by omega)

/-- Three overlaps of one chain: cluster 0 became 1, and cluster 1 was split. -/
theorem crossing_pos {i j : Nat} : 0 < overlapCount [0, 1, 1] [1, 0, 1] i j
    ↔ (i = 0 ∧ j = 1) ∨ (i = 1 ∧ j = 0) ∨ (i = 1 ∧ j = 1) := by
  unfold overlapCount
  rw [List.count_pos_iff]
  simp

theorem crossing_le (i j : Nat) : overlapCount [0, 1, 1] [1, 0, 1] i j ≤ 1 :=
  List.nodup_iff_count_le_one.mp (by decide) (i, j)

/-- With either rule the part of cluster 1 that collides with cluster 0 is not matched. -/
theorem crossing_kept {rows cols : Prop} (hrule : rows ∨ cols) {picks : List (Nat × Nat)}
    (h : Greedy (overlapCount [0, 1, 1] [1, 0, 1]) rows cols [] [] picks) :
    kept (overlapCount [0, 1, 1] [1, 0, 1]) picks = 2 := by
  cases h with
  | stop hzero => exact absurd (hzero 0 (by simp) 1 (by simp)) (by decide)
  | @pick _ _ i j picks _ _ hpos hmax htie hrest =>
    have hone : overlapCount [0, 1, 1] [1, 0, 1] i j = 1 := by
      have hle := crossing_le i j
      omega
    rcases crossing_pos.mp hpos with ⟨rfl, rfl⟩ | ⟨rfl, rfl⟩ | ⟨rfl, rfl⟩
    · rw [hrest.eq_single (i := 1) (j := 0) (by simp) (by simp) fun i' hi' j' hj' => by
        rw [crossing_pos]
        simp only [List.mem_singleton] at hi' hj'
        omega]
      decide
    · rw [hrest.eq_single (i := 0) (j := 1) (by simp) (by simp) fun i' hi' j' hj' => by
        rw [crossing_pos]
        simp only [List.mem_singleton] at hi' hj'
        omega]
      decide
    · -- the corner is neither in the first row nor first in its row
      rcases hrule with hrows | hcols
      · exact absurd (htie.row hrows 0 (by simp) 1 (by simp) (by decide)) (by decide)
      · exact absurd (htie.col hcols 0 (by simp) (by decide)) (by decide)

/-- Renaming one side changes nothing here; renaming both does. -/
theorem crossing_churn :
    (reassignmentChurn [0, 1, 1] ([1, 0, 1].map (Equiv.swap 0 1))
        = reassignmentChurn [0, 1, 1] [1, 0, 1])
      ∧ (reassignmentChurn ([0, 1, 1].map (Equiv.swap 0 1)) [1, 0, 1]
        = reassignmentChurn [0, 1, 1] [1, 0, 1])
      ∧ ¬ TieFree (overlapCount [0, 1, 1] [1, 0, 1]) False False := by
  obtain ⟨hcur, hprev, hboth⟩ := churn_invariant_iff [0, 1, 1] [1, 0, 1] rfl (by simp)
  refine ⟨hcur.mpr (fun _ _ h h' => ?_) _ (relabels_swap rfl),
    hprev.mpr (fun _ _ h h' => ?_) _ (relabels_swap rfl), fun htie => ?_⟩
  · rw [crossing_kept (.inl trivial) h, crossing_kept (.inl trivial) h']
  · rw [crossing_kept (.inr trivial) h, crossing_kept (.inr trivial) h']
  · have hsame := hboth.mpr htie (Equiv.swap 0 1) (Equiv.swap 0 1) (relabels_swap rfl)
      (relabels_swap rfl)
    exact absurd hsame (by decide +kernel)

/-- Overlaps 1, 1 and 1, 0: the first tie decides whether one chain is kept or two. -/
theorem churn_depends_on_names :
    (¬ ∀ (prev cur : List Nat) (p : Equiv.Perm Nat), prev.length = cur.length → prev ≠ [] →
        Relabels cur p → reassignmentChurn prev (cur.map p) = reassignmentChurn prev cur)
      ∧ ¬ ∀ (prev cur : List Nat) (q : Equiv.Perm Nat), prev.length = cur.length → prev ≠ [] →
        Relabels prev q → reassignmentChurn (prev.map q) cur = reassignmentChurn prev cur := by
  constructor
  · intro hall
    have h := hall [0, 0, 1] [0, 1, 0] (Equiv.swap 0 1) rfl (by simp) (relabels_swap rfl)
    exact absurd h (by decide +kernel)
  · intro hall
    have h := hall [0, 0, 1] [0, 1, 0] (Equiv.swap 0 1) rfl (by simp) (relabels_swap rfl)
    exact absurd h (by decide +kernel)

end HZKA.Simulator
