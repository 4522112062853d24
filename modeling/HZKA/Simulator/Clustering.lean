/-
  HZKA.Simulator.Clustering
  ────────────
  **CAPACITATED CLUSTERING** of the protocol simulator (`_kmedoid_once` and
  `kmedoid_partition` of `hzka_protocol_sim.py`).

  Chains, medoids and clusters are indexed by `Fin`, so an index out of range cannot be
  written down.  `Floats` is what the script uses of floating-point numbers: ties, rounding
  and the order of a sum are left open, and of `argsort` it is only said that it permutes.
  `Generator` is the source of the random draws.

  An assignment is a filling of bins: each chain goes to the first cluster of its preference
  that is not full.  While chains are left there is such a cluster, so the branch for "all
  clusters at capacity" is never taken.

    • `assign_capacitated`         — one assignment, for any medoids;
    • `labels_within_capacity`     — what `_kmedoid_once` returns, and the default capacity;
    • `partition_within_capacity`  — what `kmedoid_partition` returns.
-/
import HZKA.Lib.Bins
import Mathlib.Data.Rat.Floor

namespace HZKA.Simulator

open Function
open HZKA.Lib

/-! ## §1. Numbers and draws. -/

/-- Arrays of floating-point numbers `D`. -/
structure Floats (D : Type) where
  argsort : {m : Nat} → (Fin m → D) → List (Fin m)
  argsort_perm : ∀ {m : Nat} (v : Fin m → D), (argsort v).Perm (List.finRange m)
  argmin : {m : Nat} → 0 < m → (Fin m → D) → Fin m
  amin : {m : Nat} → 0 < m → (Fin m → D) → D
  sum : {m : Nat} → (Fin m → D) → D
  zero : D
  add : D → D → D
  /-- comparison with a cost found before; `none` is `float("inf")` -/
  less : D → Option D → Bool
  /-- the quotient of two integers, as a float -/
  quotient : Nat → Nat → ℚ
  /-- it is off by at most half a unit in the last of 53 places -/
  quotient_close : ∀ a b : Nat, 0 < b → a < 2 ^ 64 →
    |quotient a b - (a : ℚ) / b| ≤ (a : ℚ) / b / 2 ^ 53

/-- `np.random.Generator`: draws without replacement, and single draws. -/
structure Generator where
  State : Type
  choice : {k n : Nat} → n ≤ k → State → (Fin n ↪ Fin k) × State
  integers : {k : Nat} → 0 < k → State → Fin k × State

/-- A distance matrix over `k` chains, to be clustered around `n` medoids. -/
structure Instance (D : Type) where
  k : Nat
  n : Nat
  pos : 1 ≤ n
  le : n ≤ k
  dist : Fin k → Fin k → D

variable {D : Type} (F : Floats D) (rng : Generator) (P : Instance D)

/-- Cluster labels; `-1` is none yet. -/
abbrev Instance.Labels := Fin P.k → Int

/-- One chain per cluster. -/
abbrev Instance.Medoids := Vector (Fin P.k) P.n

theorem Instance.chains_pos : 0 < P.k := Nat.lt_of_lt_of_le P.pos P.le

/-! ## §2. `_kmedoid_once`. -/

/-- `capacity or int(math.ceil(k / n_clusters))`. -/
def capacityOf (k n : Nat) : Option Nat → Nat
  | some (c + 1) => c + 1
  | some 0 => ⌈F.quotient k n⌉.toNat
  | none => ⌈F.quotient k n⌉.toNat

/-- `np.argmin(counts)`, the first of the least. -/
def leastUsed {n : Nat} (hn : 0 < n) (counts : Fin n → Nat) : Fin n :=
  (List.finRange n).foldl (fun best c => if counts c < counts best then c else best) ⟨0, hn⟩

/-- One round of the assignment: chain `a` claims the first cluster of `pref` with room. -/
def place (capacity : Nat) (pref : List (Fin P.n)) (s : P.Labels × (Fin P.n → Nat))
    (a : Fin P.k) : P.Labels × (Fin P.n → Nat) :=
  let c :=
    match pref.find? fun c => decide (s.2 c < capacity) with
    | some c => c
    | none => leastUsed P.pos s.2   -- all clusters at capacity
  (update s.1 a (c.val : Int), update s.2 c (s.2 c + 1))

/-- The preference of a chain: the clusters by the distance of their medoids. -/
def preference (medoids : P.Medoids) (a : Fin P.k) : List (Fin P.n) :=
  F.argsort fun c => P.dist a (medoids.get c)

/-- The capacitated assignment, chains nearest to a medoid first. -/
def assign (capacity : Nat) (medoids : P.Medoids) : P.Labels :=
  let order := F.argsort fun a => F.amin P.pos fun c => P.dist a (medoids.get c)
  (order.foldl (fun s a => place P capacity (preference F P medoids a) s a)
    (fun _ => -1, fun _ => 0)).1

/-- `np.where(labels == c)[0]`. -/
def members (labels : P.Labels) (c : Fin P.n) : List (Fin P.k) :=
  (List.finRange P.k).filter fun a => decide (labels a = (c.val : Int))

/-- The member nearest to the others, or a random chain for a cluster without members. -/
def newMedoid (labels : P.Labels) (c : Fin P.n) : StateM rng.State (Fin P.k) :=
  match members P labels c with
  | [] => rng.integers P.chains_pos
  | a :: rest =>
    let row (i : Fin (rest.length + 1)) : D :=
      F.sum fun j : Fin (rest.length + 1) => P.dist ((a :: rest).get i) ((a :: rest).get j)
    return (a :: rest).get (F.argmin (Nat.succ_pos rest.length) row)

/-- The medoids of a labelling. -/
def newMedoids (labels : P.Labels) : StateM rng.State P.Medoids :=
  Vector.ofFnM (newMedoid F rng P labels)

/-- The iterations; `labels` are those of the last one. -/
def kmedoidLoop (capacity : Nat) : Nat → P.Medoids → P.Labels → StateM rng.State P.Labels
  | 0, _, labels => return labels
  | iters + 1, medoids, _ => do
    let labels := assign F P capacity medoids
    let updated ← newMedoids F rng P labels
    if updated = medoids then
      return labels
    else
      kmedoidLoop capacity iters updated labels

/-- One restart of the clustering. -/
def kmedoidOnce (capacity : Option Nat) (iters : Nat) : StateM rng.State P.Labels := do
  let capacity := capacityOf F P.k P.n capacity
  let medoids ← rng.choice P.le
  kmedoidLoop F rng P capacity iters (Vector.ofFn medoids) fun _ => 0

/-! ## §3. `kmedoid_partition`. -/

/-- The objective: the distances to the best centre of each cluster, summed. -/
def partitionCost (labels : P.Labels) : D :=
  (List.finRange P.n).foldl (fun total c =>
    match members P labels c with
    | [] => total
    | a :: rest =>
      let column (j : Fin (rest.length + 1)) : D :=
        F.sum fun i : Fin (rest.length + 1) => P.dist ((a :: rest).get i) ((a :: rest).get j)
      F.add total (F.amin (Nat.succ_pos rest.length) column)) F.zero

/-- The restarts; `best` has the labels of least cost so far with that cost. -/
def restartLoop (capacity : Option Nat) (iters : Nat) :
    Nat → Option (P.Labels × D) → StateM rng.State (Option (P.Labels × D))
  | 0, best => return best
  | restarts + 1, best => do
    let labels ← kmedoidOnce F rng P capacity iters
    let cost := partitionCost F P labels
    if F.less cost (best.map Prod.snd) then
      restartLoop capacity iters restarts (some (labels, cost))
    else
      restartLoop capacity iters restarts best

/-- `None` if no cost was below infinity. -/
def kmedoidPartition (capacity : Option Nat) (iters restarts : Nat) :
    StateM rng.State (Option P.Labels) := do
  let best ← restartLoop F rng P capacity iters (max 1 restarts) none
  return best.map Prod.fst

/-! ## §4. One assignment. -/

/-- Every chain has a label in `0‥n-1`, and no label is used more than `capacity` times. -/
structure Capacitated {k : Nat} (n capacity : Nat) (labels : Fin k → Int) : Prop where
  range : ∀ a, 0 ≤ labels a ∧ labels a < n
  used : ∀ c : Int, ((List.finRange k).countP fun a => decide (labels a = c)) ≤ capacity

/-- The label of a cluster. -/
def label {n : Nat} (c : Fin n) : Int := (c.val : Int)

theorem label_injective {n : Nat} : Injective (label (n := n)) := by
  intro c d h
  exact Fin.ext (Int.ofNat.inj h)

/-- A preference lists every cluster, so the search ends at one with room. -/
theorem find_free {n capacity : Nat} {pref : List (Fin n)} {counts : Fin n → Nat}
    (hpref : pref.Perm (List.finRange n)) (hfree : ∃ c, counts c < capacity) :
    ∃ c, counts c < capacity ∧ (pref.find? fun c => decide (counts c < capacity)) = some c := by
  obtain ⟨c, hc⟩ := hfree
  cases hfind : pref.find? fun c => decide (counts c < capacity) with
  | none =>
    have hmem : c ∈ pref := hpref.mem_iff.mpr (List.mem_finRange c)
    have hfull := List.find?_eq_none.mp hfind c hmem
    exact absurd (decide_eq_true hc) hfull
  | some d =>
    have hroom := List.find?_some hfind
    exact ⟨d, of_decide_eq_true hroom, rfl⟩

/-- **One round**: while there is room, the chain goes where there is. -/
theorem place_free {capacity : Nat} {pref : List (Fin P.n)}
    (hpref : pref.Perm (List.finRange P.n)) (labels : P.Labels) (counts : Fin P.n → Nat)
    (a : Fin P.k) (hfree : ∃ c, counts c < capacity) :
    ∃ c, counts c < capacity ∧ place P capacity pref (labels, counts) a
      = (update labels a (label c), update counts c (counts c + 1)) := by
  obtain ⟨c, hc, hfind⟩ := find_free hpref hfree
  refine ⟨c, hc, ?_⟩
  unfold place
  dsimp only
  rw [hfind]
  rfl

variable {P} in
/-- What the bins say of all chains. -/
theorem capacitated_of_filled {capacity : Nat} {order : List (Fin P.k)} {labels : P.Labels}
    {counts : Fin P.n → Nat} (horder : order.Perm (List.finRange P.k))
    (h : Filled label capacity order labels counts) : Capacitated P.n capacity labels := by
  have hlabel : ∀ a, ∃ c : Fin P.n, labels a = label c := fun a =>
    h.labelled a (horder.mem_iff.mpr (List.mem_finRange a))
  constructor
  · intro a
    obtain ⟨c, hc⟩ := hlabel a
    have hlt := c.isLt
    rw [hc, label]
    omega
  · intro c
    by_cases hcluster : ∃ b : Fin P.n, c = label b
    · obtain ⟨b, rfl⟩ := hcluster
      rw [← horder.countP_eq, ← h.counted b]
      exact h.within b
    · -- not the label of a cluster: nobody has it
      have hnone : ((List.finRange P.k).countP fun a => decide (labels a = c)) = 0 := by
        rw [List.countP_eq_zero]
        intro a _ heq
        obtain ⟨b, hb⟩ := hlabel a
        exact hcluster ⟨b, (of_decide_eq_true heq).symm.trans hb⟩
      rw [hnone]
      exact Nat.zero_le _

/-- **One assignment**, around any medoids. -/
theorem assign_capacitated {capacity : Nat} (hroom : P.k ≤ P.n * capacity)
    (medoids : P.Medoids) : Capacitated P.n capacity (assign F P capacity medoids) := by
  have horder := F.argsort_perm fun a => F.amin P.pos fun c => P.dist a (medoids.get c)
  have hnodup := horder.nodup_iff.mpr (List.nodup_finRange P.k)
  have hlength := horder.length_eq
  rw [List.length_finRange] at hlength
  refine capacitated_of_filled horder (filled_foldl label_injective ?_ _ _ hnodup ?_)
  · intro labels counts a hfree
    exact place_free P (F.argsort_perm _) labels counts a hfree
  · rw [hlength, Fintype.card_fin]
    exact hroom

/-! ## §5. Iterations. -/

/-- **After at least one iteration the labels are those of an assignment.** -/
theorem kmedoidLoop_assigned (capacity iters : Nat) :
    ∀ (medoids : P.Medoids) (labels : P.Labels) (s : rng.State),
      ∃ last, (kmedoidLoop F rng P capacity (iters + 1) medoids labels s).1
        = assign F P capacity last := by
  induction iters with
  | zero =>
    intro medoids labels s
    refine ⟨medoids, ?_⟩
    rw [kmedoidLoop]
    show ((if _ = medoids then _ else _ : StateM rng.State P.Labels) _).1 = _
    split
    · rfl
    · rfl
  | succ iters ih =>
    intro medoids labels s
    rw [kmedoidLoop]
    show ∃ last, ((if _ = medoids then _ else _ : StateM rng.State P.Labels) _).1 = _
    split
    · exact ⟨medoids, rfl⟩
    · exact ih _ _ _

/-- One start respects the capacity. -/
theorem kmedoidOnce_capacitated (capacity : Option Nat) {iters : Nat} (hiters : 1 ≤ iters)
    (hroom : P.k ≤ P.n * capacityOf F P.k P.n capacity) (s : rng.State) :
    Capacitated P.n (capacityOf F P.k P.n capacity)
      (kmedoidOnce F rng P capacity iters s).1 := by
  obtain ⟨i, rfl⟩ := Nat.exists_eq_add_of_le' hiters
  obtain ⟨last, hlast⟩ := kmedoidLoop_assigned F rng P (capacityOf F P.k P.n capacity) i
    (Vector.ofFn (rng.choice P.le s).1) (fun _ => 0) (rng.choice P.le s).2
  have hrun : (kmedoidOnce F rng P capacity (i + 1) s).1
      = assign F P (capacityOf F P.k P.n capacity) last := hlast
  rw [hrun]
  exact assign_capacitated F P hroom last

/-! ## §6. The default capacity. -/

/-- A quotient short by less than `1/n` rounds up to no less than the exact one. -/
theorem le_mul_ceil {k n : Nat} {q : ℚ} (hn : 0 < n) (hq : (k : ℚ) / n - q < 1 / n) :
    k ≤ n * ⌈q⌉.toNat := by
  have hn' : (0 : ℚ) < n := by exact_mod_cast hn
  have hceil : q ≤ (⌈q⌉.toNat : ℚ) :=
    (Int.le_ceil q).trans (by exact_mod_cast Int.self_le_toNat ⌈q⌉)
  have hscaled : (n : ℚ) * (k / n - q) < n * (1 / n) := mul_lt_mul_of_pos_left hq hn'
  rw [mul_sub, mul_div_cancel₀ _ hn'.ne', mul_one_div_cancel hn'.ne'] at hscaled
  have hlt : (k : ℚ) < n * (⌈q⌉.toNat : ℚ) + 1 := by
    have hmul := mul_le_mul_of_nonneg_left hceil hn'.le
    linarith
  have hnat : k < n * ⌈q⌉.toNat + 1 := by exact_mod_cast hlt
  omega

theorem le_mul_ceil_div {k n : Nat} (hn : 0 < n) : k ≤ n * ⌈(k : ℚ) / n⌉.toNat := by
  have hn' : (0 : ℚ) < n := by exact_mod_cast hn
  refine le_mul_ceil hn ?_
  rw [sub_self]
  exact one_div_pos.mpr hn'

/-- **The default capacity suffices**, with exact division and with that of floats. -/
theorem default_room {k n : Nat} (hn : 0 < n)
    (hquotient : F.quotient k n = (k : ℚ) / n ∨ k < 2 ^ 53) :
    k ≤ n * capacityOf F k n none := by
  have hn' : (0 : ℚ) < n := by exact_mod_cast hn
  rcases hquotient with hexact | hsmall
  · show k ≤ n * ⌈F.quotient k n⌉.toNat
    rw [hexact]
    exact le_mul_ceil_div hn
  · refine le_mul_ceil hn ?_
    -- half a unit in the last place of `k/n` is less than `1/n`
    have hclose := F.quotient_close k n hn (by omega)
    have hshort : (k : ℚ) / n - F.quotient k n ≤ |F.quotient k n - (k : ℚ) / n| := by
      rw [abs_sub_comm]
      exact le_abs_self _
    have hsmall' : (k : ℚ) / 2 ^ 53 < 1 := by
      rw [div_lt_one (by positivity)]
      exact_mod_cast hsmall
    have hunit : (k : ℚ) / n / 2 ^ 53 < 1 / n := by
      rw [div_right_comm]
      exact div_lt_div_of_pos_right hsmall' hn'
    linarith

/-- **Capacitated clustering respects the capacity**: for every matrix, every capacity with
room for all chains, every number of iterations and whatever is drawn.  The default capacity
has room. -/
theorem labels_within_capacity (iters : Nat) (hiters : 1 ≤ iters) (s : rng.State) :
    (∀ c, P.k ≤ P.n * c →
        Capacitated P.n c (kmedoidOnce F rng P (some c) iters s).1)
      ∧ P.k ≤ P.n * ⌈(P.k : ℚ) / P.n⌉.toNat
      ∧ (F.quotient P.k P.n = (P.k : ℚ) / P.n ∨ P.k < 2 ^ 53 →
          P.k ≤ P.n * capacityOf F P.k P.n none
            ∧ Capacitated P.n (capacityOf F P.k P.n none)
                (kmedoidOnce F rng P none iters s).1) := by
  refine ⟨?_, le_mul_ceil_div P.pos, ?_⟩
  · intro c hroom
    cases c with
    | zero =>
      have hpos := P.chains_pos
      omega
    | succ c => exact kmedoidOnce_capacitated F rng P (some (c + 1)) hiters hroom s
  · intro hquotient
    have hroom := default_room F P.pos hquotient
    exact ⟨hroom, kmedoidOnce_capacitated F rng P none hiters hroom s⟩

/-- Natural numbers for floats, with exact quotients. -/
def naturals : Floats Nat where
  argsort := fun v => (List.finRange _).mergeSort fun i j => decide (v i ≤ v j)
  argsort_perm := fun _ => List.mergeSort_perm _ _
  argmin := leastUsed
  amin := fun hm v => v (leastUsed hm v)
  sum := fun v => (List.ofFn v).sum
  zero := 0
  add := Nat.add
  less := fun cost best => best.all fun b => decide (cost < b)
  quotient := fun a b => (a : ℚ) / b
  quotient_close := fun a b _ _ => by
    rw [sub_self, abs_zero]
    positivity

/-- The draws that are always the first. -/
def firstDraws : Generator where
  State := Unit
  choice := fun hle s => (Fin.castLEEmb hle, s)
  integers := fun hk s => (⟨0, hk⟩, s)

/-- Three chains on a line, two clusters. -/
def line : Instance Nat where
  k := 3
  n := 2
  pos := by omega
  le := by omega
  dist := fun a b => (a.val - b.val) + (b.val - a.val)

theorem line_within_capacity :
    Capacitated 2 2 (kmedoidOnce naturals firstDraws line (some 2) 30 ()).1 :=
  (labels_within_capacity naturals firstDraws line 30 (by omega) ()).1 2 (by decide)

/-! ## §7. Restarts. -/

/-- All starts respect the capacity. -/
theorem restartLoop_capacitated {capacity : Option Nat} {iters : Nat} (hiters : 1 ≤ iters)
    (hroom : P.k ≤ P.n * capacityOf F P.k P.n capacity) (restarts : Nat) :
    ∀ (best : Option (P.Labels × D)) (s : rng.State),
      (∀ b ∈ best, Capacitated P.n (capacityOf F P.k P.n capacity) b.1) →
      ∀ b ∈ (restartLoop F rng P capacity iters restarts best s).1,
        Capacitated P.n (capacityOf F P.k P.n capacity) b.1 := by
  induction restarts with
  | zero => exact fun _ _ hbest => hbest
  | succ restarts ih =>
    intro best s hbest
    rw [restartLoop]
    show ∀ b ∈ ((if F.less _ _ = true then _ else _ :
      StateM rng.State (Option (P.Labels × D))) _).1, _
    split
    · refine ih _ _ ?_
      intro b hb
      obtain rfl := Option.mem_some_iff.mp hb
      exact kmedoidOnce_capacitated F rng P capacity hiters hroom s
    · exact ih _ _ hbest

/-- **The best of the restarts respects the capacity.** -/
theorem partition_within_capacity {capacity : Option Nat} {iters restarts : Nat}
    (hiters : 1 ≤ iters) (hroom : P.k ≤ P.n * capacityOf F P.k P.n capacity) (s : rng.State)
    {labels : P.Labels}
    (hlabels : (kmedoidPartition F rng P capacity iters restarts s).1 = some labels) :
    Capacitated P.n (capacityOf F P.k P.n capacity) labels := by
  have hbest := restartLoop_capacitated F rng P hiters hroom (max 1 restarts) none s nofun
  obtain ⟨b, hb, rfl⟩ := Option.map_eq_some_iff.mp hlabels
  exact hbest b hb

end HZKA.Simulator
