/-
  HZKA.Clusters.Complexity
  ────────────
  **THE SQUARE ROOT OF THE CLUSTER MANAGER** and the view that reports it.

  `_sqrt` iterates Newton's step while it goes down.  The iterates never fall below the
  root, so the loop stops at it; the sum of a step exceeds `x` by at most one, so nothing
  overflows where `x + 1` does not.  For the one word where it does, `2^256 - 1`, the very
  first addition reverts.

    • `sqrt_eq`                 — the root of every `x` below `2^256 - 1`;
    • `sqrt_max`                — the revert at the top;
    • `reduction_balanced`      — `getComplexityInfo` divides the chains evenly: the reduction
                                  is the number of clusters, give or take two.
-/
import HZKA.Contracts.ClusterManager
import HZKA.Lib.NewtonRoot

namespace HZKA.ClusterManager

open HZKA.Lib

/-! ## §1. The loop. -/

/-- The second variable of the loop is the next iterate. -/
theorem sqrtLoop_step {x y : Nat} (hroom : x + 1 < 2 ^ 256) (hy : 0 < y) (hle : y ≤ x)
    (hdown : newtonStep x y < y) :
    sqrtLoop x y (newtonStep x y)
      = sqrtLoop x (newtonStep x y) (newtonStep x (newtonStep x y)) := by
  have hpos : 0 < newtonStep x y := newtonStep_pos (Nat.lt_of_lt_of_le hy hle) hy
  have hsum := div_add_le hpos (Nat.le_of_lt (Nat.lt_of_lt_of_le hdown hle))
  have hdiv : divU256 x (newtonStep x y) = .ok (x / newtonStep x y) :=
    divU256_eq_ok.mpr ⟨Nat.ne_of_gt hpos, rfl⟩
  have hadd : addU256 (x / newtonStep x y) (newtonStep x y)
      = .ok (x / newtonStep x y + newtonStep x y) :=
    addU256_eq_ok.mpr ⟨Nat.lt_of_le_of_lt hsum hroom, rfl⟩
  rw [sqrtLoop, dif_pos hdown, hdiv, ok_bind, hadd, ok_bind]
  rfl

/-- **The loop ends at the root**, from any iterate that is not below it. -/
theorem sqrtLoop_eq {x : Nat} (hroom : x + 1 < 2 ^ 256) (y : Nat) :
    0 < y → y ≤ x → x < (y + 1) * (y + 1) →
      sqrtLoop x y (newtonStep x y) = .ok (Nat.sqrt x) := by
  induction y using Nat.strong_induction_on with
  | _ y ih =>
    intro hy hle habove
    by_cases hdown : newtonStep x y < y
    · have hpos : 0 < newtonStep x y := newtonStep_pos (Nat.lt_of_lt_of_le hy hle) hy
      rw [sqrtLoop_step hroom hy hle hdown]
      exact ih (newtonStep x y) hdown hpos (by omega) (lt_succ_newtonStep_sq hy)
    · -- the step no longer goes down: `y` is the root
      have hbelow := sq_le_of_le_newtonStep hy (Nat.le_of_not_lt hdown)
      rw [sqrtLoop, dif_neg hdown, Nat.eq_sqrt.mpr ⟨hbelow, habove⟩]

/-! ## §2. The root. -/

/-- **`_sqrt` returns the root** where `x + 1` fits. -/
theorem sqrt_eq {x : Nat} (hroom : x + 1 < 2 ^ 256) : sqrt x = .ok (Nat.sqrt x) := by
  unfold sqrt
  by_cases hzero : x = 0
  · rw [if_pos hzero, hzero, Nat.sqrt_zero]
  · have hpos : 0 < x := Nat.pos_of_ne_zero hzero
    have hfirst : (x + 1) / 2 = newtonStep x x := by
      unfold newtonStep
      rw [Nat.div_self hpos, Nat.add_comm]
    have hadd : addU256 x 1 = .ok (x + 1) := addU256_eq_ok.mpr ⟨hroom, rfl⟩
    rw [if_neg hzero, hadd, ok_bind, hfirst]
    refine sqrtLoop_eq hroom x hpos (Nat.le_refl x) ?_
    nlinarith

/-- The top of the range: the first addition overflows. -/
theorem sqrt_max : sqrt (2 ^ 256 - 1) = .error .panic := by
  unfold sqrt
  rw [if_neg (by norm_num)]
  have hadd : addU256 (2 ^ 256 - 1) 1 = .error .panic := by
    unfold addU256
    rw [if_neg (by norm_num)]
  rw [hadd]
  rfl

/-- `y` is the integer square root of `x`. -/
def IsRoot (x y : Nat) : Prop := y * y ≤ x ∧ x < (y + 1) * (y + 1)

/-- The root is the integer square root. -/
theorem isRoot_iff {x y : Nat} : IsRoot x y ↔ y = Nat.sqrt x := Nat.eq_sqrt.symm

/-- **The integer square root**, of every word but the greatest: the call returns, and what
it returns is the only root. -/
theorem sqrt_returns_root (x : Nat) (hx : x < 2 ^ 256 - 1) :
    ∃ y, sqrt x = .ok y ∧ IsRoot x y ∧ ∀ y', IsRoot x y' → y' = y := by
  have hroom : x + 1 < 2 ^ 256 := by omega
  refine ⟨Nat.sqrt x, sqrt_eq hroom, isRoot_iff.mpr rfl, ?_⟩
  intro y' hroot
  exact isRoot_iff.mp hroot

/-- Ninety-nine, just below a square. -/
theorem sqrt_ninetyNine : ∃ y, sqrt 99 = .ok y ∧ IsRoot 99 y ∧ ∀ y', IsRoot 99 y' → y' = y :=
  sqrt_returns_root 99 (by norm_num)

/-- The greatest word has a root, and the call reverts. -/
theorem sqrt_reverts_at_max : ¬ ∀ x < 2 ^ 256, ∃ y, sqrt x = .ok y ∧ IsRoot x y := by
  intro hall
  obtain ⟨y, hok, _⟩ := hall (2 ^ 256 - 1) (by norm_num)
  rw [sqrt_max] at hok
  cases hok

/-! ## §3. `getComplexityInfo`. -/

/-- A root that was returned is one of a word below the greatest. -/
theorem room_of_sqrt {x y : Nat} (hpos : 0 < x) (h : sqrt x = .ok y) : x + 1 < 2 ^ 256 := by
  unfold sqrt at h
  rw [if_neg (Nat.ne_of_gt hpos), bind_eq_ok] at h
  obtain ⟨sum, hadd, _⟩ := h
  exact (addU256_eq_ok.mp hadd).1

theorem getComplexityInfo_eq {totalChains : Nat} (hpos : 0 < totalChains)
    (hroom : totalChains + 1 < 2 ^ 256) :
    getComplexityInfo totalChains
      = .ok (Nat.sqrt totalChains, Nat.sqrt totalChains, totalChains / Nat.sqrt totalChains) := by
  have hroot : Nat.sqrt totalChains ≠ 0 := Nat.ne_of_gt (Nat.sqrt_pos.mpr hpos)
  have hdiv : divU256 totalChains (Nat.sqrt totalChains)
      = .ok (totalChains / Nat.sqrt totalChains) := divU256_eq_ok.mpr ⟨hroot, rfl⟩
  unfold getComplexityInfo
  rw [sqrt_eq hroom, ok_bind]
  dsimp only
  rw [if_neg hroot, hdiv]
  rfl

/-- **Clusters and reduction are balanced**: as many clusters as each saves, up to two. -/
theorem reduction_balanced {totalChains clusterCount proofPerAuditor reduction : Nat}
    (hpos : 0 < totalChains)
    (hinfo : getComplexityInfo totalChains = .ok (clusterCount, proofPerAuditor, reduction)) :
    clusterCount ≤ reduction ∧ reduction ≤ clusterCount + 2 := by
  obtain ⟨root, hsqrt, _⟩ := bind_eq_ok.mp hinfo
  have hroom := room_of_sqrt hpos hsqrt
  rw [getComplexityInfo_eq hpos hroom, Except.ok.injEq, Prod.mk.injEq, Prod.mk.injEq] at hinfo
  obtain ⟨rfl, rfl, rfl⟩ := hinfo
  have hroot : 0 < Nat.sqrt totalChains := Nat.sqrt_pos.mpr hpos
  have hbelow : Nat.sqrt totalChains * Nat.sqrt totalChains ≤ totalChains :=
    Nat.sqrt_le totalChains
  have habove : totalChains
      ≤ Nat.sqrt totalChains * Nat.sqrt totalChains + Nat.sqrt totalChains
        + Nat.sqrt totalChains := Nat.sqrt_le_add totalChains
  constructor
  · exact (Nat.le_div_iff_mul_le hroot).mpr hbelow
  · have hlt : totalChains / Nat.sqrt totalChains < Nat.sqrt totalChains + 3 := by
      rw [Nat.div_lt_iff_lt_mul hroot]
      nlinarith
    omega

/-- Fifteen chains: three clusters, each auditor five times fewer proofs. -/
theorem fifteen_balanced : getComplexityInfo 15 = .ok (3, 3, 5) ∧ 3 ≤ 5 ∧ 5 ≤ 3 + 2 := by
  have hinfo : getComplexityInfo 15 = .ok (3, 3, 5) := by decide +kernel
  exact ⟨hinfo, reduction_balanced (by omega) hinfo⟩

end HZKA.ClusterManager
