/-
  HZKA.Lib.NewtonRoot
  ────────────
  **ONE STEP OF NEWTON'S ITERATION FOR THE INTEGER SQUARE ROOT.**

  From any positive guess `y` the step `(x / y + y) / 2` lands at the root of `x` or above
  it, whatever the two roundings lose, and a step that does not go down started at the root
  or below.  So an iteration that runs as long as it goes down stops at the root.

    • `lt_succ_newtonStep_sq`  — a step never lands below the root;
    • `sq_le_of_le_newtonStep` — where it stops going down is not above the root;
    • `div_add_le`             — the sum in the step exceeds `x` by at most one.
-/
import Mathlib.Tactic.Linarith

namespace HZKA.Lib

/-- The mean of `y` and `x / y`. -/
def newtonStep (x y : Nat) : Nat := (x / y + y) / 2

/-- **The step lands at the root or above.** -/
theorem lt_succ_newtonStep_sq {x y : Nat} (hy : 0 < y) :
    x < (newtonStep x y + 1) * (newtonStep x y + 1) := by
  have hdiv : x < y * (x / y + 1) := Nat.lt_mul_div_succ x hy
  have hmean : (x / y + 1) + y ≤ 2 * (newtonStep x y + 1) := by
    unfold newtonStep
    omega
  -- the square of the mean is at least the product
  have hsq : 4 * (y * (x / y + 1)) ≤ ((x / y + 1) + y) * ((x / y + 1) + y) := by
    nlinarith [sq_nonneg ((x / y + 1 : ℤ) - y)]
  have hstep : ((x / y + 1) + y) * ((x / y + 1) + y)
      ≤ (2 * (newtonStep x y + 1)) * (2 * (newtonStep x y + 1)) := Nat.mul_le_mul hmean hmean
  nlinarith

theorem newtonStep_pos {x y : Nat} (hx : 0 < x) (hy : 0 < y) : 0 < newtonStep x y := by
  have habove := lt_succ_newtonStep_sq (x := x) hy
  by_contra hzero
  rw [Nat.eq_zero_of_not_pos hzero] at habove
  omega

/-- **A step that does not go down started at the root or below.** -/
theorem sq_le_of_le_newtonStep {x y : Nat} (hy : 0 < y) (h : y ≤ newtonStep x y) :
    y * y ≤ x := by
  have hle : y ≤ x / y := by
    unfold newtonStep at h
    omega
  exact (Nat.le_div_iff_mul_le hy).mp hle

/-- The sum does not overflow. -/
theorem div_add_le {x y : Nat} (hy : 0 < y) (hle : y ≤ x) : x / y + y ≤ x + 1 := by
  have hquotient : 1 ≤ x / y := (Nat.one_le_div_iff hy).mpr hle
  have hmul : x / y * y ≤ x := Nat.div_mul_le_self x y
  obtain ⟨q, hq⟩ := Nat.exists_eq_add_of_le hquotient
  obtain ⟨r, hr⟩ := Nat.exists_eq_add_of_le hy
  rw [hq, hr] at hmul
  rw [hq, hr]
  nlinarith

end HZKA.Lib
