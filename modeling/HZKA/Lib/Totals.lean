/-
  HZKA.Lib.Totals
  ────────────
  **THE TOTAL OF A MAPPING** over all of its keys, a finite type that is never
  enumerated.

    • `total_change` — two mappings that agree off one key: the totals differ by what
      stands at that key (stated with `+` on both sides, so nothing is truncated);
    • `le_total`     — one entry is at most the total.
-/
import Mathlib.Algebra.BigOperators.Finprod
import Mathlib.Algebra.Order.BigOperators.Group.Finset

namespace HZKA.Lib

variable {κ : Type}

/-- The sum of the entries over all keys. -/
noncomputable def total (f : κ → Nat) : Nat := ∑ᶠ k, f k

@[simp] theorem total_zero : total (fun _ : κ => 0) = 0 := finsum_zero

variable [Finite κ]

/-- Totals add. -/
theorem total_add (f g : κ → Nat) : total (fun k => f k + g k) = total f + total g := by
  unfold total
  exact finsum_add_distrib (Set.toFinite _) (Set.toFinite _)

/-- **Writing at one key.** -/
theorem total_change {f g : κ → Nat} (k : κ) (h : ∀ k', k' ≠ k → f k' = g k') :
    total f + g k = total g + f k := by
  classical
  have := Fintype.ofFinite κ
  -- both sums run over the other keys and then `k`
  have hrest : ∑ k' ∈ Finset.univ.erase k, f k' = ∑ k' ∈ Finset.univ.erase k, g k' :=
    Finset.sum_congr rfl (fun k' hk' => h k' (Finset.ne_of_mem_erase hk'))
  unfold total
  rw [finsum_eq_sum_of_fintype, finsum_eq_sum_of_fintype,
    ← Finset.add_sum_erase _ f (Finset.mem_univ k), ← Finset.add_sum_erase _ g (Finset.mem_univ k),
    hrest]
  omega

/-- A part is at most the whole. -/
theorem le_total (f : κ → Nat) (k : κ) : f k ≤ total f := by
  have := Fintype.ofFinite κ
  unfold total
  rw [finsum_eq_sum_of_fintype]
  exact Finset.single_le_sum (fun _ _ => Nat.zero_le _) (Finset.mem_univ k)

end HZKA.Lib
