/-
  HZKA.Lib.MixedRadix
  ────────────
  **COUNTING IN UNITS THAT DIVIDE EACH OTHER.**

  Radices `[m₁, …, m_k]` fix the units `1, m₁, m₁·m₂, …`, and a vector of `k + 1` counts,
  smallest unit first, has a value in them.  `radixDigits` is the canonical vector of a value:
  each count below its radix, the last one unbounded.

    • `radixValue_digits`  — it has that value;
    • `radixDigits_lt`     — its counts but the last are below their radices;
    • `sum_radixDigits_le` — no vector of the same value has fewer units in total.
-/
import Mathlib.Algebra.Ring.Nat

namespace HZKA.Lib

/-- The value of a vector of counts, smallest unit first. -/
def radixValue : List Nat → List Nat → Nat
  | m :: ms, c :: cs => c + m * radixValue ms cs
  | [], c :: _ => c
  | _, [] => 0

/-- The counts of the canonical vector. -/
def radixDigits : List Nat → Nat → List Nat
  | [], n => [n]
  | m :: ms, n => n % m :: radixDigits ms (n / m)

theorem length_radixDigits (ms : List Nat) : ∀ n : Nat,
    (radixDigits ms n).length = ms.length + 1 := by
  induction ms with
  | nil => exact fun _ => rfl
  | cons m ms ih =>
    intro n
    rw [radixDigits, List.length_cons, ih, List.length_cons]

/-- The digits give the number back. -/
theorem radixValue_digits (ms : List Nat) : ∀ n : Nat, radixValue ms (radixDigits ms n) = n := by
  induction ms with
  | nil => exact fun _ => rfl
  | cons m ms ih =>
    intro n
    rw [radixDigits, radixValue, ih]
    exact Nat.mod_add_div n m

/-- **Canonical**: a count with a radix is below it. -/
theorem radixDigits_lt (ms : List Nat) : ∀ (n i : Nat) {m c : Nat}, 0 < m →
    ms[i]? = some m → (radixDigits ms n)[i]? = some c → c < m := by
  induction ms with
  | nil =>
    intro n i m c _ hm
    cases hm
  | cons m' ms ih =>
    intro n i m c hpos hm hc
    cases i with
    | zero =>
      obtain rfl := Option.some.inj hm
      obtain rfl := Option.some.inj hc
      exact Nat.mod_lt n hpos
    | succ i => exact ih (n / m') i hpos hm hc

/-- More of the smallest unit. -/
theorem radixValue_add_head (ms : List Nat) (k c : Nat) (cs : List Nat) :
    radixValue ms ((c + k) :: cs) = radixValue ms (c :: cs) + k := by
  cases ms with
  | nil => rfl
  | cons m ms =>
    rw [radixValue, radixValue]
    omega

/-- **Minimal**: a vector of the same value has at least as many units.  Whole multiples of a
radix are carried to the next unit, where they count less. -/
theorem sum_radixDigits_le (ms : List Nat) : ∀ cs : List Nat, (∀ m ∈ ms, 0 < m) →
    cs.length = ms.length + 1 → (radixDigits ms (radixValue ms cs)).sum ≤ cs.sum := by
  induction ms with
  | nil =>
    intro cs _ hlen
    obtain ⟨c, rfl⟩ := List.length_eq_one_iff.mp hlen
    exact Nat.le_refl _
  | cons m ms ih =>
    intro cs hpos hlen
    have hm : 0 < m := hpos m List.mem_cons_self
    match cs, hlen with
    | c :: d :: ds, hlen =>
      have hdigit : (c + m * radixValue ms (d :: ds)) % m = c % m := by
        rw [Nat.add_mul_mod_self_left]
      have hcarry : (c + m * radixValue ms (d :: ds)) / m
          = radixValue ms ((d + c / m) :: ds) := by
        rw [Nat.add_mul_div_left _ _ hm, radixValue_add_head, Nat.add_comm]
      have hrest := ih ((d + c / m) :: ds) (fun m' hm' => hpos m' (List.mem_cons_of_mem _ hm'))
        (by simpa using hlen)
      -- a carried unit stands for `m ≥ 1` of the smaller ones
      have hunits : c % m + c / m ≤ c := by
        calc c % m + c / m ≤ c % m + m * (c / m) :=
              Nat.add_le_add_left (Nat.le_mul_of_pos_left _ hm) _
          _ = c := Nat.mod_add_div c m
      rw [radixValue, radixDigits, hdigit, hcarry]
      simp only [List.sum_cons] at hrest ⊢
      omega

end HZKA.Lib
