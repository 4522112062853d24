/-
  HZKA.Lib.WeightedChoice
  ────────────
  **CHOICE BY CUMULATIVE WEIGHT.**

  A ticket below the total weight is looked up by walking over the weights, adding them
  up, and stopping at the first position where the sum exceeds the ticket.

    • `choose_eq_some_iff` — position `i` is chosen exactly by the tickets from the sum
      before `i` up to the sum through `i`;
    • `card_choose`        — these are as many tickets as `i` has weight;
    • `exists_choose`      — every ticket below the total chooses.
-/
import Mathlib.Algebra.Ring.Nat
import Mathlib.Order.Interval.Finset.Nat
import Mathlib.Tactic.Common

namespace HZKA.Lib

/-- The sum of the weights before position `i`. -/
def prefixSum (weights : List Nat) (i : Nat) : Nat := (weights.take i).sum

/-- The walk, from a cumulative weight on. -/
def choose (ticket : Nat) : List Nat → Nat → Option Nat
  | [], _ => none
  | w :: rest, cumulative =>
    if ticket < cumulative + w then some 0
    else (choose ticket rest (cumulative + w)).map (· + 1)

theorem prefixSum_zero (weights : List Nat) : prefixSum weights 0 = 0 := rfl

theorem prefixSum_cons (w : Nat) (rest : List Nat) (i : Nat) :
    prefixSum (w :: rest) (i + 1) = w + prefixSum rest i := by
  unfold prefixSum
  rw [List.take_succ_cons, List.sum_cons]

/-- One weight more. -/
theorem prefixSum_succ {weights : List Nat} {i : Nat} (hi : i < weights.length) :
    prefixSum weights (i + 1) = prefixSum weights i + weights[i] := by
  unfold prefixSum
  rw [List.take_succ_eq_append_getElem hi, List.sum_append, List.sum_singleton]

theorem prefixSum_le (weights : List Nat) (i : Nat) : prefixSum weights i ≤ weights.sum := by
  have hsplit : (weights.take i).sum + (weights.drop i).sum = weights.sum := by
    rw [← List.sum_append, List.take_append_drop]
  unfold prefixSum
  omega

/-- The walk stops at `i` exactly for the tickets of `i`. -/
theorem choose_iff {ticket : Nat} (weights : List Nat) :
    ∀ {cumulative i : Nat}, cumulative ≤ ticket →
      (choose ticket weights cumulative = some i
        ↔ i < weights.length ∧ cumulative + prefixSum weights i ≤ ticket
          ∧ ticket < cumulative + prefixSum weights (i + 1)) := by
  induction weights with
  | nil =>
    intro cumulative i _
    simp [choose]
  | cons w rest ih =>
    intro cumulative i hle
    unfold choose
    by_cases hstop : ticket < cumulative + w
    · -- the first position takes the ticket, so no later one does
      rw [if_pos hstop]
      cases i with
      | zero =>
        rw [prefixSum_cons, prefixSum_zero, prefixSum_zero]
        simp [hle, hstop]
      | succ i =>
        rw [prefixSum_cons]
        simp only [Option.some.injEq]
        omega
    · rw [if_neg hstop, Option.map_eq_some_iff]
      cases i with
      | zero =>
        rw [prefixSum_cons, prefixSum_zero, prefixSum_zero]
        constructor
        · intro ⟨j, _, hj⟩
          omega
        · intro h
          omega
      | succ i =>
        have hrest := @ih (cumulative + w) i (by omega)
        rw [prefixSum_cons, prefixSum_cons, List.length_cons]
        constructor
        · intro ⟨j, hchoose, hj⟩
          obtain rfl : j = i := by omega
          obtain ⟨hlen, hlow, hhigh⟩ := hrest.mp hchoose
          omega
        · intro ⟨hlen, hlow, hhigh⟩
          exact ⟨i, hrest.mpr (by omega), rfl⟩

/-- **Position `i` is chosen by the tickets of its interval.** -/
theorem choose_eq_some_iff {ticket : Nat} {weights : List Nat} {i : Nat} :
    choose ticket weights 0 = some i
      ↔ i < weights.length ∧ prefixSum weights i ≤ ticket ∧ ticket < prefixSum weights (i + 1) := by
  have h := @choose_iff ticket weights 0 i (Nat.zero_le ticket)
  rw [Nat.zero_add, Nat.zero_add] at h
  exact h

/-- **Each position has as many tickets as weight.** -/
theorem card_choose {weights : List Nat} {i : Nat} (hi : i < weights.length) :
    ((Finset.range weights.sum).filter (fun ticket => choose ticket weights 0 = some i)).card
      = weights[i] := by
  have hinterval : (Finset.range weights.sum).filter
      (fun ticket => choose ticket weights 0 = some i)
      = Finset.Ico (prefixSum weights i) (prefixSum weights (i + 1)) := by
    have hle := prefixSum_le weights (i + 1)
    ext ticket
    rw [Finset.mem_filter, Finset.mem_range, Finset.mem_Ico, choose_eq_some_iff]
    omega
  rw [hinterval, Nat.card_Ico, prefixSum_succ hi]
  omega

/-- **Every ticket below the total chooses.** -/
theorem exists_choose {ticket : Nat} (weights : List Nat) :
    ∀ cumulative : Nat, ticket < cumulative + weights.sum → cumulative ≤ ticket →
      ∃ i, choose ticket weights cumulative = some i := by
  induction weights with
  | nil =>
    intro cumulative hlt hle
    rw [List.sum_nil] at hlt
    omega
  | cons w rest ih =>
    intro cumulative hlt hle
    rw [List.sum_cons] at hlt
    unfold choose
    by_cases hstop : ticket < cumulative + w
    · exact ⟨0, if_pos hstop⟩
    · obtain ⟨i, hi⟩ := ih (cumulative + w) (by omega) (by omega)
      refine ⟨i + 1, ?_⟩
      rw [if_neg hstop, hi]
      rfl

/-- A position that is chosen has weight. -/
theorem pos_of_choose {ticket : Nat} {weights : List Nat} {i : Nat} (hi : i < weights.length)
    (h : choose ticket weights 0 = some i) : 0 < weights[i] := by
  obtain ⟨-, hlow, hhigh⟩ := choose_eq_some_iff.mp h
  rw [prefixSum_succ hi] at hhigh
  omega

end HZKA.Lib
