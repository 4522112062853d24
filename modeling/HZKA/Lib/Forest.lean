/-
  HZKA.Lib.Forest
  ────────────
  **A FOREST STORED TWICE**, as parent pointers and as child lists.

  Nodes are numbered `1, 2, …` in the order of their creation, `0` stands for "no parent".
  `Forest next parent children` says that the two encodings agree on the nodes below
  `next`.

    • `Forest.insert`  — a new node, hung under an older one or under nothing, keeps it;
    • `Forest.reaches` — from a node, following parents ends at `0`.
-/
import Mathlib.Data.List.Count
import Mathlib.Logic.Function.Iterate
import Mathlib.Tactic.Common

namespace HZKA.Lib

open Function

/-- Nodes numbered in the order they were added, under their parents. -/
structure Forest (next : Nat) (parent : Nat → Nat) (children : Nat → List Nat) : Prop where
  /-- parents are older -/
  older : ∀ n, 0 < n → n < next → parent n < n
  /-- a node is listed once by its parent -/
  listed : ∀ n, 0 < n → n < next → 0 < parent n → (children (parent n)).count n = 1
  /-- and whatever is listed is a child -/
  child : ∀ p n, n ∈ children p → 0 < n ∧ n < next ∧ 0 < p ∧ parent n = p

variable {next : Nat} {parent : Nat → Nat} {children : Nat → List Nat}

/-- No nodes yet. -/
theorem forest_empty (parent : Nat → Nat) : Forest 1 parent (fun _ => []) where
  older := fun n hpos hlt => by omega
  listed := fun n hpos hlt => by omega
  child := fun p n h => absurd h List.not_mem_nil

/-- Only the parent lists a node. -/
theorem Forest.not_listed (h : Forest next parent children) {p n : Nat} (hp : p ≠ parent n) :
    n ∉ children p := by
  intro hmem
  obtain ⟨-, -, -, hparent⟩ := h.child p n hmem
  exact hp hparent.symm

/-- A number that is not yet a node is listed nowhere. -/
theorem Forest.fresh (h : Forest next parent children) (p : Nat) : next ∉ children p := by
  intro hmem
  obtain ⟨-, hlt, -⟩ := h.child p next hmem
  omega

/-- The child lists after hanging `n` under `p`. -/
def hang (p n : Nat) (children : Nat → List Nat) : Nat → List Nat :=
  if 0 < p then update children p (children p ++ [n]) else children

/-- The children after a node was hung. -/
theorem mem_hang {p n q m : Nat} :
    m ∈ hang p n children q ↔ m ∈ children q ∨ 0 < p ∧ q = p ∧ m = n := by
  unfold hang
  by_cases hp : 0 < p
  · rw [if_pos hp]
    by_cases hq : q = p
    · subst hq
      rw [update_self, List.mem_append, List.mem_singleton]
      simp [hp]
    · rw [update_of_ne hq]
      simp [hq]
  · rw [if_neg hp]
    simp [hp]

/-- The new node is counted once more under its parent; nothing else changes. -/
theorem count_hang (p n q m : Nat) :
    (hang p n children q).count m
      = (children q).count m + if 0 < p ∧ q = p ∧ n = m then 1 else 0 := by
  unfold hang
  by_cases hp : 0 < p
  · rw [if_pos hp]
    by_cases hq : q = p
    · subst hq
      rw [update_self, List.count_append, List.count_singleton]
      simp [hp]
    · rw [update_of_ne hq]
      simp [hq]
  · rw [if_neg hp]
    simp [hp]

/-- **Insertion.**  The number `next` becomes a node under `p`. -/
theorem Forest.insert (h : Forest next parent children) (hnext : 0 < next) {p : Nat}
    (hp : p < next) :
    Forest (next + 1) (update parent next p) (hang p next children) := by
  refine ⟨?_, ?_, ?_⟩
  · intro n hpos hlt
    by_cases hn : n = next
    · rw [hn, update_self]
      exact hp
    · rw [update_of_ne hn]
      exact h.older n hpos (by omega)
  · intro n hpos hlt hparent
    rw [count_hang]
    by_cases hn : n = next
    · -- the new node: not listed before, hung once
      rw [hn, update_self] at hparent ⊢
      rw [List.count_eq_zero.mpr (h.fresh p)]
      simp [hparent]
    · rw [update_of_ne hn] at hparent ⊢
      rw [h.listed n hpos (by omega) hparent]
      simp [Ne.symm hn]
  · intro q n hmem
    rcases mem_hang.mp hmem with hold | ⟨hq, rfl, rfl⟩
    · obtain ⟨hpos, hlt, hq, hparent⟩ := h.child q n hold
      rw [update_of_ne (by omega)]
      exact ⟨hpos, by omega, hq, hparent⟩
    · rw [update_self]
      exact ⟨hnext, by omega, hq, rfl⟩

/-- **Following parents ends at `0`**, after at most as many steps as the node's number. -/
theorem Forest.reaches (h : Forest next parent children) {n : Nat} (hn : n < next) :
    ∃ k ≤ n, parent^[k] n = 0 := by
  induction n using Nat.strongRecOn with
  | _ n ih =>
    by_cases hzero : n = 0
    · exact ⟨0, Nat.zero_le n, hzero⟩
    · have holder := h.older n (by omega) hn
      obtain ⟨k, hk, hend⟩ := ih (parent n) holder (by omega)
      refine ⟨k + 1, by omega, ?_⟩
      rw [iterate_succ_apply]
      exact hend

end HZKA.Lib
