/-
  HZKA.Lib.Shuffle — the Fisher–Yates shuffle with an arbitrary source of draws.

  `shuffle pick l` runs the loop `i = n-1, …, 1`, swapping position `i` with position
  `pick i % (i + 1)`.

    • `shuffle_perm` — whatever the draws, the result is a permutation of the list.
-/
import Mathlib.Data.List.Basic
import Mathlib.Tactic.Common

namespace HZKA.Lib

variable {α : Type}

/-- The list with positions `i` and `j` exchanged. -/
def swapAt (l : List α) (i j : Nat) : List α :=
  match l[i]?, l[j]? with
  | some x, some y => (l.set i y).set j x
  | _, _ => l

/-- A swap permutes. -/
theorem swapAt_perm (l : List α) (i j : Nat) : (swapAt l i j).Perm l := by
  unfold swapAt
  split
  · rename_i x y hx hy
    obtain ⟨hi, rfl⟩ := List.getElem?_eq_some_iff.mp hx
    obtain ⟨hj, rfl⟩ := List.getElem?_eq_some_iff.mp hy
    exact List.set_set_perm hi hj
  · exact List.Perm.refl l

/-- The loop from position `i` down to 1. -/
def shuffleFrom (pick : Nat → Nat) : Nat → List α → List α
  | 0, l => l
  | i + 1, l => shuffleFrom pick i (swapAt l (i + 1) (pick (i + 1) % (i + 2)))

/-- The shuffle, from the last position down. -/
def shuffle (pick : Nat → Nat) (l : List α) : List α := shuffleFrom pick (l.length - 1) l

/-- **The shuffle permutes**. -/
theorem shuffleFrom_perm (pick : Nat → Nat) (i : Nat) (l : List α) :
    (shuffleFrom pick i l).Perm l := by
  induction i generalizing l with
  | zero => exact List.Perm.refl l
  | succ i ih => exact (ih _).trans (swapAt_perm l _ _)

/-- **Shuffling permutes.** -/
theorem shuffle_perm (pick : Nat → Nat) (l : List α) : (shuffle pick l).Perm l :=
  shuffleFrom_perm pick _ l

end HZKA.Lib
