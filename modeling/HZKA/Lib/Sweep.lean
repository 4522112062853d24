/-
  HZKA.Lib.Sweep
  ────────────
  **ONE PASS OVER A TABLE**, with a state handed from cell to cell.

  `sweep f is cells g` visits the indices `is` in order.  At index `i` the function `f` sees
  the cell of `i` and the state as the cells before have left it; it writes the cell, hands
  the state on and puts one value out.  A loop over all parties that draws random numbers on
  the way is such a pass.

    • `sweep_spec` — if no index comes twice, each cell is what `f` makes of the OLD cell at
      some state, and the outputs are those of the same states, in order.
-/
import Mathlib.Data.List.Nodup
import Mathlib.Logic.Function.Basic

namespace HZKA.Lib

open Function

variable {ι α β σ : Type} [DecidableEq ι]

/-- One visit to each cell, with a state handed on. -/
def sweep (f : ι → α → σ → (α × β) × σ) : List ι → (ι → α) → σ → ((ι → α) × List β) × σ
  | [], cells, g => ((cells, []), g)
  | i :: is, cells, g =>
    let visit := f i (cells i) g
    let rest := sweep f is (update cells i visit.1.1) visit.2
    ((rest.1.1, visit.1.2 :: rest.1.2), rest.2)

/-- The table and the outputs after a pass in which index `i` was visited at `seen i`. -/
structure Swept (f : ι → α → σ → (α × β) × σ) (is : List ι) (cells : ι → α)
    (result : (ι → α) × List β) (seen : ι → σ) : Prop where
  cell : ∀ i ∈ is, result.1 i = (f i (cells i) (seen i)).1.1
  other : ∀ i, i ∉ is → result.1 i = cells i
  outputs : result.2 = is.map fun i => (f i (cells i) (seen i)).1.2

/-- **Each cell is visited once**. -/
theorem sweep_spec (f : ι → α → σ → (α × β) × σ) {is : List ι} (hnodup : is.Nodup)
    (cells : ι → α) (g : σ) : ∃ seen, Swept f is cells (sweep f is cells g).1 seen := by
  induction is generalizing cells g with
  | nil => exact ⟨fun _ => g, fun _ h => absurd h List.not_mem_nil, fun _ _ => rfl, rfl⟩
  | cons i is ih =>
    obtain ⟨hnot, hrest⟩ := List.nodup_cons.mp hnodup
    let visit := f i (cells i) g
    obtain ⟨seen, hseen⟩ := ih hrest (update cells i visit.1.1) visit.2
    -- the indices still to come are not `i`, so their cells are the old ones
    have hne : ∀ j ∈ is, j ≠ i := fun j hj heq => hnot (heq ▸ hj)
    have hold : ∀ j ∈ is, f j (update cells i visit.1.1 j) (seen j)
        = f j (cells j) (update seen i g j) := by
      intro j hj
      rw [update_of_ne (hne j hj), update_of_ne (hne j hj)]
    refine ⟨update seen i g, ?_, ?_, ?_⟩
    · intro j hj
      rcases List.mem_cons.mp hj with rfl | htail
      · show (sweep f is _ visit.2).1.1 j = _
        rw [hseen.other j hnot, update_self, update_self]
      · show (sweep f is _ visit.2).1.1 j = _
        rw [hseen.cell j htail, hold j htail]
    · intro j hj
      have hj' := List.not_mem_of_not_mem_cons hj
      show (sweep f is _ visit.2).1.1 j = _
      rw [hseen.other j hj', update_of_ne (List.ne_of_not_mem_cons hj)]
    · show visit.1.2 :: (sweep f is _ visit.2).1.2 = _
      rw [hseen.outputs, List.map_cons, update_self]
      congr 1
      apply List.map_congr_left
      intro j hj
      rw [hold j hj]

end HZKA.Lib
