/-
  HZKA.Lib.SingleDip — sequences that fall, turn once, and never fall again.

    • `singleDip_of_step` — in a well-founded order it is enough that one step that does not
      fall is followed by another;
    • `SingleDip.comp`    — a monotone function keeps the shape.
-/
import Mathlib.Data.Nat.Find
import Mathlib.Order.WellFounded

namespace HZKA.Lib

variable {α β : Type}

/-- Non-increasing up to some index, non-decreasing from there on. -/
def SingleDip [LE α] (f : Nat → α) : Prop :=
  ∃ turn, (∀ n < turn, f (n + 1) ≤ f n) ∧ ∀ n, turn ≤ n → f n ≤ f (n + 1)

/-- A sequence cannot fall forever. -/
theorem exists_not_falling [LinearOrder α] [WellFoundedLT α] (f : Nat → α) :
    ∃ n, f n ≤ f (n + 1) := by
  obtain ⟨_, ⟨n, rfl⟩, hleast⟩ := wellFounded_lt.has_min (Set.range f) ⟨f 0, 0, rfl⟩
  exact ⟨n, not_lt.mp (hleast _ ⟨n + 1, rfl⟩)⟩

/-- **One step that does not fall is followed by another.** -/
theorem singleDip_of_step [LinearOrder α] [WellFoundedLT α] {f : Nat → α}
    (hstep : ∀ n, f n ≤ f (n + 1) → f (n + 1) ≤ f (n + 2)) : SingleDip f := by
  classical
  -- the turn is the first step that does not fall
  have hex := exists_not_falling f
  refine ⟨Nat.find hex, ?_, ?_⟩
  · intro n hn
    exact le_of_lt (not_le.mp (Nat.find_min hex hn))
  · intro n hn
    induction n, hn using Nat.le_induction with
    | base => exact Nat.find_spec hex
    | succ n _ ih => exact hstep n ih

/-- A monotone map keeps the dip. -/
theorem SingleDip.comp [Preorder α] [Preorder β] {f : Nat → α} {g : α → β} (hg : Monotone g)
    (hf : SingleDip f) : SingleDip (fun n => g (f n)) := by
  obtain ⟨turn, hfall, hrise⟩ := hf
  exact ⟨turn, fun n hn => hg (hfall n hn), fun n hn => hg (hrise n hn)⟩

end HZKA.Lib
