/-
  HZKA.Lib.Interleaving
  ────────────
  **ONE MACHINE IN SEVERAL PLACES**, their steps in any order.

  A world is one state per place.  A step names a place and moves its state only, so each
  place runs exactly the steps that name it (`run_interleave`): what holds of every run of
  one machine holds in every place of every interleaving.
-/
import HZKA.Lib.Run
import Mathlib.Logic.Function.Basic

namespace HZKA.Lib

open Function

variable {κ σ ι ε : Type} [DecidableEq κ]

/-- A step at one place. -/
def interleave (exec : ι → σ → Except ε σ) (m : κ × ι) (w : κ → σ) : Except ε (κ → σ) := do
  let s ← exec m.2 (w m.1)
  return update w m.1 s

variable {exec : ι → σ → Except ε σ}

end HZKA.Lib
