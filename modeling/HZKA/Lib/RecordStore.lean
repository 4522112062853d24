/-
  HZKA.Lib.RecordStore
  ────────────
  **RECORDS WITH A FLAG that is raised once.**

  A store maps keys to records.  A record is created by writing under a key, and later
  marked: a Boolean `flag` that was down goes up.  `Kept` is all a record may undergo.

    • `rel_update`  — a write relates all records as it relates the one it replaces;
    • `kept_create` — creating under an unused key keeps every record created before;
    • `kept_mark`   — marking a record whose flag is down keeps all records;
    • `Kept.trans`  — over any number of steps the flag still goes up once.
-/
import Mathlib.Logic.Function.Basic

namespace HZKA.Lib

open Function

variable {κ ρ : Type} [DecidableEq κ] (flag : ρ → Bool) (mark : ρ → ρ)

/-- A reflexive relation holds at every key, before and after a write, if it holds at the
    key written. -/
theorem rel_update {R : ρ → ρ → Prop} (hrefl : ∀ r, R r r) {records : κ → ρ} {k : κ} {r : ρ}
    (h : R (records k) r) (id : κ) : R (records id) (update records k r id) := by
  by_cases hid : id = k
  · rw [hid, update_self]
    exact h
  · rw [update_of_ne hid]
    exact hrefl _

/-- `b` is `a`, or `a` with its flag raised now. -/
def Kept (a b : ρ) : Prop := b = a ∨ flag a = false ∧ b = mark a

variable {flag mark}

/-- Keeping composes. -/
theorem Kept.trans (hmark : ∀ r, flag (mark r) = true) {a b c : ρ} (hab : Kept flag mark a b)
    (hbc : Kept flag mark b c) : Kept flag mark a c := by
  rcases hab with rfl | ⟨hopen, rfl⟩
  · exact hbc
  · rcases hbc with rfl | ⟨hreopened, -⟩
    · exact Or.inr ⟨hopen, rfl⟩
    · -- a marked record is not marked again
      rw [hmark a] at hreopened
      exact Bool.noConfusion hreopened

theorem kept_create {records : κ → ρ} {ids : List κ} {k : κ} (hk : k ∉ ids) (r : ρ) {id : κ}
    (hid : id ∈ ids) : Kept flag mark (records id) (update records k r id) := by
  left
  have hne : id ≠ k := by
    intro heq
    rw [heq] at hid
    exact hk hid
  rw [update_of_ne hne]

/-- A record is marked once. -/
theorem kept_mark {records : κ → ρ} {k : κ} (hk : flag (records k) = false) (id : κ) :
    Kept flag mark (records id) (update records k (mark (records k)) id) :=
  rel_update (R := Kept flag mark) (fun _ => Or.inl rfl) (Or.inr ⟨hk, rfl⟩) id

end HZKA.Lib
