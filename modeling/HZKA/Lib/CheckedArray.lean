/-
  HZKA.Lib.CheckedArray
  ────────────
  **ARRAYS THAT PANIC OUT OF RANGE**, in the monad of `HZKA.Lib.Revert`, and counted loops.

  Reads and writes check the index; a fresh memory array of `2⁶⁴` elements or more panics,
  and no array passed in call data is that long (`CallArray`).

    • `foldlM_fill`  — a loop that writes one element a round at a running index, starting at
      the front of a large enough array, returns and leaves the elements in order;
    • `repeatM_eq_foldlM` — a counted loop with a fixed body is a loop over a constant list.
-/
import HZKA.Lib.Revert

namespace HZKA.Lib

variable {ε σ α β : Type}

/-! ## §1. Arrays. -/

/-- `array[index]`. -/
def readAt (array : List α) (index : Nat) : Except Revert α :=
  match array[index]? with
  | some a => .ok a
  | none => .error .panic

/-- `array[index] = a`. -/
def writeAt (array : List α) (index : Nat) (a : α) : Except Revert (List α) :=
  if index < array.length then .ok (array.set index a) else .error .panic

/-- A fresh memory array, every element `zero`. -/
def newArray (zero : α) (length : Nat) : Except Revert (List α) :=
  if length < 2 ^ 64 then .ok (List.replicate length zero) else .error .panic

/-- An array in call data: the decoder turns longer ones down. -/
structure CallArray (α : Type) where
  elements : List α
  short : elements.length < 2 ^ 64

/-- A read in bounds. -/
theorem readAt_of_some {array : List α} {index : Nat} {a : α} (h : array[index]? = some a) :
    readAt array index = .ok a := by
  unfold readAt
  rw [h]

theorem newArray_of_lt (zero : α) {length : Nat} (h : length < 2 ^ 64) :
    newArray zero length = .ok (List.replicate length zero) := if_pos h

/-- Writing just behind the part already filled. -/
theorem writeAt_fill (done : List α) (a b : α) (rest : List α) :
    writeAt (done ++ b :: rest) done.length a = .ok ((done ++ [a]) ++ rest) := by
  unfold writeAt
  rw [if_pos (by simp), List.set_append_right _ _ (Nat.le_refl _), Nat.sub_self, List.set_cons_zero,
    List.append_assoc]
  rfl

/-! ## §2. Counted loops. -/

/-- `for (j = 0; j < n; j++) { body }`, the body not reading `j`. -/
def repeatM : Nat → (σ → Except ε σ) → σ → Except ε σ
  | 0, _, s => .ok s
  | n + 1, body, s => body s >>= repeatM n body

/-- A loop is a fold over copies. -/
theorem repeatM_eq_foldlM (body : α → σ → Except ε σ) (a : α) (n : Nat) : ∀ s : σ,
    repeatM n (body a) s = (List.replicate n a).foldlM (fun s b => body b s) s := by
  induction n with
  | zero => exact fun _ => rfl
  | succ n ih =>
    intro s
    rw [repeatM, List.replicate_succ, List.foldlM_cons]
    exact congrArg (body a s >>= ·) (funext ih)

/-- **The filling loop.**  A body that writes at the index it is at and steps to the next, run
over `l` from the front of an array of that length. -/
theorem foldlM_fill {body : α → List α × Nat → Except ε (List α × Nat)} {n : Nat}
    (hbody : ∀ a done b rest, (done ++ b :: rest).length = n →
      body a (done ++ b :: rest, done.length) = .ok ((done ++ [a]) ++ rest, (done ++ [a]).length)) :
    ∀ (l done rest : List α), rest.length = l.length → done.length + l.length = n →
      l.foldlM (fun s a => body a s) (done ++ rest, done.length)
        = .ok (done ++ l, (done ++ l).length) := by
  intro l
  induction l with
  | nil =>
    intro done rest hrest _
    rw [List.length_eq_zero_iff.mp hrest, List.append_nil]
    rfl
  | cons a l ih =>
    intro done rest hrest hn
    obtain ⟨b, rest, rfl⟩ := List.exists_cons_of_length_eq_add_one hrest
    simp only [List.length_cons, Nat.add_right_cancel_iff] at hrest hn
    have hfull : (done ++ b :: rest).length = n := by
      rw [List.length_append, List.length_cons]
      omega
    have hleft : (done ++ [a]).length + l.length = n := by
      rw [List.length_append, List.length_singleton]
      omega
    rw [List.foldlM_cons, hbody a done b rest hfull, ok_bind, ih (done ++ [a]) rest hrest hleft,
      List.append_assoc]
    rfl

end HZKA.Lib
