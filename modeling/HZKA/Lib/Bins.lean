/-
  HZKA.Lib.Bins
  ────────────
  **FILLING BINS OF A CAPACITY, ONE ITEM AFTER THE OTHER.**

  Each item goes into a bin that is not full, whichever that is; a table of labels records
  where it went and a table of counters how many each bin holds.  As long as fewer items
  were placed than the bins hold together, some bin is not full, so the rule can be followed
  to the end.

    • `Filled`             — labels and counters after the items `placed`;
    • `Filled.exists_free` — room for one more;
    • `filled_foldl`       — the whole loop.
-/
import Mathlib.Algebra.Group.Action.Defs
import Mathlib.Algebra.Order.BigOperators.Group.Finset
import Mathlib.Data.Fintype.BigOperators

namespace HZKA.Lib

open Function

variable {α β γ : Type} [Fintype β] [DecidableEq γ]

/-- Every placed item carries the tag of a bin, each counter counts the items with its tag,
and no bin holds more than `capacity`. -/
structure Filled (tag : β → γ) (capacity : Nat) (placed : List α) (labels : α → γ)
    (counts : β → Nat) : Prop where
  labelled : ∀ a ∈ placed, ∃ b, labels a = tag b
  counted : ∀ b, counts b = placed.countP fun a => decide (labels a = tag b)
  total : ∑ b, counts b = placed.length
  within : ∀ b, counts b ≤ capacity

variable {tag : β → γ} {capacity : Nat} {placed : List α} {labels : α → γ} {counts : β → Nat}

theorem filled_nil (tag : β → γ) (capacity : Nat) (labels : α → γ) :
    Filled tag capacity [] labels fun _ => 0 where
  labelled := fun _ ha => absurd ha List.not_mem_nil
  counted := fun _ => rfl
  total := Finset.sum_const_zero
  within := fun _ => Nat.zero_le _

/-- **Room for one more.** -/
theorem Filled.exists_free (h : Filled tag capacity placed labels counts)
    (hroom : placed.length < Fintype.card β * capacity) : ∃ b, counts b < capacity := by
  have hsum : ∑ b, counts b < ∑ _b : β, capacity := by
    rw [h.total, Finset.sum_const, Finset.card_univ, smul_eq_mul]
    exact hroom
  obtain ⟨b, _, hb⟩ := Finset.exists_lt_of_sum_lt hsum
  exact ⟨b, hb⟩

variable [DecidableEq α]

/-- A label written for a new item does not move the others. -/
theorem countP_update {a : α} (ha : a ∉ placed) (c d : γ) :
    (placed.countP fun x => decide (update labels a c x = d))
      = placed.countP fun x => decide (labels x = d) := by
  apply List.countP_congr
  intro x hx
  have hne : x ≠ a := fun heq => ha (heq ▸ hx)
  rw [update_of_ne hne]

variable [DecidableEq β]

/-- **One item.** -/
theorem Filled.put (htag : Injective tag) (h : Filled tag capacity placed labels counts)
    {a : α} (ha : a ∉ placed) {b : β} (hfree : counts b < capacity) :
    Filled tag capacity (placed ++ [a]) (update labels a (tag b))
      (update counts b (counts b + 1)) where
  labelled := by
    intro x hx
    by_cases hxa : x = a
    · exact ⟨b, by rw [hxa, update_self]⟩
    · rw [update_of_ne hxa]
      have hold : x ∈ placed := by simpa [hxa] using hx
      exact h.labelled x hold
  counted := by
    intro b'
    rw [List.countP_append, countP_update ha, List.countP_singleton, update_self]
    by_cases hb : b' = b
    · rw [hb, update_self, h.counted b]
      simp
    · -- another bin: neither its counter nor the labels with its tag change
      have hother : tag b ≠ tag b' := fun heq => hb (htag heq).symm
      rw [update_of_ne hb, h.counted b']
      simp [hother]
  total := by
    rw [Finset.sum_update_of_mem (Finset.mem_univ b), List.length_append, List.length_singleton,
      ← h.total, ← Finset.add_sum_erase _ _ (Finset.mem_univ b), Finset.sdiff_singleton_eq_erase]
    omega
  within := by
    intro b'
    by_cases hb : b' = b
    · rw [hb, update_self]
      omega
    · rw [update_of_ne hb]
      exact h.within b'

/-- **The loop**: if each round puts its item into a bin that is not full, provided there is
one, and the bins hold all items together, the bins end up filled with all of them. -/
theorem filled_foldl (htag : Injective tag)
    {place : (α → γ) × (β → Nat) → α → (α → γ) × (β → Nat)}
    (hplace : ∀ labels counts a, (∃ b, counts b < capacity) → ∃ b, counts b < capacity
      ∧ place (labels, counts) a
        = (update labels a (tag b), update counts b (counts b + 1)))
    (labels₀ : α → γ) (order : List α) :
    order.Nodup → order.length ≤ Fintype.card β * capacity →
      Filled tag capacity order (order.foldl place (labels₀, fun _ => 0)).1
        (order.foldl place (labels₀, fun _ => 0)).2 := by
  induction order using List.reverseRecOn with
  | nil => exact fun _ _ => filled_nil tag capacity labels₀
  | append_singleton order a ih =>
    intro hnodup hroom
    rw [List.length_append, List.length_singleton] at hroom
    have hnew : a ∉ order := fun hmem =>
      (List.disjoint_of_nodup_append hnodup) hmem (List.mem_singleton_self a)
    have hfilled := ih hnodup.of_append_left (by omega)
    obtain ⟨b, hfree, hstep⟩ := hplace _ _ a (hfilled.exists_free (by omega))
    rw [List.foldl_append, List.foldl_cons, List.foldl_nil, hstep]
    exact hfilled.put htag hnew hfree

end HZKA.Lib
