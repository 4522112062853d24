/-
  HZKA.Contracts.Denomination — the fixed denominations (`Denomination.sol`): the
  six tiers, the validity test, the greedy decomposition of an amount, largest
  tier first, and the number and the list of its sub-transfers.
-/
import HZKA.Lib.CheckedArray
import HZKA.EVM.Abi

namespace HZKA.Denomination

open HZKA.Lib HZKA.EVM

/-- 0.001 ether. -/
@[irreducible] def DENOM_1 : Nat := 1000000000000000
/-- 0.01 ether. -/
@[irreducible] def DENOM_2 : Nat := 10000000000000000
/-- 0.1 ether. -/
@[irreducible] def DENOM_3 : Nat := 100000000000000000
/-- 1 ether. -/
@[irreducible] def DENOM_4 : Nat := 1000000000000000000
/-- 10 ether. -/
@[irreducible] def DENOM_5 : Nat := 10000000000000000000
/-- 100 ether. -/
@[irreducible] def DENOM_6 : Nat := 100000000000000000000

/-- One of the six supported denominations. -/
def isValidDenomination (amount : Nat) : Bool :=
  amount == DENOM_1 || amount == DENOM_2 || amount == DENOM_3 ||
    amount == DENOM_4 || amount == DENOM_5 || amount == DENOM_6

/-- Denomination value by index. -/
def getDenomination (index : Nat) : Except Revert Nat :=
  match index with
  | 0 => .ok DENOM_1
  | 1 => .ok DENOM_2
  | 2 => .ok DENOM_3
  | 3 => .ok DENOM_4
  | 4 => .ok DENOM_5
  | 5 => .ok DENOM_6
  | _ => .error (.require "Invalid denomination index")

/-- One greedy step: how often `denom` fits, and what is left. -/
def takeDenomination (remainder denom : Nat) : Except Revert (Nat × Nat) := do
  let count := remainder / denom
  let taken ← mulU256 count denom
  let left ← subU256 remainder taken
  return (count, left)

/-- The six counts (tier 1 first) and the remainder. -/
def decompose (amount : Nat) : Except Revert (List Nat × Nat) := do
  let (c5, remainder) ← takeDenomination amount DENOM_6
  let (c4, remainder) ← takeDenomination remainder DENOM_5
  let (c3, remainder) ← takeDenomination remainder DENOM_4
  let (c2, remainder) ← takeDenomination remainder DENOM_3
  let (c1, remainder) ← takeDenomination remainder DENOM_2
  let (c0, remainder) ← takeDenomination remainder DENOM_1
  return ([c0, c1, c2, c3, c4, c5], remainder)

/-- The sum of the counts. -/
def totalSubTransfers (amount : Nat) : Except Revert Nat := do
  let (denomCounts, _) ← decompose amount
  denomCounts.foldlM addU256 0

/-- The body of the inner loop of `listSubTransfers`, on `values` and `actualCount`. -/
def listSubTransfer (maxCount denomValue : Nat) (s : List Nat × Nat) :
    Except Revert (List Nat × Nat) := do
  require (s.2 < maxCount) "Too many sub-transfers"
  let values ← writeAt s.1 s.2 denomValue
  let actualCount ← addU256 s.2 1
  return (values, actualCount)

/-- The value of each sub-transfer, largest tier first, and their number. -/
def listSubTransfers (amount maxCount : Nat) : Except Revert (List Nat × Nat) := do
  let (denomCounts, _) ← decompose amount
  let values ← newArray 0 maxCount
  [6, 5, 4, 3, 2, 1].foldlM (fun s tier => do
    let idx := tier - 1
    let denomValue ← getDenomination idx
    let count ← readAt denomCounts idx
    repeatM count (listSubTransfer maxCount denomValue) s) (values, 0)

theorem isValidDenomination_denom4 : isValidDenomination DENOM_4 = true := by
  simp [isValidDenomination]

/-- A denomination is positive. -/
theorem isValidDenomination_pos {amount : Nat} (h : isValidDenomination amount = true) :
    0 < amount := by
  simp only [isValidDenomination, Bool.or_eq_true, beq_iff_eq] at h
  rcases h with ((((h | h) | h) | h) | h) | h
  all_goals
    rw [h]
    simp [DENOM_1, DENOM_2, DENOM_3, DENOM_4, DENOM_5, DENOM_6]

/-- What the tiers return is a denomination. -/
theorem getDenomination_valid {index denom : Nat} (h : getDenomination index = .ok denom) :
    isValidDenomination denom = true := by
  unfold getDenomination at h
  -- six indices give a denomination, the seventh case reverts
  split at h <;> cases h <;> simp [isValidDenomination]

/-- Quotient and remainder. -/
theorem takeDenomination_sum {remainder denom count left : Nat}
    (h : takeDenomination remainder denom = .ok (count, left)) :
    count * denom + left = remainder := by
  obtain ⟨taken, htaken, h⟩ := bind_eq_ok.mp h
  obtain ⟨rest, hrest, h⟩ := bind_eq_ok.mp h
  obtain ⟨-, rfl⟩ := mulU256_eq_ok.mp htaken
  obtain ⟨hle, rfl⟩ := subU256_eq_ok.mp hrest
  obtain ⟨rfl, rfl⟩ := Prod.mk.inj (pure_eq_ok.mp h)
  omega

/-- **The decomposition adds up.** -/
theorem decompose_sum {amount remainder : Nat} {denomCounts : List Nat}
    (h : decompose amount = .ok (denomCounts, remainder)) :
    ∃ c0 c1 c2 c3 c4 c5, denomCounts = [c0, c1, c2, c3, c4, c5]
      ∧ c5 * DENOM_6 + c4 * DENOM_5 + c3 * DENOM_4 + c2 * DENOM_3 + c1 * DENOM_2 + c0 * DENOM_1
          + remainder = amount := by
  obtain ⟨⟨c5, r5⟩, h5, h⟩ := bind_eq_ok.mp h
  obtain ⟨⟨c4, r4⟩, h4, h⟩ := bind_eq_ok.mp h
  obtain ⟨⟨c3, r3⟩, h3, h⟩ := bind_eq_ok.mp h
  obtain ⟨⟨c2, r2⟩, h2, h⟩ := bind_eq_ok.mp h
  obtain ⟨⟨c1, r1⟩, h1, h⟩ := bind_eq_ok.mp h
  obtain ⟨⟨c0, r0⟩, h0, h⟩ := bind_eq_ok.mp h
  obtain ⟨rfl, rfl⟩ := Prod.mk.inj (pure_eq_ok.mp h)
  refine ⟨c0, c1, c2, c3, c4, c5, rfl, ?_⟩
  have e5 := takeDenomination_sum h5
  have e4 := takeDenomination_sum h4
  have e3 := takeDenomination_sum h3
  have e2 := takeDenomination_sum h2
  have e1 := takeDenomination_sum h1
  have e0 := takeDenomination_sum h0
  omega

end HZKA.Denomination
