/-
  HZKA.Theta.Denominations
  ────────────
  **SPLITTING AN AMOUNT INTO DENOMINATIONS** (`Denomination.sol`).

  Each denomination is ten of the one below it, so the greedy counts are the digits of the
  amount in units of the smallest one, the last digit unbounded.

    • `decompose_eq` — the six division steps compute those digits, and revert on no amount;
    • `decompose_minimal` — exact, canonical, and no other split takes fewer sub-transfers;
    • `listSubTransfers_eq` — the listing with a running index spells the counts, tier by tier.
-/
import HZKA.Contracts.Denomination
import HZKA.Lib.MixedRadix

namespace HZKA.Denomination

open HZKA.Lib

/-! ## §1. The counts are digits. -/

/-- The tiers, least first. -/
def denominations : List Nat := [DENOM_1, DENOM_2, DENOM_3, DENOM_4, DENOM_5, DENOM_6]

/-- What a vector of counts, tier 1 first, is worth. -/
def countsValue (counts : List Nat) : Nat := (List.zipWith (· * ·) counts denominations).sum

/-- Five steps from one denomination to the next. -/
def radices : List Nat := [10, 10, 10, 10, 10]

/-- The counts `decompose` returns. -/
def digitCounts (amount : Nat) : List Nat := radixDigits radices (amount / DENOM_1)

/-- Quotient and remainder. -/
theorem takeDenomination_eq {remainder : Nat} (denom : Nat) (hremainder : remainder < 2 ^ 256) :
    takeDenomination remainder denom = .ok (remainder / denom, remainder % denom) := by
  have hle : remainder / denom * denom ≤ remainder := Nat.div_mul_le_self ..
  have hmul : mulU256 (remainder / denom) denom = .ok (remainder / denom * denom) :=
    mulU256_eq_ok.mpr ⟨by omega, rfl⟩
  have hsub : subU256 remainder (remainder / denom * denom) = .ok (remainder % denom) := by
    apply subU256_eq_ok.mpr
    refine ⟨hle, ?_⟩
    have hdiv := Nat.div_add_mod' remainder denom
    omega
  unfold takeDenomination
  dsimp only
  rw [hmul, ok_bind, hsub]
  rfl

/-- **The six steps compute the digits**; no amount makes them revert. -/
theorem decompose_eq {amount : Nat} (hamount : amount < 2 ^ 256) :
    decompose amount = .ok (digitCounts amount, amount % DENOM_1) := by
  have hmod : ∀ {r : Nat} (d : Nat), r < 2 ^ 256 → r % d < 2 ^ 256 :=
    fun d h => lt_of_le_of_lt (Nat.mod_le _ d) h
  have h₅ := hmod DENOM_6 hamount
  have h₄ := hmod DENOM_5 h₅
  have h₃ := hmod DENOM_4 h₄
  have h₂ := hmod DENOM_3 h₃
  have h₁ := hmod DENOM_2 h₂
  unfold decompose
  rw [takeDenomination_eq DENOM_6 hamount, ok_bind]
  dsimp only
  rw [takeDenomination_eq DENOM_5 h₅, ok_bind]
  dsimp only
  rw [takeDenomination_eq DENOM_4 h₄, ok_bind]
  dsimp only
  rw [takeDenomination_eq DENOM_3 h₃, ok_bind]
  dsimp only
  rw [takeDenomination_eq DENOM_2 h₂, ok_bind]
  dsimp only
  rw [takeDenomination_eq DENOM_1 h₁, ok_bind]
  -- a remainder by one denomination keeps the digits below it
  unfold digitCounts radices
  simp only [radixDigits, DENOM_1, DENOM_2, DENOM_3, DENOM_4, DENOM_5, DENOM_6]
  clear h₁ h₂ h₃ h₄ h₅ hmod
  rw [pure_eq_ok, Prod.mk.injEq]
  refine ⟨?_, by omega⟩
  simp only [List.cons.injEq, and_true]
  refine ⟨?_, ?_, ?_, ?_, ?_, ?_⟩ <;> omega

/-! ## §2. Exact, canonical, minimal. -/

/-- Ten of one denomination make the next. -/
theorem denominations_tenfold : DENOM_2 = 10 * DENOM_1 ∧ DENOM_3 = 10 * DENOM_2
    ∧ DENOM_4 = 10 * DENOM_3 ∧ DENOM_5 = 10 * DENOM_4 ∧ DENOM_6 = 10 * DENOM_5 := by
  norm_num [DENOM_1, DENOM_2, DENOM_3, DENOM_4, DENOM_5, DENOM_6]

theorem sum_zipWith_six (c0 c1 c2 c3 c4 c5 d1 d2 d3 d4 d5 d6 : Nat) :
    (List.zipWith (· * ·) [c0, c1, c2, c3, c4, c5] [d1, d2, d3, d4, d5, d6]).sum
      = c5 * d6 + c4 * d5 + c3 * d4 + c2 * d3 + c1 * d2 + c0 * d1 := by
  simp only [List.zipWith_cons_cons, List.zipWith_nil_right, List.sum_cons, List.sum_nil]
  ring

/-- The value of six counts. -/
theorem countsValue_six (c0 c1 c2 c3 c4 c5 : Nat) :
    countsValue [c0, c1, c2, c3, c4, c5] = c5 * DENOM_6 + c4 * DENOM_5 + c3 * DENOM_4
      + c2 * DENOM_3 + c1 * DENOM_2 + c0 * DENOM_1 :=
  sum_zipWith_six ..

/-- Six counts are worth their mixed-radix value, in units of the smallest denomination. -/
theorem countsValue_eq {counts : List Nat} (hlen : counts.length = 6) :
    countsValue counts = DENOM_1 * radixValue radices counts := by
  obtain ⟨h₂, h₃, h₄, h₅, h₆⟩ := denominations_tenfold
  match counts, hlen with
  | [c0, c1, c2, c3, c4, c5], _ =>
    rw [countsValue_six, h₆, h₅, h₄, h₃, h₂]
    generalize DENOM_1 = d
    unfold radices
    simp only [radixValue]
    ring

/-- One count per denomination. -/
theorem length_digitCounts (amount : Nat) : (digitCounts amount).length = 6 :=
  length_radixDigits radices _

theorem exists_digitCounts (amount : Nat) :
    ∃ c0 c1 c2 c3 c4 c5, digitCounts amount = [c0, c1, c2, c3, c4, c5] := by
  match hcounts : digitCounts amount, length_digitCounts amount with
  | [c0, c1, c2, c3, c4, c5], _ => exact ⟨c0, c1, c2, c3, c4, c5, rfl⟩

theorem radices_pos : ∀ m ∈ radices, 0 < m := by decide

/-- The split is worth the amount, up to the remainder. -/
theorem countsValue_digitCounts (amount : Nat) :
    countsValue (digitCounts amount) + amount % DENOM_1 = amount := by
  rw [countsValue_eq (length_digitCounts amount)]
  unfold digitCounts
  rw [radixValue_digits]
  exact Nat.div_add_mod amount DENOM_1

/-- Any six counts of the same worth are at least as many. -/
theorem sum_digitCounts_le {amount : Nat} {counts : List Nat} (hlen : counts.length = 6)
    (hworth : countsValue counts = amount - amount % DENOM_1) :
    (digitCounts amount).sum ≤ counts.sum := by
  have hunits : radixValue radices counts = amount / DENOM_1 := by
    have hpos : 0 < DENOM_1 := by norm_num [DENOM_1]
    have hdiv := Nat.div_add_mod amount DENOM_1
    rw [countsValue_eq hlen] at hworth
    apply Nat.eq_of_mul_eq_mul_left hpos
    omega
  unfold digitCounts
  rw [← hunits]
  exact sum_radixDigits_le radices counts radices_pos hlen

/-- Never more sub-transfers than units of the smallest denomination. -/
theorem sum_digitCounts_le_div (amount : Nat) : (digitCounts amount).sum ≤ amount / DENOM_1 := by
  have hvalue : radixValue radices [amount / DENOM_1, 0, 0, 0, 0, 0] = amount / DENOM_1 := by
    unfold radices
    simp only [radixValue]
    omega
  have hle := sum_radixDigits_le radices [amount / DENOM_1, 0, 0, 0, 0, 0] radices_pos rfl
  rw [hvalue] at hle
  unfold digitCounts
  simpa using hle

/-- The checked sum of the counts. -/
theorem sumCounts_eq {amount : Nat} (hamount : amount < 2 ^ 256) :
    (digitCounts amount).foldlM addU256 0 = .ok (digitCounts amount).sum := by
  have hle := sum_digitCounts_le_div amount
  have hdiv := Nat.div_le_self amount DENOM_1
  have hfit : 0 + ((digitCounts amount).map fun c => c).sum < 2 ^ 256 := by
    rw [List.map_id']
    omega
  have hsum : 0 + ((digitCounts amount).map fun c => c).sum = (digitCounts amount).sum := by
    rw [List.map_id', Nat.zero_add]
  exact (foldlM_sum_iff _ (fun _ _ _ _ => rfl) (by norm_num)).mpr ⟨hfit, hsum⟩

/-- The count is the digit sum. -/
theorem totalSubTransfers_eq {amount : Nat} (hamount : amount < 2 ^ 256) :
    totalSubTransfers amount = .ok (digitCounts amount).sum := by
  unfold totalSubTransfers
  rw [decompose_eq hamount, ok_bind]
  exact sumCounts_eq hamount

/-- **Denomination splitting is exact, canonical and minimal**, for every amount. -/
theorem decompose_minimal (amount : Nat) (hamount : amount < 2 ^ 256) :
    ∃ denomCounts remainder total, decompose amount = .ok (denomCounts, remainder)
      ∧ totalSubTransfers amount = .ok total
      ∧ total = denomCounts.sum
      ∧ denomCounts.length = 6
      ∧ countsValue denomCounts + remainder = amount
      ∧ remainder < DENOM_1
      ∧ (∀ i < 5, ∀ c, denomCounts[i]? = some c → c ≤ 9)
      ∧ ∀ counts : List Nat, counts.length = 6 → countsValue counts = amount - remainder →
          total ≤ counts.sum := by
  refine ⟨digitCounts amount, amount % DENOM_1, (digitCounts amount).sum, decompose_eq hamount,
    totalSubTransfers_eq hamount, rfl, length_digitCounts amount, countsValue_digitCounts amount,
    Nat.mod_lt _ (by norm_num [DENOM_1]), ?_, fun counts => sum_digitCounts_le⟩
  intro i hi c hc
  have hradix : radices[i]? = some 10 := by
    have hcases : i = 0 ∨ i = 1 ∨ i = 2 ∨ i = 3 ∨ i = 4 := by omega
    rcases hcases with rfl | rfl | rfl | rfl | rfl <;> rfl
  have hlt := radixDigits_lt radices (amount / DENOM_1) i (by norm_num) hradix hc
  omega

/-- 15.23 ether: eleven sub-transfers, 1·10 + 5·1 + 2·0.1 + 3·0.01, and no fewer. -/
theorem eleven_subTransfers :
    totalSubTransfers 15230000000000000000 = .ok 11
    ∧ ∃ denomCounts remainder total,
      decompose 15230000000000000000 = .ok (denomCounts, remainder)
      ∧ totalSubTransfers 15230000000000000000 = .ok total
      ∧ total = denomCounts.sum
      ∧ denomCounts.length = 6
      ∧ countsValue denomCounts + remainder = 15230000000000000000
      ∧ remainder < DENOM_1
      ∧ (∀ i < 5, ∀ c, denomCounts[i]? = some c → c ≤ 9)
      ∧ ∀ counts : List Nat, counts.length = 6 →
          countsValue counts = 15230000000000000000 - remainder → total ≤ counts.sum := by
  refine ⟨?_, decompose_minimal 15230000000000000000 (by norm_num)⟩
  rw [totalSubTransfers_eq (by norm_num)]
  norm_num [digitCounts, radices, radixDigits, DENOM_1]

/-! ## §3. The listing. -/

/-- The sub-transfers of a vector of counts, largest tier first. -/
def tierValues (counts : List Nat) : List Nat :=
  (denominations.zip counts).reverse.flatMap fun p => List.replicate p.2 p.1

/-- The tiers, largest denomination first. -/
theorem tierValues_eq (c0 c1 c2 c3 c4 c5 : Nat) :
    tierValues [c0, c1, c2, c3, c4, c5]
      = List.replicate c5 DENOM_6 ++ List.replicate c4 DENOM_5 ++ List.replicate c3 DENOM_4
        ++ List.replicate c2 DENOM_3 ++ List.replicate c1 DENOM_2 ++ List.replicate c0 DENOM_1 := by
  unfold tierValues denominations
  simp only [List.zip_cons_cons, List.zip_nil_right, List.reverse_cons, List.reverse_nil,
    List.nil_append, List.cons_append, List.flatMap_cons, List.flatMap_nil, List.append_nil,
    List.append_assoc]

theorem length_tierValues {counts : List Nat} (hlen : counts.length = 6) :
    (tierValues counts).length = counts.sum := by
  match counts, hlen with
  | [c0, c1, c2, c3, c4, c5], _ =>
    rw [tierValues_eq]
    simp only [List.length_append, List.length_replicate, List.sum_cons, List.sum_nil]
    omega

/-- The sub-burns add up. -/
theorem sum_tierValues {counts : List Nat} (hlen : counts.length = 6) :
    (tierValues counts).sum = countsValue counts := by
  match counts, hlen with
  | [c0, c1, c2, c3, c4, c5], _ =>
    rw [tierValues_eq, countsValue_six]
    simp only [List.sum_append, List.sum_replicate_nat]

/-- **A loop over the tiers that repeats a body per count is one loop over the values.** -/
theorem tiers_eq {σ : Type} (body : Nat → σ → Except Revert σ) {counts : List Nat}
    (hlen : counts.length = 6) (s : σ) :
    [6, 5, 4, 3, 2, 1].foldlM (fun s tier => do
        let denomValue ← getDenomination (tier - 1)
        let count ← readAt counts (tier - 1)
        repeatM count (body denomValue) s) s
      = (tierValues counts).foldlM (fun s value => body value s) s := by
  match counts, hlen with
  | [c0, c1, c2, c3, c4, c5], _ =>
    rw [tierValues_eq]
    simp only [List.foldlM_append, ← repeatM_eq_foldlM, bind_assoc]
    simp only [List.foldlM_cons, List.foldlM_nil, getDenomination, readAt, ok_bind,
      List.getElem?_cons_zero, List.getElem?_cons_succ, Nat.reduceSub, bind_pure]

/-- One round of the listing, at the end of the part already filled. -/
theorem listSubTransfer_fill {n : Nat} (hn : n < 2 ^ 64) (value : Nat) (done : List Nat) (b : Nat)
    (rest : List Nat) (hfull : (done ++ b :: rest).length = n) :
    listSubTransfer n value (done ++ b :: rest, done.length)
      = .ok ((done ++ [value]) ++ rest, (done ++ [value]).length) := by
  have hlt : done.length < n := by
    rw [List.length_append, List.length_cons] at hfull
    omega
  have hnext : addU256 done.length 1 = .ok (done.length + 1) :=
    addU256_eq_ok.mpr ⟨by omega, rfl⟩
  unfold listSubTransfer
  dsimp only
  rw [require_bind hlt, writeAt_fill, ok_bind, hnext, List.length_append]
  rfl

/-- **The listing spells the counts**, if it fits a memory array. -/
theorem listSubTransfers_eq {amount : Nat} (hamount : amount < 2 ^ 256)
    (hshort : (digitCounts amount).sum < 2 ^ 64) :
    listSubTransfers amount (digitCounts amount).sum
      = .ok (tierValues (digitCounts amount), (digitCounts amount).sum) := by
  have hlen := length_digitCounts amount
  have hcount := length_tierValues hlen
  unfold listSubTransfers
  rw [decompose_eq hamount, ok_bind]
  dsimp only
  rw [newArray_of_lt 0 hshort, ok_bind, tiers_eq _ hlen]
  have hfill := foldlM_fill (listSubTransfer_fill hshort) (tierValues (digitCounts amount)) []
    (List.replicate (digitCounts amount).sum 0) (by rw [List.length_replicate, hcount])
    (by rw [List.length_nil, hcount, Nat.zero_add])
  rw [List.nil_append, List.nil_append, hcount] at hfill
  exact hfill

end HZKA.Denomination
