/-
  HZKA.Lib.LeadingZeros
  ────────────
  **LEADING ZERO BITS** of words and of byte strings.

  A word has at least `d` leading zeros exactly if its number is below `2^(w - d)`
  (`le_clz_iff`), and the count can be read off the bytes, one zero byte after the other
  (`zeroBits_bytesBE`).
-/
import HZKA.Lib.Bytes

namespace HZKA.Lib

/-! ## §1. Words. -/

/-- The width as a word of that width, which is what `clz` counts in. -/
theorem toNat_width (w : Nat) : ((w : Nat) : BitVec w).toNat = w := by
  rw [BitVec.natCast_eq_ofNat, BitVec.toNat_ofNat]
  exact Nat.mod_eq_of_lt Nat.lt_two_pow_self

theorem toNat_clz_le {w : Nat} (x : BitVec w) : x.clz.toNat ≤ w := by
  have hle : x.clz.toNat ≤ ((w : Nat) : BitVec w).toNat := BitVec.clz_le
  rw [toNat_width] at hle
  exact hle

/-- Only zero has nothing but zeros. -/
theorem toNat_clz_lt_iff {w : Nat} {x : BitVec w} : x.clz.toNat < w ↔ x ≠ 0 := by
  have hiff : x.clz.toNat < ((w : Nat) : BitVec w).toNat ↔ x ≠ 0 := BitVec.clz_lt_iff_ne_zero
  rw [toNat_width] at hiff
  exact hiff

/-- **At least `d` leading zeros: below `2^(w - d)`.** -/
theorem le_clz_iff {w : Nat} (x : BitVec w) {d : Nat} (hd : d ≤ w) :
    d ≤ x.clz.toNat ↔ x.toNat < 2 ^ (w - d) := by
  constructor
  · intro hle
    have hpow : 2 ^ (w - x.clz.toNat) ≤ 2 ^ (w - d) :=
      Nat.pow_le_pow_right (by omega) (by omega)
    exact Nat.lt_of_lt_of_le BitVec.toNat_lt_two_pow_sub_clz hpow
  · intro hlt
    by_contra hfew
    have hx : x ≠ 0 := toNat_clz_lt_iff.mp (by omega)
    -- the first one bit alone is worth too much
    have hbit := BitVec.two_pow_sub_clz_le_toNat_of_ne_zero (by omega) hx
    have hpow : 2 ^ (w - d) ≤ 2 ^ (w - 1 - x.clz.toNat) :=
      Nat.pow_le_pow_right (by omega) (by omega)
    omega

/-! ## §2. Byte strings. -/

/-- The leading zero bits of a byte string. -/
def zeroBits : List Byte → Nat
  | [] => 0
  | b :: bs => if b = 0 then 8 + zeroBits bs else b.clz.toNat

theorem zeroBits_le (bs : List Byte) : zeroBits bs ≤ 8 * bs.length := by
  induction bs with
  | nil => exact Nat.le_refl 0
  | cons b bs ih =>
    have hbyte := toNat_clz_le b
    unfold zeroBits
    rw [List.length_cons]
    split
    · omega
    · omega

/-- A first byte that is not zero decides. -/
theorem shifted_lt_iff {b r n d : Nat} (hd : d ≤ 8) (hr : r < 256 ^ n) :
    b * 256 ^ n + r < 2 ^ (8 * (n + 1) - d) ↔ b < 2 ^ (8 - d) := by
  have hpow : 2 ^ (8 * (n + 1) - d) = 2 ^ (8 - d) * 256 ^ n := by
    rw [show (256 : Nat) = 2 ^ 8 from rfl, ← Nat.pow_mul, ← Nat.pow_add]
    congr 1
    omega
  rw [hpow]
  constructor
  · intro hlt
    exact Nat.lt_of_mul_lt_mul_right (Nat.lt_of_le_of_lt (Nat.le_add_right _ r) hlt)
  · intro hlt
    calc b * 256 ^ n + r < b * 256 ^ n + 256 ^ n := Nat.add_lt_add_left hr _
      _ = (b + 1) * 256 ^ n := by rw [Nat.add_mul, Nat.one_mul]
      _ ≤ 2 ^ (8 - d) * 256 ^ n := Nat.mul_le_mul_right _ hlt

/-- **At least `d` leading zeros: the number the bytes spell is below `2^(8n - d)`.** -/
theorem le_zeroBits_iff (bs : List Byte) : ∀ {d : Nat}, d ≤ 8 * bs.length →
    (d ≤ zeroBits bs ↔ natBE bs < 2 ^ (8 * bs.length - d)) := by
  induction bs with
  | nil =>
    intro d hd
    have hzero : d = 0 := by simpa using hd
    rw [hzero]
    decide
  | cons b bs ih =>
    intro d hd
    rw [List.length_cons] at hd ⊢
    have hrest := natBE_lt bs
    rw [natBE_cons, zeroBits]
    by_cases hb : b = 0
    · rw [if_pos hb, hb]
      show _ ↔ 0 * 256 ^ bs.length + natBE bs < _
      by_cases hfirst : d ≤ 8
      · -- the zero byte alone is enough
        rw [shifted_lt_iff hfirst hrest]
        exact iff_of_true (by omega) (Nat.pow_pos (by omega))
      · have hshift : 8 * (bs.length + 1) - d = 8 * bs.length - (d - 8) := by omega
        rw [Nat.zero_mul, Nat.zero_add, hshift, ← ih (by omega)]
        omega
    · rw [if_neg hb]
      have hclz := toNat_clz_lt_iff.mpr hb
      by_cases hfirst : d ≤ 8
      · rw [shifted_lt_iff hfirst hrest, le_clz_iff b hfirst]
      · -- more zeros than the first byte has bits
        have hpos : 0 < b.toNat := Nat.pos_of_ne_zero fun hzero => hb (BitVec.eq_of_toNat_eq hzero)
        refine iff_of_false (by omega) ?_
        intro hlt
        have hpow : 2 ^ (8 * (bs.length + 1) - d) ≤ 2 ^ (8 * (bs.length + 1) - 8) :=
          Nat.pow_le_pow_right (by omega) (by omega)
        have hone := (shifted_lt_iff (Nat.le_refl 8) hrest).mp (Nat.lt_of_lt_of_le hlt hpow)
        omega

/-- **The zeros of a word are those of its bytes.** -/
theorem zeroBits_bytesBE {n : Nat} (x : BitVec (8 * n)) : zeroBits (bytesBE n x) = x.clz.toNat := by
  have hlen := bytesBE_length n x
  have hnumber : natBE (bytesBE n x) = x.toNat := (natBE_eq_toNat_iff hlen x).mpr rfl
  refine eq_of_forall_le_iff fun d => ?_
  by_cases hd : d ≤ 8 * n
  · rw [le_zeroBits_iff _ (by rw [hlen]; exact hd), le_clz_iff x hd, hlen, hnumber]
  · have hbytes := zeroBits_le (bytesBE n x)
    have hword := toNat_clz_le x
    rw [hlen] at hbytes
    exact iff_of_false (by omega) (by omega)

end HZKA.Lib
