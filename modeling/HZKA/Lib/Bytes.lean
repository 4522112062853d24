/-
  HZKA.Lib.Bytes — big-endian byte strings of fixed-width words.

  `bytesBE n x` is the `n`-byte big-endian serialization of the word `x`; the
  readers `wordBE` and `natBE` fold bytes back into a word and a number.

    • `bytesBE_inj` — when the width is exactly `8 * n` no bit is lost, so two
      words with the same bytes are the same word;
    • `natBE_inj`   — byte strings of one length that spell the same number are
      equal;
    • `slice_packWords` — words packed one after the other are found again.
-/
import Mathlib.Data.BitVec
import Mathlib.Data.Nat.Digits.Defs
import Mathlib.Tactic.Common

namespace HZKA.Lib

/-- A byte. -/
abbrev Byte := BitVec 8

/-! ## §1. Serialization. -/

/-- The `n` big-endian bytes of `x` (byte `i` is bits `8·(n−1−i) ‥ +8`). -/
def bytesBE {w : Nat} (n : Nat) (x : BitVec w) : List Byte :=
  (List.range n).map (fun i => (x >>> (8 * (n - 1 - i))).setWidth 8)

/-- The word a big-endian byte string spells (keeping the low `w` bits). -/
def wordBE (w : Nat) (bs : List Byte) : BitVec w :=
  bs.foldl (fun acc b => (acc <<< 8) ||| b.setWidth w) 0

@[simp] theorem bytesBE_length {w : Nat} (n : Nat) (x : BitVec w) :
    (bytesBE n x).length = n := by
  unfold bytesBE
  rw [List.length_map, List.length_range]

/-- Byte `i` from the left. -/
theorem bytesBE_getElem {w : Nat} (n : Nat) (x : BitVec w) (i : Nat)
    (hi : i < (bytesBE n x).length) :
    (bytesBE n x)[i] = (x >>> (8 * (n - 1 - i))).setWidth 8 := by
  simp [bytesBE]

/-! ## §2. No bit is lost at full width. -/

/-- **A word of `8·n` bits is determined by its `n` bytes.** -/
theorem bytesBE_inj {n : Nat} {x y : BitVec (8 * n)}
    (h : bytesBE n x = bytesBE n y) : x = y := by
  apply BitVec.eq_of_getLsbD_eq
  intro j hj
  -- bit `j` sits in byte `n − 1 − j/8`, at offset `j % 8`
  have hi : n - 1 - j / 8 < (bytesBE n x).length := by
    rw [bytesBE_length]; omega
  have hi' : n - 1 - j / 8 < (bytesBE n y).length := by
    rw [bytesBE_length]; omega
  have hbyte : (bytesBE n x)[n - 1 - j / 8] = (bytesBE n y)[n - 1 - j / 8] := by
    simp only [h]
  rw [bytesBE_getElem n x _ hi, bytesBE_getElem n y _ hi'] at hbyte
  have hbit := congrArg (fun b : Byte => b.getLsbD (j % 8)) hbyte
  have hj8 : j % 8 < 8 := Nat.mod_lt _ (by decide)
  have hpos : 8 * (n - 1 - (n - 1 - j / 8)) + j % 8 = j := by omega
  simp only [BitVec.getLsbD_setWidth, hj8, decide_true, Bool.true_and,
    BitVec.getLsbD_ushiftRight, hpos] at hbit
  exact hbit

/-- The same bytes as a vector. -/
def vecBE {w : Nat} (n : Nat) (x : BitVec w) : Vector Byte n :=
  ⟨(bytesBE n x).toArray, by rw [List.size_toArray, bytesBE_length]⟩

/-! ## §3. Numbers. -/

/-- The number a big-endian byte string spells. -/
def natBE (bs : List Byte) : Nat := Nat.ofDigits 256 (bs.reverse.map BitVec.toNat)

theorem natBE_digit_lt {bs : List Byte} : ∀ d ∈ bs.reverse.map BitVec.toNat, d < 256 := by
  intro d hd
  obtain ⟨b, _, rfl⟩ := List.mem_map.mp hd
  exact b.isLt

/-- **Byte strings of one length are determined by their number.** -/
theorem natBE_inj {bs cs : List Byte} (hlen : bs.length = cs.length)
    (h : natBE bs = natBE cs) : bs = cs := by
  have hdigits : bs.reverse.map BitVec.toNat = cs.reverse.map BitVec.toNat :=
    Nat.ofDigits_inj_of_len_eq (by decide) (by simp [hlen]) natBE_digit_lt natBE_digit_lt h
  have hinj : Function.Injective (BitVec.toNat (w := 8)) := fun _ _ => BitVec.eq_of_toNat_eq
  exact List.reverse_injective (List.map_injective_iff.mpr hinj hdigits)

/-- The first byte counts most. -/
theorem natBE_cons (b : Byte) (bs : List Byte) :
    natBE (b :: bs) = b.toNat * 256 ^ bs.length + natBE bs := by
  unfold natBE
  rw [List.reverse_cons, List.map_append, Nat.ofDigits_append, List.length_map,
    List.length_reverse, List.map_singleton, Nat.ofDigits_singleton, Nat.add_comm, Nat.mul_comm]

/-- The first byte, then the rest. -/
theorem bytesBE_succ {w : Nat} (n : Nat) (x : BitVec w) :
    bytesBE (n + 1) x = (x >>> (8 * n)).setWidth 8 :: bytesBE n x := by
  unfold bytesBE
  rw [List.range_succ_eq_map, List.map_cons, List.map_map]
  refine congrArg (_ :: ·) (List.map_congr_left (fun i _ => ?_))
  have hidx : n + 1 - 1 - (i + 1) = n - 1 - i := by omega
  show (x >>> (8 * (n + 1 - 1 - (i + 1)))).setWidth 8 = _
  rw [hidx]

/-- The bytes of a word spell it, up to the bytes cut off. -/
theorem natBE_bytesBE {w : Nat} (x : BitVec w) : ∀ n : Nat,
    natBE (bytesBE n x) = x.toNat % 256 ^ n
  | 0 => by
    show 0 = x.toNat % 1
    rw [Nat.mod_one]
  | n + 1 => by
    have hpow : (2 : Nat) ^ (8 * n) = 256 ^ n := by rw [Nat.pow_mul]
    rw [bytesBE_succ, natBE_cons, bytesBE_length, natBE_bytesBE x n, BitVec.toNat_setWidth,
      BitVec.toNat_ushiftRight, Nat.shiftRight_eq_div_pow, hpow]
    show x.toNat / 256 ^ n % 256 * 256 ^ n + x.toNat % 256 ^ n = x.toNat % 256 ^ (n + 1)
    rw [Nat.pow_succ, Nat.mod_mul, Nat.mul_comm, Nat.add_comm]

/-- **Bytes and number of a full word.** -/
theorem natBE_eq_toNat_iff {n : Nat} {bs : List Byte} (hlen : bs.length = n) (x : BitVec (8 * n)) :
    natBE bs = x.toNat ↔ bs = bytesBE n x := by
  have hword : natBE (bytesBE n x) = x.toNat := by
    have hlt := x.isLt
    rw [Nat.pow_mul] at hlt
    rw [natBE_bytesBE, Nat.mod_eq_of_lt hlt]
  rw [← hword]
  exact ⟨natBE_inj (by rw [hlen, bytesBE_length]), fun h => by rw [h]⟩

/-- Bytes bound the number. -/
theorem natBE_lt (bs : List Byte) : natBE bs < 256 ^ bs.length := by
  have h : natBE bs < 256 ^ (bs.reverse.map BitVec.toNat).length :=
    Nat.ofDigits_lt_base_pow_length (by decide) natBE_digit_lt
  rwa [List.length_map, List.length_reverse] at h

theorem toList_vecBE {w : Nat} (n : Nat) (x : BitVec w) : (vecBE n x).toList = bytesBE n x := by
  simp [vecBE, Vector.toList]

/-- A 32-byte vector and the word it is passed as. -/
theorem key_of_encoded {v : Vector Byte 32} {x : BitVec 256} (h : natBE v.toList = x.toNat) :
    v = vecBE 32 x := by
  refine Vector.toList_inj.mp ?_
  rw [toList_vecBE]
  exact (natBE_eq_toNat_iff (n := 32) (by simp) x).mp h

/-! ## §4. Words of 32 bytes. -/

/-- Words one after the other. -/
def packWords (ws : List Nat) : List Byte := ws.flatMap fun x => bytesBE 32 (BitVec.ofNat 256 x)

/-- One word, read back. -/
theorem natBE_packWord {x : Nat} (h : x < 2 ^ 256) : natBE (packWords [x]) = x := by
  have hpow : (256 : Nat) ^ 32 = 2 ^ 256 := by norm_num
  unfold packWords
  rw [List.flatMap_singleton, natBE_bytesBE, BitVec.toNat_ofNat, hpow, Nat.mod_mod, Nat.mod_eq_of_lt h]

theorem packWords_cons (x : Nat) (ws : List Nat) :
    packWords (x :: ws) = bytesBE 32 (BitVec.ofNat 256 x) ++ packWords ws := rfl

theorem packWords_append (ws vs : List Nat) : packWords (ws ++ vs) = packWords ws ++ packWords vs :=
  List.flatMap_append

theorem length_packWords (ws : List Nat) : (packWords ws).length = 32 * ws.length := by
  induction ws with
  | nil => rfl
  | cons x ws ih =>
    rw [packWords_cons, List.length_append, bytesBE_length, ih, List.length_cons]
    omega

/-- The words before. -/
theorem take_packWords (ws after : List Nat) {len : Nat} (hlen : len = 32 * ws.length) :
    (packWords (ws ++ after)).take len = packWords ws := by
  rw [packWords_append]
  exact List.take_left' ((length_packWords ws).trans hlen.symm)

/-- The words after. -/
theorem drop_packWords (before ws : List Nat) {offset : Nat} (hoffset : offset = 32 * before.length) :
    (packWords (before ++ ws)).drop offset = packWords ws := by
  rw [packWords_append]
  exact List.drop_left' ((length_packWords before).trans hoffset.symm)

/-- The words between two positions, read off the bytes. -/
theorem slice_packWords {ws vs : List Nat} (i k : Nat) {offset len : Nat} (hoffset : offset = 32 * i)
    (hlen : len = 32 * k) (hi : i ≤ ws.length) (hk : k ≤ (ws.drop i).length)
    (h : (ws.drop i).take k = vs) : ((packWords ws).drop offset).take len = packWords vs := by
  have hdrop : (packWords (ws.take i ++ ws.drop i)).drop offset = packWords (ws.drop i) := by
    refine drop_packWords _ _ ?_
    rw [List.length_take, Nat.min_eq_left hi, hoffset]
  have htake : (packWords ((ws.drop i).take k ++ (ws.drop i).drop k)).take len
      = packWords ((ws.drop i).take k) := by
    refine take_packWords _ _ ?_
    rw [List.length_take, Nat.min_eq_left hk, hlen]
  rw [List.take_append_drop] at hdrop htake
  rw [hdrop, htake, h]

end HZKA.Lib
