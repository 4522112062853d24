/-
  HZKA.Circuits.ExchangePrepare
  ────────────
  **THE PREPARE CIRCUIT Λ^off_Φ** (`ExchangePrepareCircuit.java`): two hash locks whose serial
  numbers differ by the public word `Z_256`.

    • `sn_I_of_sn_II`   — who sees one serial number has the other;
    • `prepare_binds`   — `Z_256` and the hash lock of either chain fix the secrets of both,
      or two different blocks collide.
-/
import HZKA.Circuits.ExchangeUnlock

namespace HZKA.Circuits.ExchangePrepare

open HZKA.Lib HZKA.Circuits.SHA256
open HZKA.Circuits.ExchangeUnlock (hashLock hashLockBlock hashLock_block_inj)

/-! ## §1. The circuit. -/

/-- All wires of the circuit that the prover or the verifier sets. -/
structure Assignment where
  pre_I : Vector Byte 32
  pre_II : Vector Byte 32
  Z_256 : Vector Byte 32
  h_pre_sn_I : Digest
  h_pre_sn_II : Digest
  sn_I : Vector Byte 32
  sn_II : Vector Byte 32
  deriving DecidableEq

/-- **The constraints**, in the order of `outsource`. -/
structure Outsource (a : Assignment) : Prop where
  linked : ∀ (i : Nat) (hi : i < 32), a.sn_I[i] ^^^ a.Z_256[i] = a.sn_II[i]
  lock_I : hashLock a.pre_I a.sn_I = a.h_pre_sn_I
  lock_II : hashLock a.pre_II a.sn_II = a.h_pre_sn_II

/-! ## §2. One serial number from the other. -/

/-- A byte of a word, by shifts. -/
theorem getElem_vecBE (x : BitVec 256) {i : Nat} (hi : i < 32) :
    (vecBE 32 x)[i] = (x >>> (8 * (32 - 1 - i))).setWidth 8 := by
  have hlen : i < (bytesBE 32 x).length := by rw [bytesBE_length]; exact hi
  have hget := bytesBE_getElem 32 x i hlen
  rw [← hget]
  simp only [vecBE, Vector.getElem_mk, List.getElem_toArray]

/-- The bytes of an exclusive or. -/
theorem getElem_vecBE_xor (x y : BitVec 256) {i : Nat} (hi : i < 32) :
    (vecBE 32 (x ^^^ y))[i] = (vecBE 32 x)[i] ^^^ (vecBE 32 y)[i] := by
  rw [getElem_vecBE _ hi, getElem_vecBE _ hi, getElem_vecBE _ hi, BitVec.ushiftRight_xor_distrib,
    BitVec.setWidth_xor]

/-- **The link, read as words**: `sn_I = sn_II ⊕ Z_256`. -/
theorem sn_I_of_sn_II {a : Assignment} (ha : Outsource a) {sn z : BitVec 256}
    (hsn : a.sn_II = vecBE 32 sn) (hz : a.Z_256 = vecBE 32 z) : a.sn_I = vecBE 32 (sn ^^^ z) := by
  apply Vector.ext
  intro i hi
  have hlink := ha.linked i hi
  rw [getElem_vecBE_xor _ _ hi, ← hsn, ← hz, ← hlink, BitVec.xor_assoc, BitVec.xor_self,
    BitVec.xor_zero]

/-- Equal on one side of the link, equal on the other. -/
theorem sn_I_eq_iff {a a' : Assignment} (ha : Outsource a) (ha' : Outsource a')
    (hz : a.Z_256 = a'.Z_256) : a.sn_I = a'.sn_I ↔ a.sn_II = a'.sn_II := by
  constructor
  · intro h
    apply Vector.ext
    intro i hi
    rw [← ha.linked i hi, ← ha'.linked i hi, h, hz]
  · intro h
    apply Vector.ext
    intro i hi
    have hlink := ha.linked i hi
    rw [h, ← ha'.linked i hi, hz] at hlink
    exact BitVec.xor_left_inj _ |>.mp hlink

/-! ## §3. What the public values fix. -/

/-- The two blocks an assignment hashes. -/
def Assignment.blocks (a : Assignment) : List (List Byte) :=
  [hashLockBlock a.pre_I a.sn_I, hashLockBlock a.pre_II a.sn_II]

/-- A hash lock opens one way, or its two openings collide. -/
theorem hashLock_opens {pre sn pre' sn' : Vector Byte 32}
    (h : hashLock pre sn = hashLock pre' sn') :
    (pre = pre' ∧ sn = sn') ∨ Collision [hashLockBlock pre sn] [hashLockBlock pre' sn'] := by
  by_cases hblock : hashLockBlock pre sn = hashLockBlock pre' sn'
  · exact Or.inl (hashLock_block_inj hblock)
  · refine Or.inr ⟨_, List.mem_singleton_self _, _, List.mem_singleton_self _, hblock, ?_⟩
    unfold hashLockBlock
    rw [← hash_eq_compress_block, ← hash_eq_compress_block]
    exact h

/-- **One hash lock and `Z_256` fix the serial numbers of both chains**, unless a collision is
exhibited. -/
theorem prepare_binds {a a' : Assignment} (ha : Outsource a) (ha' : Outsource a')
    (hz : a.Z_256 = a'.Z_256)
    (hlock : a.h_pre_sn_I = a'.h_pre_sn_I ∨ a.h_pre_sn_II = a'.h_pre_sn_II) :
    (a.sn_I = a'.sn_I ∧ a.sn_II = a'.sn_II) ∨ Collision a.blocks a'.blocks := by
  have hlink := sn_I_eq_iff ha ha' hz
  rcases hlock with hI | hII
  · rcases hashLock_opens (ha.lock_I.trans (hI.trans ha'.lock_I.symm)) with ⟨-, hsn⟩ | hcol
    · exact Or.inl ⟨hsn, hlink.mp hsn⟩
    · exact Or.inr (hcol.mono (by simp [Assignment.blocks]) (by simp [Assignment.blocks]))
  · rcases hashLock_opens (ha.lock_II.trans (hII.trans ha'.lock_II.symm)) with ⟨-, hsn⟩ | hcol
    · exact Or.inl ⟨hlink.mpr hsn, hsn⟩
    · exact Or.inr (hcol.mono (by simp [Assignment.blocks]) (by simp [Assignment.blocks]))

/-- Both locks of the sample, under `Z_256 = 0`. -/
def sample : Assignment where
  pre_I := ExchangeUnlock.sample.pre
  pre_II := ExchangeUnlock.sample.pre
  Z_256 := vecBE 32 (0 : BitVec 256)
  h_pre_sn_I := ExchangeUnlock.sampleHashLock
  h_pre_sn_II := ExchangeUnlock.sampleHashLock
  sn_I := ExchangeUnlock.sample.sn
  sn_II := ExchangeUnlock.sample.sn

/-- The sample meets the constraints. -/
theorem sample_outsource : Outsource sample := by
  refine ⟨?_, ExchangeUnlock.sample_hashLock, ExchangeUnlock.sample_hashLock⟩
  intro i hi
  show (vecBE 32 (7 : BitVec 256))[i] ^^^ (vecBE 32 (0 : BitVec 256))[i]
    = (vecBE 32 (7 : BitVec 256))[i]
  rw [← getElem_vecBE_xor _ _ hi, show (7 : BitVec 256) ^^^ 0 = 7 by decide]

/-- The same serial numbers with another preimage, hence another lock, on chain II. -/
def relocked : Assignment :=
  { sample with pre_II := sample.Z_256, h_pre_sn_II := hashLock sample.Z_256 sample.sn_II }

theorem sample_prepare_binds :
    (sample.sn_I = relocked.sn_I ∧ sample.sn_II = relocked.sn_II)
      ∨ Collision sample.blocks relocked.blocks :=
  prepare_binds sample_outsource ⟨sample_outsource.linked, sample_outsource.lock_I, rfl⟩ rfl
    (Or.inl rfl)

end HZKA.Circuits.ExchangePrepare
