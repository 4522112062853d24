/-
  HZKA.Verifier.Agreement
  ────────────
  **LIBRARY AND PRECOMPILE**: which data `Groth16Verifier.verify` and `groth16Verify.Run`
  judge alike, over one group with one canonical decoding.

  They evaluate the same equation, at the same points.  They differ in what they check
  before: `Run` takes a public input modulo the order of the group, which `verify` compares
  with it; `verify` reduces the ordinate of `A`, which `Run` decodes as it is.

    • `verify_iff_satisfied`, `run_iff_satisfied` — each accepts what satisfies the equation and
      passes its own check;
    • `verifiers_agree_iff` — they agree EXACTLY when, if the equation is satisfied, all inputs
      are below the order iff the ordinate of `A` is below the modulus;
    • `verifiers_disagree` — one statement with the inputs 0 and `r`, in every group.
-/
import HZKA.Verifier.Native
import Mathlib.Data.ZMod.Basic

namespace HZKA.Verifier

open Function
open HZKA.Lib HZKA.Groth16Verifier

variable {B : Bn256}

/-! ## §1. The negative of `A`. -/

/-- On a reduced ordinate, `negate` is negation. -/
theorem unmarshal_negate_iff {a : G1Point} (hy : a.y < FIELD_MODULUS) {P : B.G1} :
    B.unmarshal (g1Words (negate a)) = some (-P) ↔ B.unmarshal (g1Words a) = some P := by
  unfold negate g1Words
  split
  case isTrue hzero =>
    rw [hzero.1, hzero.2, B.unmarshal_zero, Option.some.injEq, Option.some.injEq, eq_comm,
      neg_eq_zero, eq_comm]
  case isFalse hne =>
    rw [Nat.mod_eq_of_lt hy]
    rcases Nat.eq_zero_or_pos a.y with hzero | hpos
    · -- no point but infinity has ordinate zero, and none has the modulus
      constructor
      · intro h
        have hlt : FIELD_MODULUS - a.y < FIELD_MODULUS := (PairingGroup.unmarshal_lt h).2
        omega
      · intro h
        have hpos := (PairingGroup.ordinate_pos h fun hpair => hne (Prod.mk.inj hpair)).2
        omega
    · exact PairingGroup.unmarshal_neg hpos hy

/-! ## §2. A group.

The integers modulo `r` with multiplication as pairing.  Of two opposite points the one with
the smaller residue has ordinate 1, the other the modulus less 1. -/

section Residues

/-- The coordinates of a residue. -/
def residueWords (k : ZMod SCALAR_MODULUS) : Nat × Nat :=
  if k = 0 then (0, 0)
  else (min k.val (SCALAR_MODULUS - k.val),
    if k.val ≤ SCALAR_MODULUS - k.val then 1 else FIELD_MODULUS - 1)

theorem moduli : SCALAR_MODULUS % 2 = 1 ∧ SCALAR_MODULUS < FIELD_MODULUS ∧ 2 < FIELD_MODULUS := by
  unfold SCALAR_MODULUS FIELD_MODULUS
  norm_num

theorem residueWords_zero : residueWords 0 = (0, 0) := if_pos rfl

theorem residueWords_of_ne {k : ZMod SCALAR_MODULUS} (h : k ≠ 0) :
    residueWords k = (min k.val (SCALAR_MODULUS - k.val),
      if k.val ≤ SCALAR_MODULUS - k.val then 1 else FIELD_MODULUS - 1) := if_neg h

theorem residueWords_neg {k : ZMod SCALAR_MODULUS} (h : k ≠ 0) :
    0 < (residueWords k).2
      ∧ residueWords (-k) = ((residueWords k).1, FIELD_MODULUS - (residueWords k).2) := by
  obtain ⟨hodd, hlt, htwo⟩ := moduli
  have hval : (-k).val = SCALAR_MODULUS - k.val := by rw [ZMod.neg_val, if_neg h]
  have hk := k.val_lt
  have hpos : 0 < k.val := Nat.pos_of_ne_zero fun hzero => h ((ZMod.val_eq_zero k).mp hzero)
  have hback : SCALAR_MODULUS - (SCALAR_MODULUS - k.val) = k.val := by omega
  have hone : FIELD_MODULUS - (FIELD_MODULUS - 1) = 1 := by omega
  rw [residueWords_of_ne h, residueWords_of_ne (neg_ne_zero.mpr h), hval, hback]
  -- the order is odd, so exactly one of the two has the smaller residue
  by_cases hsmall : k.val ≤ SCALAR_MODULUS - k.val
  · rw [if_pos hsmall, if_neg (by omega), min_comm]
    exact ⟨Nat.one_pos, rfl⟩
  · rw [if_neg hsmall, if_pos (by omega), min_comm, hone]
    refine ⟨?_, rfl⟩
    show 0 < FIELD_MODULUS - 1
    omega

/-- Distinct points, distinct words. -/
theorem residueWords_injective : Injective residueWords := by
  obtain ⟨hodd, hlt, htwo⟩ := moduli
  have hpos : ∀ {k : ZMod SCALAR_MODULUS}, k ≠ 0 → 0 < (residueWords k).2 :=
    fun hk => (residueWords_neg hk).1
  intro k l h
  by_cases hk : k = 0
  · by_cases hl : l = 0
    · rw [hk, hl]
    · have hl := hpos hl
      rw [← h, hk, residueWords_zero] at hl
      exact absurd hl (Nat.lt_irrefl 0)
  · by_cases hl : l = 0
    · have hk := hpos hk
      rw [h, hl, residueWords_zero] at hk
      exact absurd hk (Nat.lt_irrefl 0)
    · rw [residueWords_of_ne hk, residueWords_of_ne hl] at h
      obtain ⟨hmin, hsign⟩ := Prod.mk.inj h
      have hkv := k.val_lt
      have hlv := l.val_lt
      apply ZMod.val_injective
      split at hsign <;> split at hsign <;> omega

theorem residueWords_lt (k : ZMod SCALAR_MODULUS) :
    (residueWords k).1 < FIELD_MODULUS ∧ (residueWords k).2 < FIELD_MODULUS := by
  obtain ⟨hodd, hlt, htwo⟩ := moduli
  have hk := k.val_lt
  by_cases h : k = 0
  · rw [h, residueWords_zero]
    dsimp only
    omega
  · rw [residueWords_of_ne h]
    dsimp only
    refine ⟨by omega, ?_⟩
    split <;> omega

/-- The words of a residue on the twist. -/
def residueTwist (k : ZMod SCALAR_MODULUS) : (Nat × Nat) × (Nat × Nat) := ((k.val, 0), (0, 0))

/-- Distinct twist points, distinct words. -/
theorem residueTwist_injective : Injective residueTwist := by
  intro k l h
  exact ZMod.val_injective _ (Prod.mk.inj (Prod.mk.inj h).1).1

/-- The residues modulo the order, with multiplication for a pairing. -/
noncomputable def residues : Bn256 where
  G1 := ZMod SCALAR_MODULUS
  G2 := ZMod SCALAR_MODULUS
  GT := Multiplicative (ZMod SCALAR_MODULUS)
  eqGT := inferInstance
  pair k t := Multiplicative.ofAdd (k * t)
  pair_add_left k l t := by rw [add_mul, ofAdd_add]
  pair_add_right k t u := by rw [mul_add, ofAdd_add]
  order k := by rw [nsmul_eq_mul, CharP.cast_eq_zero, zero_mul]
  marshal := residueWords
  unmarshal := partialInv residueWords
  unmarshal_inv := residueWords_injective.isPartialInv
  marshal_zero := residueWords_zero
  marshal_lt := residueWords_lt
  marshal_neg _ h := residueWords_neg h
  marshalTwist := residueTwist
  unmarshalTwist := partialInv residueTwist
  unmarshalTwist_inv := residueTwist_injective.isPartialInv
  marshalTwist_zero := by rw [residueTwist, ZMod.val_zero]

end Residues

/-! ## §3. Agreement. -/

variable (B) in
/-- The statement holds of the points the words stand for: the lengths fit, everything decodes
(`A` through `negate`, so with its ordinate reduced) and the pairing equation is satisfied. -/
def Satisfied (vk : VerifyingKey) (proof : Proof) (publicInputs : List Nat) : Prop :=
  publicInputs.length + 1 = vk.ic.length
    ∧ ∃ points : Points B, Decoded B vk proof points
      ∧ B.unmarshal (g1Words (negate proof.a)) = some (-points.a)
      ∧ points.Holds publicInputs

/-- `verify` asks, besides, that every input is below the order. -/
theorem verify_iff_satisfied {vk : VerifyingKey} {proof : Proof} {publicInputs : List Nat} :
    verify (equation B) vk proof publicInputs = .ok true
      ↔ Satisfied B vk proof publicInputs ∧ ∀ x ∈ publicInputs, x < SCALAR_MODULUS := by
  rw [verify_accepts_iff]
  constructor
  · intro ⟨hcount, hrange, hpoints⟩
    exact ⟨⟨hcount, hpoints⟩, hrange⟩
  · intro ⟨⟨hcount, hpoints⟩, hrange⟩
    exact ⟨hcount, hrange, hpoints⟩

/-- `Run` asks, besides, that the ordinate of `A` is below the modulus. -/
theorem run_iff_satisfied {vk : VerifyingKey} {proof : Proof} {publicInputs : List Nat}
    (hwords : IsWords vk proof publicInputs) (hlen : publicInputs.length ≤ 100) :
    run B (encode vk proof publicInputs) = .ok true32Byte
      ↔ Satisfied B vk proof publicInputs ∧ proof.a.y < FIELD_MODULUS := by
  rw [run_accepts_iff hwords hlen]
  constructor
  · intro ⟨hcount, points, hdec, hA, hholds⟩
    have hy := (PairingGroup.unmarshal_lt hA).2
    exact ⟨⟨hcount, points, hdec, (unmarshal_negate_iff hy).mpr hA, hholds⟩, hy⟩
  · intro ⟨⟨hcount, points, hdec, hA, hholds⟩, hy⟩
    exact ⟨hcount, points, hdec, (unmarshal_negate_iff hy).mp hA, hholds⟩

/-- **When the two agree**: unless the equation holds of the decoded points while one of the
two reductions matters and the other does not. -/
theorem verifiers_agree_iff (B : Bn256) (vk : VerifyingKey) (proof : Proof)
    (publicInputs : List Nat) (hwords : IsWords vk proof publicInputs)
    (hlen : publicInputs.length ≤ 100) :
    (verify (equation B) vk proof publicInputs = .ok true
        ↔ run B (encode vk proof publicInputs) = .ok true32Byte)
      ↔ (Satisfied B vk proof publicInputs →
          ((∀ x ∈ publicInputs, x < SCALAR_MODULUS) ↔ proof.a.y < FIELD_MODULUS)) := by
  rw [verify_iff_satisfied, run_iff_satisfied hwords hlen]
  exact and_congr_right_iff

/-- In the group of residues: `A = 2`, `B = 3`, `C = 3`, one input with value 1. -/
def residueKey : VerifyingKey :=
  ⟨⟨1, 1⟩, ⟨(0, 1), (0, 0)⟩, ⟨(0, 1), (0, 0)⟩, ⟨(0, 1), (0, 0)⟩, [⟨1, 1⟩, ⟨1, 1⟩]⟩

/-- The proof `(2, 3, 3)`. -/
def residueProof : Proof := ⟨⟨2, 1⟩, ⟨(0, 3), (0, 0)⟩, ⟨3, 1⟩⟩

theorem residue_val {k : Nat} (h : k < 4) : ((k : Nat) : ZMod SCALAR_MODULUS).val = k := by
  rw [ZMod.val_natCast, Nat.mod_eq_of_lt]
  unfold SCALAR_MODULUS
  omega

theorem unmarshal_residue {k : Nat} (hpos : 0 < k) (h : k < 4) :
    residues.unmarshal (k, 1) = some ((k : Nat) : ZMod SCALAR_MODULUS) := by
  have hval := residue_val h
  have hne : ((k : Nat) : ZMod SCALAR_MODULUS) ≠ 0 := by
    intro hzero
    rw [hzero, ZMod.val_zero] at hval
    omega
  have hsmall : k + k ≤ SCALAR_MODULUS := by
    unfold SCALAR_MODULUS
    omega
  refine (residues.unmarshal_inv _ _).mpr ?_
  show residueWords _ = _
  rw [residueWords_of_ne hne, hval, if_pos (by omega), Nat.min_eq_left (by omega)]

theorem unmarshalTwist_residue {k : Nat} (h : k < 4) :
    residues.unmarshalTwist ((k, 0), (0, 0)) = some ((k : Nat) : ZMod SCALAR_MODULUS) := by
  refine (residues.unmarshalTwist_inv _ _).mpr ?_
  show residueTwist _ = _
  unfold residueTwist
  rw [residue_val h]

/-- `-2·3 + 1·1 + (1 + 1)·1 + 3·1 = 0`. -/
theorem residue_satisfied : Satisfied residues residueKey residueProof [1] := by
  have hone := unmarshal_residue (k := 1) (by omega) (by omega)
  have htwo := unmarshal_residue (k := 2) (by omega) (by omega)
  have hthree := unmarshal_residue (k := 3) (by omega) (by omega)
  have htwist := unmarshalTwist_residue (k := 1) (by omega)
  have hmodulus : 1 < FIELD_MODULUS := by
    unfold FIELD_MODULUS
    decide
  refine ⟨rfl, ⟨((2 : Nat) : ZMod SCALAR_MODULUS), ((3 : Nat) : ZMod SCALAR_MODULUS),
    ((3 : Nat) : ZMod SCALAR_MODULUS), ((1 : Nat) : ZMod SCALAR_MODULUS),
    ((1 : Nat) : ZMod SCALAR_MODULUS), ((1 : Nat) : ZMod SCALAR_MODULUS),
    ((1 : Nat) : ZMod SCALAR_MODULUS), ((1 : Nat) : ZMod SCALAR_MODULUS),
    [((1 : Nat) : ZMod SCALAR_MODULUS)]⟩, ?_, ?_, ?_⟩
  · exact ⟨unmarshalTwist_residue (k := 3) (by omega), hthree, hone, htwist, htwist, htwist,
      .cons hone (.cons hone .nil)⟩
  · exact (unmarshal_negate_iff hmodulus).mpr htwo
  · have hsum : -((2 : Nat) : ZMod SCALAR_MODULUS) * ((3 : Nat) : ZMod SCALAR_MODULUS)
        + (((1 : Nat) : ZMod SCALAR_MODULUS) * ((1 : Nat) : ZMod SCALAR_MODULUS)
          + ((((1 : Nat) : ZMod SCALAR_MODULUS) + 1 • ((1 : Nat) : ZMod SCALAR_MODULUS))
              * ((1 : Nat) : ZMod SCALAR_MODULUS)
            + (((3 : Nat) : ZMod SCALAR_MODULUS) * ((1 : Nat) : ZMod SCALAR_MODULUS) + 0))) = 0 := by
      push_cast
      rw [one_nsmul]
      ring
    unfold Points.Holds PairingGroup.pairingCheck
    exact decide_eq_true (congrArg Multiplicative.ofAdd hsum)

/-- The verifiers agree on it: both accept. -/
theorem residue_verifiers_agree :
    verify (equation residues) residueKey residueProof [1] = .ok true
      ∧ (verify (equation residues) residueKey residueProof [1] = .ok true
        ↔ run residues (encode residueKey residueProof [1]) = .ok true32Byte) := by
  have hwords : IsWords residueKey residueProof [1] := by
    simp [IsWords, encodeWords, residueKey, residueProof, g2WordList]
  have hrange : ∀ x ∈ [1], x < SCALAR_MODULUS := by
    intro x hx
    obtain rfl := List.mem_singleton.mp hx
    unfold SCALAR_MODULUS
    decide
  have hordinate : residueProof.a.y < FIELD_MODULUS := by
    show 1 < FIELD_MODULUS
    unfold FIELD_MODULUS
    decide
  exact ⟨verify_iff_satisfied.mpr ⟨residue_satisfied, hrange⟩,
    (verifiers_agree_iff residues residueKey residueProof [1] hwords (by decide)).mpr
      fun _ => ⟨fun _ => hordinate, fun _ => hrange⟩⟩

/-! ## §4. A statement with two inputs.

Key and proof are at infinity: the equation holds for every input. -/

theorem empty_isWords {x : Nat} (hx : x < 2 ^ 256) : IsWords (emptyKey 1) emptyProof [x] := by
  simp [IsWords, encodeWords, emptyKey, emptyProof, g2WordList]
  omega

/-- The native verifier accepts any word. -/
theorem empty_accepts {x : Nat} (hx : x < 2 ^ 256) :
    run B (encode (emptyKey 1) emptyProof [x]) = .ok true32Byte := by
  refine (run_accepts_iff (empty_isWords hx) (by simp)).mpr ⟨rfl, ⟨0, 0, 0, 0, 0, 0, 0, 0, [0]⟩, ?_, ?_, ?_⟩
  · have hcurve : B.unmarshal (g1Words ⟨0, 0⟩) = some 0 := B.unmarshal_zero
    have htwist : B.unmarshalTwist (g2Words ⟨(0, 0), (0, 0)⟩) = some 0 := B.unmarshalTwist_zero
    exact ⟨htwist, hcurve, hcurve, htwist, htwist, htwist, .cons hcurve (.cons hcurve .nil)⟩
  · exact B.unmarshal_zero
  · have hsum : PairingGroup.linearCombination (0 : B.G1) [(0, x)] = 0 := by
      show (0 : B.G1) + x • (0 : B.G1) = 0
      rw [nsmul_zero, add_zero]
    unfold Points.Holds
    simp [PairingGroup.pairingCheck, hsum]

/-- The library rejects the modulus. -/
theorem verify_rejects (B : Bn256) :
    verify (equation B) (emptyKey 1) emptyProof [SCALAR_MODULUS]
      = .error (.require "Public input exceeds field") := by
  have hcount : [SCALAR_MODULUS].length + 1 = (emptyKey 1).ic.length := rfl
  unfold verify
  rw [require_bind hcount]
  refine bind_eq_error.mpr (.inl (require_eq_error.mpr ⟨?_, rfl⟩))
  intro hrange
  exact Nat.lt_irrefl _ (hrange SCALAR_MODULUS (List.mem_singleton_self _))

/-- **They disagree**: in every group, `Run` accepts the inputs 0 and `r` for one statement,
and `verify` rejects the second. -/
theorem verifiers_disagree :
    (¬ ∀ (B : Bn256) (vk : VerifyingKey) (proof : Proof) (publicInputs : List Nat),
        IsWords vk proof publicInputs → publicInputs.length ≤ 100 →
        (verify (equation B) vk proof publicInputs = .ok true
          ↔ run B (encode vk proof publicInputs) = .ok true32Byte))
      ∧ ∀ B : Bn256, run B (encode (emptyKey 1) emptyProof [0]) = .ok true32Byte
          ∧ run B (encode (emptyKey 1) emptyProof [0 + SCALAR_MODULUS]) = .ok true32Byte
          ∧ verify (equation B) (emptyKey 1) emptyProof [SCALAR_MODULUS]
            = .error (.require "Public input exceeds field") := by
  have hr := modulus_lt_word
  constructor
  · intro hall
    have haccept := (hall residues (emptyKey 1) emptyProof [SCALAR_MODULUS] (empty_isWords hr)
      (by simp)).mpr (empty_accepts hr)
    rw [verify_rejects] at haccept
    cases haccept
  · intro B
    refine ⟨empty_accepts (by decide), empty_accepts (by omega), verify_rejects B⟩

end HZKA.Verifier
