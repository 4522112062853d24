/-
  HZKA.Contracts.Groth16Verifier — the verifier library (`Groth16Verifier.sol`)
  around its cryptography.

  The guards of `verify` (number of inputs, inputs in the scalar field) are modelled;
  the linear combination of the `ic` points and the pairing product, which three
  precompiles compute, are one parameter `pairing`.  Results about a contract hold for
  every such parameter; results that need soundness assume it of `pairing`.  What the library
  computes there is in `HZKA.Verifier.Library`.
-/
import HZKA.Lib.Revert

namespace HZKA.Groth16Verifier

open HZKA.Lib

/-- A point of the curve, by its words. -/
structure G1Point where
  x : Nat
  y : Nat
  deriving DecidableEq, Repr

/-- A point of the twist, by its words. -/
structure G2Point where
  x : Nat × Nat
  y : Nat × Nat
  deriving DecidableEq, Repr

/-- A Groth16 proof. -/
structure Proof where
  a : G1Point
  b : G2Point
  c : G1Point
  deriving DecidableEq, Repr

/-- A Groth16 key. -/
structure VerifyingKey where
  alpha : G1Point
  beta : G2Point
  gamma : G2Point
  delta : G2Point
  ic : List G1Point
  deriving DecidableEq, Repr

/-- The order of the group. -/
@[irreducible] def SCALAR_MODULUS : Nat :=
  21888242871839275222246405745257275088548364400416034343698204186575808495617

theorem modulus_pos : 0 < SCALAR_MODULUS := by
  unfold SCALAR_MODULUS
  decide

theorem modulus_lt_word : SCALAR_MODULUS < 2 ^ 256 := by
  unfold SCALAR_MODULUS
  decide

instance : NeZero SCALAR_MODULUS := ⟨Nat.ne_of_gt modulus_pos⟩

/-- The pairing equation on a key, a proof and public inputs. -/
abbrev PairingCheck := VerifyingKey → Proof → List Nat → Except Revert Bool

/-- Count and range of the inputs, then the pairing equation. -/
def verify (pairing : PairingCheck) (vk : VerifyingKey) (proof : Proof)
    (publicInputs : List Nat) : Except Revert Bool := do
  require (publicInputs.length + 1 = vk.ic.length) "Invalid public inputs length"
  require (∀ x ∈ publicInputs, x < SCALAR_MODULUS) "Public input exceeds field"
  pairing vk proof publicInputs

/-- **What acceptance means.** -/
theorem verify_eq_true {pairing : PairingCheck} {vk : VerifyingKey} {proof : Proof}
    {publicInputs : List Nat} :
    verify pairing vk proof publicInputs = .ok true
      ↔ publicInputs.length + 1 = vk.ic.length ∧ (∀ x ∈ publicInputs, x < SCALAR_MODULUS)
        ∧ pairing vk proof publicInputs = .ok true := by
  unfold verify
  constructor
  · intro h
    obtain ⟨_, hlen, h⟩ := bind_eq_ok.mp h
    obtain ⟨_, hrange, h⟩ := bind_eq_ok.mp h
    exact ⟨require_eq_ok.mp hlen, require_eq_ok.mp hrange, h⟩
  · rintro ⟨hlen, hrange, h⟩
    rw [require_bind hlen, require_bind hrange, h]

/-- The ideal check: it accepts exactly the true statements. -/
noncomputable def idealPairing (Statement : List Nat → Prop) : PairingCheck :=
  open Classical in fun _ _ publicInputs => .ok (decide (Statement publicInputs))

/-- The ideal verifier accepts the true statements. -/
theorem idealPairing_eq_true {Statement : List Nat → Prop} {vk : VerifyingKey} {proof : Proof}
    {publicInputs : List Nat} :
    idealPairing Statement vk proof publicInputs = .ok true ↔ Statement publicInputs := by
  simp [idealPairing]

/-- A key for `n` public inputs (its points do not matter here). -/
def emptyKey (n : Nat) : VerifyingKey :=
  ⟨⟨0, 0⟩, ⟨(0, 0), (0, 0)⟩, ⟨(0, 0), (0, 0)⟩, ⟨(0, 0), (0, 0)⟩, List.replicate (n + 1) ⟨0, 0⟩⟩

/-- Some proof. -/
def emptyProof : Proof := ⟨⟨0, 0⟩, ⟨(0, 0), (0, 0)⟩, ⟨0, 0⟩⟩

end HZKA.Groth16Verifier
