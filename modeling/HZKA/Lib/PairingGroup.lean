/-
  HZKA.Lib.PairingGroup
  ────────────
  **A PAIRING AND ITS POINTS AS NUMBERS.**

  Two groups with a bilinear map into a third, and the affine coordinates of their points
  over the field of `p` elements.  Decoding is canonical: it inverts `marshal` on its image
  and fails elsewhere, in particular on a coordinate that is not below `p`.

    • `unmarshal_eq_some`, `unmarshal_lt` — what decodes;
    • `unmarshal_neg` — the negative has the opposite ordinate;
    • `linearCombination` — `P₀ + Σ xᵢ • Pᵢ`.
-/
import Mathlib.Algebra.BigOperators.Group.List.Basic
import Mathlib.Algebra.Module.Defs
import Mathlib.Tactic.Common

namespace HZKA.Lib

/-- Groups of exponent `r` with coordinates below `p`. -/
structure PairingGroup (p r : Nat) where
  G1 : Type
  G2 : Type
  GT : Type
  [addG1 : AddCommGroup G1]
  [addG2 : AddCommGroup G2]
  [mulGT : CommGroup GT]
  [eqGT : DecidableEq GT]
  pair : G1 → G2 → GT
  pair_add_left : ∀ P Q T, pair (P + Q) T = pair P T * pair Q T
  pair_add_right : ∀ P T U, pair P (T + U) = pair P T * pair P U
  order : ∀ P : G1, r • P = 0
  marshal : G1 → Nat × Nat
  unmarshal : Nat × Nat → Option G1
  unmarshal_inv : Function.IsPartialInv marshal unmarshal
  marshal_zero : marshal 0 = (0, 0)
  marshal_lt : ∀ P, (marshal P).1 < p ∧ (marshal P).2 < p
  /-- No point is its own negative but the point at infinity. -/
  marshal_neg : ∀ P, P ≠ 0 → 0 < (marshal P).2 ∧ marshal (-P) = ((marshal P).1, p - (marshal P).2)
  marshalTwist : G2 → (Nat × Nat) × (Nat × Nat)
  unmarshalTwist : (Nat × Nat) × (Nat × Nat) → Option G2
  unmarshalTwist_inv : Function.IsPartialInv marshalTwist unmarshalTwist
  marshalTwist_zero : marshalTwist 0 = ((0, 0), (0, 0))

namespace PairingGroup

attribute [instance] addG1 addG2 mulGT eqGT

variable {p r : Nat} (B : PairingGroup p r)

/-! ## §1. Points. -/

/-- Decoding inverts encoding. -/
theorem unmarshal_eq_some {xy : Nat × Nat} {P : B.G1} :
    B.unmarshal xy = some P ↔ B.marshal P = xy := B.unmarshal_inv P xy

@[simp] theorem unmarshal_marshal (P : B.G1) : B.unmarshal (B.marshal P) = some P :=
  B.unmarshal_eq_some.mpr rfl

@[simp] theorem unmarshal_zero : B.unmarshal (0, 0) = some 0 :=
  B.unmarshal_eq_some.mpr B.marshal_zero

@[simp] theorem unmarshalTwist_zero : B.unmarshalTwist ((0, 0), (0, 0)) = some 0 :=
  (B.unmarshalTwist_inv 0 _).mpr B.marshalTwist_zero

variable {B} in
/-- Only reduced coordinates decode. -/
theorem unmarshal_lt {x y : Nat} {P : B.G1} (h : B.unmarshal (x, y) = some P) : x < p ∧ y < p := by
  have hlt := B.marshal_lt P
  rw [B.unmarshal_eq_some.mp h] at hlt
  exact hlt

variable {B} in
/-- The ordinate of a point other than infinity. -/
theorem ordinate_pos {x y : Nat} {P : B.G1} (h : B.unmarshal (x, y) = some P)
    (hne : (x, y) ≠ (0, 0)) : P ≠ 0 ∧ 0 < y := by
  have hxy := B.unmarshal_eq_some.mp h
  have hP : P ≠ 0 := by
    intro hzero
    rw [hzero, B.marshal_zero] at hxy
    exact hne hxy.symm
  have hpos := (B.marshal_neg P hP).1
  rw [hxy] at hpos
  exact ⟨hP, hpos⟩

variable {B} in
/-- **The negative of a point** other than infinity. -/
theorem unmarshal_neg {x y : Nat} (hy : 0 < y) (hlt : y < p) {P : B.G1} :
    B.unmarshal (x, p - y) = some (-P) ↔ B.unmarshal (x, y) = some P := by
  -- one direction, for both signs
  have hflip : ∀ {y : Nat} {Q : B.G1}, 0 < y → B.unmarshal (x, y) = some Q →
      B.unmarshal (x, p - y) = some (-Q) := by
    intro y Q hy h
    have hxy := B.unmarshal_eq_some.mp h
    obtain ⟨hQ, -⟩ := ordinate_pos h (by intro hzero; cases hzero; omega)
    have hneg := (B.marshal_neg Q hQ).2
    rw [hxy] at hneg
    exact B.unmarshal_eq_some.mpr hneg
  constructor
  · intro h
    have hback := hflip (by omega) h
    rw [neg_neg, Nat.sub_sub_self (Nat.le_of_lt hlt)] at hback
    exact hback
  · exact hflip hy

/-! ## §2. The equation. -/

@[simp] theorem pair_zero_left (T : B.G2) : B.pair 0 T = 1 := by
  have h := B.pair_add_left 0 0 T
  rw [add_zero] at h
  exact left_eq_mul.mp h

variable {B} in
/-- `P₀ + Σ xᵢ • Pᵢ`, from the left. -/
def linearCombination (P₀ : B.G1) (terms : List (B.G1 × Nat)) : B.G1 :=
  terms.foldl (fun acc term => acc + term.2 • term.1) P₀

/-- The product of the pairings is one. -/
def pairingCheck (pairs : List (B.G1 × B.G2)) : Bool :=
  decide ((pairs.map fun q => B.pair q.1 q.2).prod = 1)

end PairingGroup

end HZKA.Lib
