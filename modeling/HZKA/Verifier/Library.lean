/-
  HZKA.Verifier.Library
  ────────────
  **THE PAIRING EQUATION IN SOLIDITY** (`Groth16Verifier.sol`): `negate`, `addition`,
  `scalarMul`, `pairing`, and the part of `verify` behind its guards.

  The precompiles 0x06, 0x07 and 0x08 are those of a pairing group: they decode their words
  canonically, fail on what does not decode, and return canonical words.  The points travel
  as words between the calls.

    • `vkX_eq_iff` — the loop computes `IC₀ + Σ xᵢ • ICᵢ₊₁` if every point decodes;
    • `verify_accepts_iff` — what `verify` accepts, in terms of the group.
-/
import HZKA.Contracts.Groth16Verifier
import HZKA.Lib.PairingGroup

namespace HZKA.Verifier

open HZKA.Lib HZKA.Groth16Verifier

/-! ## §1. The precompiles. -/

/-- The modulus of the curve's field. -/
@[irreducible] def FIELD_MODULUS : Nat :=
  21888242871839275222246405745257275088696311157297823662689037894645226208583

/-- The groups and the pairing of bn256. -/
abbrev Bn256 := PairingGroup FIELD_MODULUS SCALAR_MODULUS

variable (B : Bn256)

/-- Precompile 0x06. -/
def bn256Add (p1 p2 : Nat × Nat) : Option (Nat × Nat) := do
  let P ← B.unmarshal p1
  let Q ← B.unmarshal p2
  return B.marshal (P + Q)

/-- Precompile 0x07. -/
def bn256ScalarMul (p : Nat × Nat) (s : Nat) : Option (Nat × Nat) := do
  let P ← B.unmarshal p
  return B.marshal (s • P)

/-- The decoded pair of points at one position of the input of precompile 0x08. -/
def decodePair (q : (Nat × Nat) × ((Nat × Nat) × (Nat × Nat))) : Option (B.G1 × B.G2) := do
  let P ← B.unmarshal q.1
  let T ← B.unmarshalTwist q.2
  return (P, T)

/-- Precompile 0x08. -/
def bn256Pairing (input : List ((Nat × Nat) × ((Nat × Nat) × (Nat × Nat)))) : Option Bool := do
  let pairs ← input.mapM (decodePair B)
  return B.pairingCheck pairs

/-! ## §2. The library. -/

/-- A curve point as two words. -/
def g1Words (p : G1Point) : Nat × Nat := (p.x, p.y)

/-- A twist point as the precompile reads it: the second component comes first. -/
def g2Words (p : G2Point) : (Nat × Nat) × (Nat × Nat) := ((p.x.2, p.x.1), (p.y.2, p.y.1))

/-- `require(success, …)` after a static call. -/
def succeeded {α : Type} (result : Option α) (message : String) : Except Revert α :=
  match result with
  | some a => .ok a
  | none => .error (.require message)

/-- `-P`; the ordinate 0 gives the modulus. -/
def negate (p : G1Point) : G1Point :=
  if p.x = 0 ∧ p.y = 0 then ⟨0, 0⟩ else ⟨p.x, FIELD_MODULUS - p.y % FIELD_MODULUS⟩

/-- The sum, by the precompile at 6. -/
def addition (p1 p2 : G1Point) : Except Revert G1Point := do
  let r ← succeeded (bn256Add B (g1Words p1) (g1Words p2)) "bn256Add failed"
  return ⟨r.1, r.2⟩

/-- The multiple, by the precompile at 7. -/
def scalarMul (p : G1Point) (s : Nat) : Except Revert G1Point := do
  let r ← succeeded (bn256ScalarMul B (g1Words p) s) "bn256ScalarMul failed"
  return ⟨r.1, r.2⟩

/-- Whether the product is one, by the precompile at 8. -/
def pairing (p1 : List G1Point) (p2 : List G2Point) : Except Revert Bool := do
  require (p1.length = p2.length) "Pairing length mismatch"
  succeeded (bn256Pairing B ((p1.map g1Words).zip (p2.map g2Words)))
    "bn256Pairing failed"

/-- The loop of `verify` over the public inputs. -/
def vkX (ic0 : G1Point) (terms : List (G1Point × Nat)) : Except Revert G1Point :=
  terms.foldlM (fun vk_x term => do addition B vk_x (← scalarMul B term.1 term.2)) ic0

/-- `verify` behind its guards: there are as many inputs as points after the first. -/
def equation : PairingCheck := fun vk proof publicInputs =>
  match vk.ic with
  | [] => .error .panic
  | ic0 :: ic => do
    let vk_x ← vkX B ic0 (ic.zip publicInputs)
    pairing B [negate proof.a, vk.alpha, vk_x, proof.c] [proof.b, vk.beta, vk.gamma, vk.delta]

/-! ## §3. Inversion. -/

variable {B}

theorem succeeded_eq_ok {α : Type} {result : Option α} {message : String} {a : α} :
    succeeded result message = .ok a ↔ result = some a := by
  cases result with
  | none => simp [succeeded]
  | some b => simp [succeeded]

/-- When an addition succeeds. -/
theorem addition_eq_ok {p1 p2 r : G1Point} :
    addition B p1 p2 = .ok r ↔ ∃ P Q, B.unmarshal (g1Words p1) = some P
      ∧ B.unmarshal (g1Words p2) = some Q ∧ g1Words r = B.marshal (P + Q) := by
  unfold addition
  rw [bind_eq_ok]
  simp only [succeeded_eq_ok, bn256Add, Option.bind_eq_bind, Option.bind_eq_some_iff,
    Option.pure_def, Option.some.injEq, pure_eq_ok]
  constructor
  · intro ⟨r', ⟨P, hP, Q, hQ, hr'⟩, hr⟩
    refine ⟨P, Q, hP, hQ, ?_⟩
    rw [← hr, hr']
    rfl
  · intro ⟨P, Q, hP, hQ, hr⟩
    exact ⟨g1Words r, ⟨P, hP, Q, hQ, hr.symm⟩, rfl⟩

/-- When a multiplication succeeds. -/
theorem scalarMul_eq_ok {p r : G1Point} {s : Nat} :
    scalarMul B p s = .ok r ↔ ∃ P, B.unmarshal (g1Words p) = some P
      ∧ g1Words r = B.marshal (s • P) := by
  unfold scalarMul
  rw [bind_eq_ok]
  simp only [succeeded_eq_ok, bn256ScalarMul, Option.bind_eq_bind, Option.bind_eq_some_iff,
    Option.pure_def, Option.some.injEq, pure_eq_ok]
  constructor
  · intro ⟨r', ⟨P, hP, hr'⟩, hr⟩
    refine ⟨P, hP, ?_⟩
    rw [← hr, hr']
    rfl
  · intro ⟨P, hP, hr⟩
    exact ⟨g1Words r, ⟨P, hP, hr.symm⟩, rfl⟩

/-- One round of the loop, read at the points its words stand for. -/
theorem round_eq_ok {vk_x p r : G1Point} {s : Nat} :
    (do addition B vk_x (← scalarMul B p s)) = .ok r
      ↔ ∃ P Q, B.unmarshal (g1Words vk_x) = some P
        ∧ B.unmarshal (g1Words p) = some Q
        ∧ g1Words r = B.marshal (P + s • Q) := by
  rw [bind_eq_ok]
  constructor
  · intro ⟨term, hterm, hr⟩
    obtain ⟨Q, hQ, hterm⟩ := scalarMul_eq_ok.mp hterm
    obtain ⟨P, T, hP, hT, hr⟩ := addition_eq_ok.mp hr
    rw [hterm, B.unmarshal_marshal] at hT
    obtain rfl := Option.some.inj hT
    exact ⟨P, Q, hP, hQ, hr⟩
  · intro ⟨P, Q, hP, hQ, hr⟩
    refine ⟨⟨(B.marshal (s • Q)).1, (B.marshal (s • Q)).2⟩, scalarMul_eq_ok.mpr ⟨Q, hQ, rfl⟩, ?_⟩
    exact addition_eq_ok.mpr ⟨P, s • Q, hP, B.unmarshal_marshal _, hr⟩

/-- The points that words stand for. -/
def Decode (B : Bn256) (words : List G1Point) (points : List B.G1) : Prop :=
  List.Forall₂ (fun p P => B.unmarshal (g1Words p) = some P) words points

/-- **The loop**: it returns words for `Q` exactly when every point decodes and `Q` is the
linear combination. -/
theorem vkX_eq_iff (ic : List G1Point) :
    ∀ {ic0 : G1Point} {publicInputs : List Nat} {Q : B.G1}, ic.length = publicInputs.length →
    ((∃ r, vkX B ic0 (ic.zip publicInputs) = .ok r ∧ B.unmarshal (g1Words r) = some Q)
      ↔ ∃ P₀ points, B.unmarshal (g1Words ic0) = some P₀ ∧ Decode B ic points
        ∧ Q = PairingGroup.linearCombination P₀ (points.zip publicInputs)) := by
  induction ic with
  | nil =>
    intro ic0 publicInputs Q _
    constructor
    · intro ⟨r, hr, hQ⟩
      obtain rfl := pure_eq_ok.mp hr
      exact ⟨Q, [], hQ, .nil, rfl⟩
    · intro ⟨P₀, points, hP₀, hpoints, hQ⟩
      cases hpoints
      refine ⟨ic0, rfl, ?_⟩
      rw [hP₀, hQ]
      rfl
  | cons p ic ih =>
    intro ic0 publicInputs Q hlen
    cases publicInputs with
    | nil => cases hlen
    | cons x publicInputs =>
      have hlen : ic.length = publicInputs.length := Nat.succ.inj hlen
      show (∃ r, ((do addition B ic0 (← scalarMul B p x)) >>= fun next =>
        vkX B next (ic.zip publicInputs)) = .ok r ∧ _) ↔ _
      constructor
      · intro ⟨r, hr, hQ⟩
        obtain ⟨next, hnext, hr⟩ := bind_eq_ok.mp hr
        obtain ⟨P₀, P, hP₀, hP, hnext⟩ := round_eq_ok.mp hnext
        obtain ⟨P', points, hP', hpoints, hsum⟩ := (ih hlen).mp ⟨r, hr, hQ⟩
        rw [hnext, B.unmarshal_marshal] at hP'
        obtain rfl := Option.some.inj hP'
        exact ⟨P₀, P :: points, hP₀, .cons hP hpoints, hsum⟩
      · intro ⟨P₀, points, hP₀, hpoints, hsum⟩
        cases hpoints with
        | cons hP hpoints =>
          rename_i P points
          have hround : (do addition B ic0 (← scalarMul B p x)) = .ok
              (⟨(B.marshal (P₀ + x • P)).1, (B.marshal (P₀ + x • P)).2⟩ : G1Point) :=
            round_eq_ok.mpr ⟨P₀, P, hP₀, hP, rfl⟩
          obtain ⟨r, hr, hQ⟩ := (@ih ⟨_, _⟩ publicInputs Q hlen).mpr
            ⟨P₀ + x • P, points, B.unmarshal_marshal _, hpoints, hsum⟩
          exact ⟨r, bind_eq_ok.mpr ⟨_, hround, hr⟩, hQ⟩

theorem decodePair_eq_some {q : (Nat × Nat) × ((Nat × Nat) × (Nat × Nat))} {R : B.G1 × B.G2} :
    decodePair B q = some R ↔ B.unmarshal q.1 = some R.1 ∧ B.unmarshalTwist q.2 = some R.2 := by
  unfold decodePair
  simp only [Option.bind_eq_bind, Option.bind_eq_some_iff, Option.pure_def, Option.some.injEq]
  constructor
  · intro ⟨P, hP, T, hT, hR⟩
    rw [← hR]
    exact ⟨hP, hT⟩
  · intro ⟨hP, hT⟩
    exact ⟨R.1, hP, R.2, hT, rfl⟩

/-- The pairing check on four pairs. -/
theorem pairing_eq_true {p₁ p₂ p₃ p₄ : G1Point} {q₁ q₂ q₃ q₄ : G2Point} :
    pairing B [p₁, p₂, p₃, p₄] [q₁, q₂, q₃, q₄] = .ok true
      ↔ ∃ P₁ P₂ P₃ P₄ T₁ T₂ T₃ T₄,
        (B.unmarshal (g1Words p₁) = some P₁ ∧ B.unmarshal (g1Words p₂) = some P₂
          ∧ B.unmarshal (g1Words p₃) = some P₃ ∧ B.unmarshal (g1Words p₄) = some P₄)
        ∧ (B.unmarshalTwist (g2Words q₁) = some T₁ ∧ B.unmarshalTwist (g2Words q₂) = some T₂
          ∧ B.unmarshalTwist (g2Words q₃) = some T₃ ∧ B.unmarshalTwist (g2Words q₄) = some T₄)
        ∧ B.pairingCheck [(P₁, T₁), (P₂, T₂), (P₃, T₃), (P₄, T₄)] = true := by
  have hlen : [p₁, p₂, p₃, p₄].length = [q₁, q₂, q₃, q₄].length := rfl
  unfold pairing
  rw [require_bind hlen, succeeded_eq_ok]
  unfold bn256Pairing
  simp only [Option.bind_eq_bind, Option.bind_eq_some_iff, mapM_eq_some_iff, Option.pure_def,
    Option.some.injEq]
  constructor
  · intro ⟨pairs, hpairs, hcheck⟩
    simp only [List.map_cons, List.map_nil, List.zip_cons_cons, List.zip_nil_right,
      List.forall₂_cons_left_iff, List.forall₂_nil_left_iff, decodePair_eq_some] at hpairs
    obtain ⟨⟨P₁, T₁⟩, _, ⟨hP₁, hT₁⟩, ⟨⟨P₂, T₂⟩, _, ⟨hP₂, hT₂⟩, ⟨⟨P₃, T₃⟩, _, ⟨hP₃, hT₃⟩,
      ⟨⟨P₄, T₄⟩, _, ⟨hP₄, hT₄⟩, rfl, rfl⟩, rfl⟩, rfl⟩, rfl⟩ := hpairs
    exact ⟨P₁, P₂, P₃, P₄, T₁, T₂, T₃, T₄, ⟨hP₁, hP₂, hP₃, hP₄⟩, ⟨hT₁, hT₂, hT₃, hT₄⟩, hcheck⟩
  · intro ⟨P₁, P₂, P₃, P₄, T₁, T₂, T₃, T₄, ⟨hP₁, hP₂, hP₃, hP₄⟩, ⟨hT₁, hT₂, hT₃, hT₄⟩, hcheck⟩
    refine ⟨_, .cons ?_ (.cons ?_ (.cons ?_ (.cons ?_ .nil))), hcheck⟩
    · exact decodePair_eq_some.mpr ⟨hP₁, hT₁⟩
    · exact decodePair_eq_some.mpr ⟨hP₂, hT₂⟩
    · exact decodePair_eq_some.mpr ⟨hP₃, hT₃⟩
    · exact decodePair_eq_some.mpr ⟨hP₄, hT₄⟩

/-! ## §4. What is accepted. -/

/-- The points of a key and a proof. -/
structure Points (B : Bn256) where
  a : B.G1
  b : B.G2
  c : B.G1
  alpha : B.G1
  beta : B.G2
  gamma : B.G2
  delta : B.G2
  ic0 : B.G1
  ic : List B.G1

/-- Everything but `a` decodes. -/
structure Decoded (B : Bn256) (vk : VerifyingKey) (proof : Proof) (points : Points B) : Prop where
  b : B.unmarshalTwist (g2Words proof.b) = some points.b
  c : B.unmarshal (g1Words proof.c) = some points.c
  alpha : B.unmarshal (g1Words vk.alpha) = some points.alpha
  beta : B.unmarshalTwist (g2Words vk.beta) = some points.beta
  gamma : B.unmarshalTwist (g2Words vk.gamma) = some points.gamma
  delta : B.unmarshalTwist (g2Words vk.delta) = some points.delta
  ic : Decode B vk.ic (points.ic0 :: points.ic)

/-- `e(-A, B) · e(α, β) · e(vk_x, γ) · e(C, δ) = 1`. -/
def Points.Holds (points : Points B) (publicInputs : List Nat) : Prop :=
  B.pairingCheck [(-points.a, points.b), (points.alpha, points.beta),
    (PairingGroup.linearCombination points.ic0 (points.ic.zip publicInputs), points.gamma),
    (points.c, points.delta)] = true

/-- When the equation holds. -/
theorem equation_eq_true {vk : VerifyingKey} {proof : Proof} {publicInputs : List Nat}
    (hlen : publicInputs.length + 1 = vk.ic.length) :
    equation B vk proof publicInputs = .ok true
      ↔ ∃ points : Points B, Decoded B vk proof points
        ∧ B.unmarshal (g1Words (negate proof.a)) = some (-points.a)
        ∧ points.Holds publicInputs := by
  unfold equation
  cases hic : vk.ic with
  | nil =>
    rw [hic] at hlen
    cases hlen
  | cons ic0 ic =>
    rw [hic] at hlen
    have hlen : ic.length = publicInputs.length := (Nat.succ.inj hlen).symm
    show (vkX B ic0 (ic.zip publicInputs) >>= _) = _ ↔ _
    rw [bind_eq_ok]
    constructor
    · intro ⟨vk_x, hvkx, hpairing⟩
      obtain ⟨A, alpha, V, C, T, beta, gamma, delta, ⟨hA, halpha, hV, hC⟩,
        ⟨hT, hbeta, hgamma, hdelta⟩, hcheck⟩ := pairing_eq_true.mp hpairing
      obtain ⟨P₀, points, hP₀, hpoints, rfl⟩ := (vkX_eq_iff ic hlen).mp ⟨vk_x, hvkx, hV⟩
      refine ⟨⟨-A, T, C, alpha, beta, gamma, delta, P₀, points⟩,
        ⟨hT, hC, halpha, hbeta, hgamma, hdelta, ?_⟩, ?_, ?_⟩
      · rw [hic]
        exact .cons hP₀ hpoints
      · rw [neg_neg]
        exact hA
      · unfold Points.Holds
        rw [neg_neg]
        exact hcheck
    · intro ⟨points, hdec, hA, hholds⟩
      have hicdec := hdec.ic
      rw [hic] at hicdec
      cases hicdec with
      | cons hP₀ hpoints =>
        obtain ⟨vk_x, hvkx, hV⟩ := (vkX_eq_iff ic hlen).mpr
          ⟨points.ic0, points.ic, hP₀, hpoints, rfl⟩
        refine ⟨vk_x, hvkx, pairing_eq_true.mpr ?_⟩
        exact ⟨_, _, _, _, _, _, _, _, ⟨hA, hdec.alpha, hV, hdec.c⟩,
          ⟨hdec.b, hdec.beta, hdec.gamma, hdec.delta⟩, hholds⟩

/-- **What the library accepts.** -/
theorem verify_accepts_iff {vk : VerifyingKey} {proof : Proof} {publicInputs : List Nat} :
    verify (equation B) vk proof publicInputs = .ok true
      ↔ publicInputs.length + 1 = vk.ic.length ∧ (∀ x ∈ publicInputs, x < SCALAR_MODULUS)
        ∧ ∃ points : Points B, Decoded B vk proof points
          ∧ B.unmarshal (g1Words (negate proof.a)) = some (-points.a)
          ∧ points.Holds publicInputs := by
  rw [verify_eq_true]
  constructor
  · intro ⟨hlen, hrange, h⟩
    exact ⟨hlen, hrange, (equation_eq_true hlen).mp h⟩
  · intro ⟨hlen, hrange, h⟩
    exact ⟨hlen, hrange, (equation_eq_true hlen).mpr h⟩

end HZKA.Verifier
