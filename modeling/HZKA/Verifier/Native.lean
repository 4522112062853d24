/-
  HZKA.Verifier.Native
  ────────────
  **THE NATIVE PRECOMPILE** (`core/vm/groth16_verify.go`): `groth16Verify.Run` on bytes.

  `Run` cuts its input into points and scalars, with a check of every length, and evaluates
  the same equation as the library.  It does not compare the scalars with the order of the
  group, and ignores the error of its last decoding, that of `-A`.

    • `negA_eq` — what is used as `-A` is `-A`, at infinity too;
    • `run_accepts_iff` — what `Run` accepts on packed data, in terms of the group.
-/
import HZKA.Lib.Bytes
import HZKA.Verifier.Library

namespace HZKA.Verifier

open HZKA.Lib HZKA.Groth16Verifier

/-! ## §1. `Run`. -/

/-- How `Run` fails. -/
inductive RunError
  | errBadGroth16Input
  | invalidPoint
  deriving DecidableEq

variable (B : Bn256)

/-- `newCurvePoint`, on 64 bytes. -/
def newCurvePoint (blob : List Byte) : Option B.G1 :=
  B.unmarshal (natBE (blob.take 32), natBE (blob.drop 32))

/-- `newTwistPoint`, on 128 bytes. -/
def newTwistPoint (blob : List Byte) : Option B.G2 :=
  B.unmarshalTwist
    ((natBE (blob.take 32), natBE ((blob.drop 32).take 32)),
      (natBE ((blob.drop 64).take 32), natBE (blob.drop 96)))

/-- `input[offset : offset+len]`. -/
def slice (input : List Byte) (offset len : Nat) : List Byte := (input.drop offset).take len

/-- A point that decodes. -/
def valid {α : Type} (result : Option α) : Except RunError α :=
  match result with
  | some a => .ok a
  | none => .error .invalidPoint

/-- Bad input if the condition holds. -/
def reject (c : Prop) [Decidable c] : Except RunError Unit :=
  if c then .error .errBadGroth16Input else .ok ()

/-- `(*big.Int).Int64`: the low 64 bits, signed. -/
def int64 (n : Nat) : Int := (BitVec.ofNat 64 n).toInt

/-- The loop over the points of the key. -/
def parseIC : Nat → List Byte → Option (List B.G1)
  | 0, _ => some []
  | k + 1, input => do
    let P ← newCurvePoint B (input.take 64)
    let rest ← parseIC k (input.drop 64)
    return P :: rest

/-- The loop over the public inputs. -/
def parseInputs : Nat → List Byte → List Nat
  | 0, _ => []
  | k + 1, input => natBE (input.take 32) :: parseInputs k (input.drop 32)

/-- `negA`: the ordinate is subtracted from the modulus and the result decoded.  Where that
fails, the error is ignored and the point stays what `new(bn256.G1)` is, infinity. -/
def negA (proofA : B.G1) : B.G1 :=
  (newCurvePoint B
    (packWords [(B.marshal proofA).1, FIELD_MODULUS - (B.marshal proofA).2])).getD 0

/-- `vkX`, which starts with a copy of `ic[0]`. -/
def nativeVkX (ic : List B.G1) (publicInputs : List Nat) : B.G1 :=
  let start := (B.unmarshal (B.marshal (ic.headD 0))).getD 0
  (ic.tail.zip publicInputs).foldl (fun vkX term => vkX + term.2 • term.1) start

/-- The word 1. -/
def true32Byte : List Byte := bytesBE 32 (1 : BitVec 256)

/-- The word 0. -/
def false32Byte : List Byte := bytesBE 32 (0 : BitVec 256)

/-- The precompile: parse, then the pairing equation. -/
def run (input : List Byte) : Except RunError (List Byte) := do
  reject (input.length < 800)
  let proofA ← valid (newCurvePoint B (slice input 0 64))
  let proofB ← valid (newTwistPoint B (slice input 64 128))
  let proofC ← valid (newCurvePoint B (slice input 192 64))
  let vkAlpha ← valid (newCurvePoint B (slice input 256 64))
  let vkBeta ← valid (newTwistPoint B (slice input 320 128))
  let vkGamma ← valid (newTwistPoint B (slice input 448 128))
  let vkDelta ← valid (newTwistPoint B (slice input 576 128))
  reject (704 + 32 > input.length)
  let numInputs := int64 (natBE (slice input 704 32))
  reject (numInputs < 0 ∨ numInputs > 100)
  let n := numInputs.toNat
  reject (736 + ((n + 1) * 64 + n * 32) ≠ input.length)
  let ic ← valid (parseIC B (n + 1) (input.drop 736))
  let publicInputs := parseInputs n (input.drop (736 + (n + 1) * 64))
  let vkX := nativeVkX B ic publicInputs
  if B.pairingCheck [(negA B proofA, proofB), (vkAlpha, vkBeta), (vkX, vkGamma),
      (proofC, vkDelta)] = true then
    return true32Byte
  return false32Byte

/-! ## §2. The packed encoding. -/

/-- A twist point in the precompile's order. -/
def g2WordList (p : G2Point) : List Nat := [p.x.2, p.x.1, p.y.2, p.y.1]

/-- The words of the input: proof, key, number of inputs, points, inputs. -/
def encodeWords (vk : VerifyingKey) (proof : Proof) (publicInputs : List Nat) : List Nat :=
  [proof.a.x, proof.a.y] ++ g2WordList proof.b ++ [proof.c.x, proof.c.y]
    ++ [vk.alpha.x, vk.alpha.y] ++ g2WordList vk.beta ++ g2WordList vk.gamma
    ++ g2WordList vk.delta ++ [publicInputs.length]
    ++ vk.ic.flatMap (fun p => [p.x, p.y]) ++ publicInputs

/-- The input the contract would build. -/
def encode (vk : VerifyingKey) (proof : Proof) (publicInputs : List Nat) : List Byte :=
  packWords (encodeWords vk proof publicInputs)

/-- All coordinates and inputs are 256-bit words. -/
def IsWords (vk : VerifyingKey) (proof : Proof) (publicInputs : List Nat) : Prop :=
  ∀ x ∈ encodeWords vk proof publicInputs, x < 2 ^ 256

/-! ## §3. Reading the encoding. -/

variable {B}

/-- A point is read as written. -/
theorem newCurvePoint_packWords {x y : Nat} (hx : x < 2 ^ 256) (hy : y < 2 ^ 256) :
    newCurvePoint B (packWords [x, y]) = B.unmarshal (x, y) := by
  have htake : (packWords [x, y]).take 32 = packWords [x] := take_packWords [x] [y] rfl
  have hdrop : (packWords [x, y]).drop 32 = packWords [y] := drop_packWords [x] [y] rfl
  unfold newCurvePoint
  rw [htake, hdrop, natBE_packWord hx, natBE_packWord hy]

/-- A twist point is read as written. -/
theorem newTwistPoint_packWords {x₁ x₀ y₁ y₀ : Nat} (hx₁ : x₁ < 2 ^ 256) (hx₀ : x₀ < 2 ^ 256)
    (hy₁ : y₁ < 2 ^ 256) (hy₀ : y₀ < 2 ^ 256) :
    newTwistPoint B (packWords [x₁, x₀, y₁, y₀]) = B.unmarshalTwist ((x₁, x₀), (y₁, y₀)) := by
  have h₁ : (packWords [x₁, x₀, y₁, y₀]).take 32 = packWords [x₁] :=
    take_packWords [x₁] [x₀, y₁, y₀] rfl
  have h₂ : ((packWords [x₁, x₀, y₁, y₀]).drop 32).take 32 = packWords [x₀] :=
    slice_packWords 1 1 rfl rfl (by simp) (by simp) rfl
  have h₃ : ((packWords [x₁, x₀, y₁, y₀]).drop 64).take 32 = packWords [y₁] :=
    slice_packWords 2 1 rfl rfl (by simp) (by simp) rfl
  have h₄ : (packWords [x₁, x₀, y₁, y₀]).drop 96 = packWords [y₀] :=
    drop_packWords [x₁, x₀, y₁] [y₀] rfl
  unfold newTwistPoint
  rw [h₁, h₂, h₃, h₄, natBE_packWord hx₁, natBE_packWord hx₀, natBE_packWord hy₁,
    natBE_packWord hy₀]

theorem valid_eq_ok {α : Type} {result : Option α} {a : α} :
    valid result = .ok a ↔ result = some a := by
  cases result with
  | none => simp [valid]
  | some b => simp [valid]

theorem reject_eq_ok {c : Prop} [Decidable c] {u : Unit} : reject c = .ok u ↔ ¬ c := by
  unfold reject
  split
  next h => simp [h]
  next h => simp [h]

/-- The points of the key. -/
theorem parseIC_eq_some (after : List Nat) (ic : List G1Point) :
    ∀ {points : List B.G1}, (∀ p ∈ ic, p.x < 2 ^ 256 ∧ p.y < 2 ^ 256) →
      (parseIC B ic.length (packWords (ic.flatMap (fun p => [p.x, p.y]) ++ after)) = some points
        ↔ Decode B ic points) := by
  induction ic with
  | nil =>
    intro points _
    show some [] = some points ↔ _
    unfold Decode
    rw [Option.some.injEq, List.forall₂_nil_left_iff, eq_comm]
  | cons p ic ih =>
    intro points hwords
    obtain ⟨hx, hy⟩ := hwords p List.mem_cons_self
    have hhead : (packWords (p.x :: p.y :: (ic.flatMap (fun p => [p.x, p.y]) ++ after))).take 64
        = packWords [p.x, p.y] := take_packWords [p.x, p.y] _ rfl
    have htail : (packWords (p.x :: p.y :: (ic.flatMap (fun p => [p.x, p.y]) ++ after))).drop 64
        = packWords (ic.flatMap (fun p => [p.x, p.y]) ++ after) :=
      drop_packWords [p.x, p.y] _ rfl
    show (parseIC B (ic.length + 1)
      (packWords (p.x :: p.y :: (ic.flatMap (fun p => [p.x, p.y]) ++ after)))) = some points ↔ _
    unfold parseIC Decode
    simp only [hhead, htail, newCurvePoint_packWords hx hy, Option.bind_eq_bind,
      Option.bind_eq_some_iff, Option.pure_def, Option.some.injEq, List.forall₂_cons_left_iff]
    constructor
    · intro ⟨P, hP, rest, hrest, h⟩
      exact ⟨P, rest, hP, (ih fun q hq => hwords q (List.mem_cons_of_mem _ hq)).mp hrest, h.symm⟩
    · intro ⟨P, rest, hP, hrest, h⟩
      exact ⟨P, hP, rest, (ih fun q hq => hwords q (List.mem_cons_of_mem _ hq)).mpr hrest, h.symm⟩

/-- The public inputs. -/
theorem parseInputs_packWords (publicInputs : List Nat) (h : ∀ x ∈ publicInputs, x < 2 ^ 256) :
    parseInputs publicInputs.length (packWords publicInputs) = publicInputs := by
  induction publicInputs with
  | nil => rfl
  | cons x publicInputs ih =>
    have htake : (packWords (x :: publicInputs)).take 32 = packWords [x] :=
      take_packWords [x] publicInputs rfl
    have hdrop : (packWords (x :: publicInputs)).drop 32 = packWords publicInputs :=
      drop_packWords [x] publicInputs rfl
    show natBE _ :: parseInputs publicInputs.length _ = _
    rw [htake, hdrop, natBE_packWord (h x List.mem_cons_self),
      ih fun y hy => h y (List.mem_cons_of_mem _ hy)]

/-! ## §4. The points of the encoding. -/

section Encoding

variable {vk : VerifyingKey} {proof : Proof} {publicInputs : List Nat}

theorem length_icWords (ic : List G1Point) :
    (ic.flatMap fun p => [p.x, p.y]).length = 2 * ic.length := by
  induction ic with
  | nil => rfl
  | cons p ic ih =>
    rw [List.flatMap_cons, List.length_append, ih, List.length_cons]
    simp only [List.length_cons, List.length_nil]
    omega

/-- The length in words. -/
theorem length_encodeWords (vk : VerifyingKey) (proof : Proof) (publicInputs : List Nat) :
    (encodeWords vk proof publicInputs).length = 23 + 2 * vk.ic.length + publicInputs.length := by
  unfold encodeWords g2WordList
  simp only [List.length_append, length_icWords, List.length_cons, List.length_nil]

/-- A cut through the head of the encoding. -/
theorem slice_encode {vs : List Nat} (i k : Nat) {offset len : Nat} (hoffset : offset = 32 * i)
    (hlen : len = 32 * k) (hhead : i + k ≤ 23)
    (h : ((encodeWords vk proof publicInputs).drop i).take k = vs) :
    slice (encode vk proof publicInputs) offset len = packWords vs := by
  have htotal := length_encodeWords vk proof publicInputs
  refine slice_packWords i k hoffset hlen (by omega) ?_ h
  rw [List.length_drop]
  omega

theorem mem_encodeWords {x : Nat} (hwords : IsWords vk proof publicInputs) (i k : Nat)
    (h : x ∈ ((encodeWords vk proof publicInputs).drop i).take k) : x < 2 ^ 256 :=
  hwords x (List.mem_of_mem_drop (List.mem_of_mem_take h))

/-- A curve point in the head. -/
theorem curvePoint_encode (hwords : IsWords vk proof publicInputs) (i : Nat) {p : G1Point}
    {offset : Nat} (hoffset : offset = 32 * i) (hhead : i + 2 ≤ 23)
    (h : ((encodeWords vk proof publicInputs).drop i).take 2 = [p.x, p.y]) :
    newCurvePoint B (slice (encode vk proof publicInputs) offset 64) = B.unmarshal (g1Words p) := by
  have hmem := fun x => @mem_encodeWords vk proof publicInputs x hwords i 2
  rw [h] at hmem
  rw [slice_encode i 2 hoffset rfl hhead h]
  exact newCurvePoint_packWords (hmem _ (by simp)) (hmem _ (by simp))

/-- A twist point in the head. -/
theorem twistPoint_encode (hwords : IsWords vk proof publicInputs) (i : Nat) {p : G2Point}
    {offset : Nat} (hoffset : offset = 32 * i) (hhead : i + 4 ≤ 23)
    (h : ((encodeWords vk proof publicInputs).drop i).take 4 = g2WordList p) :
    newTwistPoint B (slice (encode vk proof publicInputs) offset 128)
      = B.unmarshalTwist (g2Words p) := by
  have hmem := fun x => @mem_encodeWords vk proof publicInputs x hwords i 4
  rw [h] at hmem
  rw [slice_encode i 4 hoffset rfl hhead h]
  unfold g2WordList at hmem ⊢
  exact newTwistPoint_packWords (hmem _ (by simp)) (hmem _ (by simp)) (hmem _ (by simp))
    (hmem _ (by simp))

theorem int64_of_le {n : Nat} (h : n ≤ 100) : int64 n = n := by
  unfold int64
  rw [BitVec.toInt_ofNat', Int.bmod_def]
  omega

/-- The count is read as written. -/
theorem numInputs_encode (hlen : publicInputs.length ≤ 100) :
    int64 (natBE (slice (encode vk proof publicInputs) 704 32)) = publicInputs.length := by
  have hslice : slice (encode vk proof publicInputs) 704 32 = packWords [publicInputs.length] :=
    slice_encode 22 1 rfl rfl (by omega) rfl
  have hword : publicInputs.length < 2 ^ 256 := by omega
  rw [hslice, natBE_packWord hword, int64_of_le hlen]

/-- What follows the head. -/
theorem drop_encode (vk : VerifyingKey) (proof : Proof) (publicInputs : List Nat) :
    (encode vk proof publicInputs).drop 736
      = packWords (vk.ic.flatMap (fun p => [p.x, p.y]) ++ publicInputs) := by
  unfold encode encodeWords
  rw [List.append_assoc]
  exact drop_packWords _ _ rfl

/-- The points are read as written. -/
theorem parseIC_encode (hwords : IsWords vk proof publicInputs) {points : List B.G1} :
    parseIC B vk.ic.length (packWords (vk.ic.flatMap (fun p => [p.x, p.y]) ++ publicInputs))
      = some points ↔ Decode B vk.ic points := by
  refine parseIC_eq_some publicInputs vk.ic ?_
  intro p hp
  have hmem : ∀ x ∈ [p.x, p.y], x < 2 ^ 256 := by
    intro x hx
    refine hwords x (List.mem_append_left _ (List.mem_append_right _ ?_))
    exact List.mem_flatMap.mpr ⟨p, hp, hx⟩
  exact ⟨hmem _ (by simp), hmem _ (by simp)⟩

/-- The words are read as written. -/
theorem inputs_encode (hwords : IsWords vk proof publicInputs)
    (hcount : publicInputs.length + 1 = vk.ic.length) :
    parseInputs publicInputs.length
      ((encode vk proof publicInputs).drop (736 + (publicInputs.length + 1) * 64))
      = publicInputs := by
  have hdrop : (encode vk proof publicInputs).drop (736 + (publicInputs.length + 1) * 64)
      = packWords publicInputs := by
    rw [← List.drop_drop, drop_encode]
    refine drop_packWords _ _ ?_
    rw [length_icWords, ← hcount]
    omega
  rw [hdrop]
  exact parseInputs_packWords _ fun x hx => hwords x (List.mem_append_right _ hx)

end Encoding

/-! ## §5. What is accepted. -/

theorem fieldModulus_lt : FIELD_MODULUS < 2 ^ 256 := by
  unfold FIELD_MODULUS
  norm_num

/-- **The ignored error does no harm.**  It occurs at infinity only. -/
theorem negA_eq (P : B.G1) : negA B P = -P := by
  obtain ⟨hx, hy⟩ := B.marshal_lt P
  have hlt := fieldModulus_lt
  unfold negA
  rw [newCurvePoint_packWords (by omega) (by omega)]
  by_cases hP : P = 0
  · -- the ordinate of infinity becomes the modulus itself
    have hnone : B.unmarshal (0, FIELD_MODULUS) = none := by
      cases h : B.unmarshal (0, FIELD_MODULUS) with
      | none => rfl
      | some Q => exact absurd (PairingGroup.unmarshal_lt h).2 (Nat.lt_irrefl _)
    rw [hP, B.marshal_zero, Nat.sub_zero, hnone, neg_zero]
    rfl
  · rw [← (B.marshal_neg P hP).2, B.unmarshal_marshal]
    rfl

theorem nativeVkX_eq (P₀ : B.G1) (points : List B.G1) (publicInputs : List Nat) :
    nativeVkX B (P₀ :: points) publicInputs
      = PairingGroup.linearCombination P₀ (points.zip publicInputs) := by
  unfold nativeVkX
  dsimp only [List.headD_cons, List.tail_cons]
  rw [B.unmarshal_marshal]
  rfl

/-- The last statement of `Run`. -/
theorem result_accepts {c : Prop} [Decidable c] :
    (if c then pure true32Byte else pure false32Byte : Except RunError (List Byte))
      = .ok true32Byte ↔ c := by
  have hne : false32Byte ≠ true32Byte := by decide
  split
  case isTrue h => exact iff_of_true rfl h
  case isFalse h => exact iff_of_false (fun hsame => hne (pure_eq_ok.mp hsame)) h

/-- **What `Run` accepts**, on at most 100 inputs. -/
theorem run_accepts_iff {vk : VerifyingKey} {proof : Proof} {publicInputs : List Nat}
    (hwords : IsWords vk proof publicInputs) (hlen : publicInputs.length ≤ 100) :
    run B (encode vk proof publicInputs) = .ok true32Byte
      ↔ publicInputs.length + 1 = vk.ic.length
        ∧ ∃ points : Points B, Decoded B vk proof points
          ∧ B.unmarshal (g1Words proof.a) = some points.a
          ∧ points.Holds publicInputs := by
  have htotal : (encode vk proof publicInputs).length
      = 32 * (23 + 2 * vk.ic.length + publicInputs.length) := by
    unfold encode
    rw [length_packWords, length_encodeWords]
  have ha := @curvePoint_encode B _ _ _ hwords 0 proof.a 0 rfl (by omega) rfl
  have hb := @twistPoint_encode B _ _ _ hwords 2 proof.b 64 rfl (by omega) rfl
  have hc := @curvePoint_encode B _ _ _ hwords 6 proof.c 192 rfl (by omega) rfl
  have halpha := @curvePoint_encode B _ _ _ hwords 8 vk.alpha 256 rfl (by omega) rfl
  have hbeta := @twistPoint_encode B _ _ _ hwords 10 vk.beta 320 rfl (by omega) rfl
  have hgamma := @twistPoint_encode B _ _ _ hwords 14 vk.gamma 448 rfl (by omega) rfl
  have hdelta := @twistPoint_encode B _ _ _ hwords 18 vk.delta 576 rfl (by omega) rfl
  unfold run
  simp only [ha, hb, hc, halpha, hbeta, hgamma, hdelta, numInputs_encode hlen, htotal, drop_encode,
    Int.toNat_natCast, bind_eq_ok, valid_eq_ok, reject_eq_ok]
  constructor
  · intro ⟨_, _, A, hA, T, hT, C, hC, alpha, hal, beta, hbe, gamma, hga, delta, hde, _, _, _, _, _,
      hexact, ic, hic, hresult⟩
    have hcount : publicInputs.length + 1 = vk.ic.length := by omega
    rw [hcount, parseIC_encode hwords] at hic
    rw [inputs_encode hwords hcount, result_accepts] at hresult
    refine ⟨hcount, ?_⟩
    obtain ⟨ic0, rest, rfl⟩ : ∃ ic0 rest, ic = ic0 :: rest := by
      cases ic with
      | nil =>
        have hnil := hic.length_eq
        rw [← hcount] at hnil
        cases hnil
      | cons ic0 rest => exact ⟨ic0, rest, rfl⟩
    refine ⟨⟨A, T, C, alpha, beta, gamma, delta, ic0, rest⟩, ⟨hT, hC, hal, hbe, hga, hde, hic⟩, hA, ?_⟩
    rw [negA_eq, nativeVkX_eq] at hresult
    exact hresult
  · intro ⟨hcount, points, hdec, hA, hholds⟩
    refine ⟨(), by omega, points.a, hA, points.b, hdec.b, points.c, hdec.c, points.alpha, hdec.alpha,
      points.beta, hdec.beta, points.gamma, hdec.gamma, points.delta, hdec.delta, (), by omega, (),
      by omega, (), by omega, points.ic0 :: points.ic, ?_, ?_⟩
    · rw [hcount, parseIC_encode hwords]
      exact hdec.ic
    · rw [inputs_encode hwords hcount, result_accepts, negA_eq, nativeVkX_eq]
      exact hholds

end HZKA.Verifier
