/-
  HZKA.Verifier.Grammar
  ────────────
  **THE INPUT LANGUAGE OF THE PRECOMPILE** (`core/vm/groth16_verify.go`): which byte strings
  `groth16Verify.Run` takes to its pairing check.

  `parse` is the first half of `Run` with every slice checked, as Go checks it: beyond the end
  of the input it panics.  The count of public inputs is a 256-bit word of which `Int64` keeps
  64 bits before it is compared with 100.

    • `checkedRun_eq` — `Run` is `parse` followed by the pairing check, and no slice panics;
    • `proceeds_iff`  — the accepted language, for all strings: the count is read modulo `2^64`;
    • `input_grammar_iff` — it is the documented grammar EXACTLY on the inputs whose count is
      below `2^64` or which are not well formed for its low 64 bits either.
-/
import HZKA.Verifier.Agreement

namespace HZKA.Verifier

open HZKA.Lib HZKA.Groth16Verifier

/-! ## §1. Parsing with checked slices. -/

/-- What stops `Run` short of the pairing check. -/
inductive Stop
  | panic
  | returned (e : RunError)
  deriving DecidableEq

/-- An error of the precompile as a stop. -/
def returned {α : Type} : Except RunError α → Except Stop α
  | .ok a => .ok a
  | .error e => .error (.returned e)

/-- `input[offset : offset+len]`, out of range beyond the end. -/
def sliceAt (input : List Byte) (offset len : Nat) : Except Stop (List Byte) :=
  if offset + len ≤ input.length then .ok (slice input offset len) else .error .panic

variable (B : Bn256)

/-- The curve point at an offset. -/
def curveAt (input : List Byte) (offset : Nat) : Except Stop B.G1 := do
  let blob ← sliceAt input offset 64
  returned (valid (newCurvePoint B blob))

/-- The twist point at an offset. -/
def twistAt (input : List Byte) (offset : Nat) : Except Stop B.G2 := do
  let blob ← sliceAt input offset 128
  returned (valid (newTwistPoint B blob))

/-- The loop over the points of the key. -/
def icAt (input : List Byte) : Nat → Nat → Except Stop (List B.G1)
  | 0, _ => return []
  | k + 1, offset => do
    let P ← curveAt B input offset
    let rest ← icAt input k (offset + 64)
    return P :: rest

/-- The loop over the public inputs. -/
def inputsAt (input : List Byte) : Nat → Nat → Except Stop (List Nat)
  | 0, _ => return []
  | k + 1, offset => do
    let word ← sliceAt input offset 32
    let rest ← inputsAt input k (offset + 32)
    return natBE word :: rest

/-- What the pairing check is made of. -/
structure Parsed where
  proofA : B.G1
  proofB : B.G2
  proofC : B.G1
  vkAlpha : B.G1
  vkBeta : B.G2
  vkGamma : B.G2
  vkDelta : B.G2
  ic : List B.G1
  publicInputs : List Nat

/-- `Run` up to the pairing check. -/
def parse (input : List Byte) : Except Stop (Parsed B) := do
  returned (reject (input.length < 800))
  let proofA ← curveAt B input 0
  let proofB ← twistAt B input 64
  let proofC ← curveAt B input 192
  let vkAlpha ← curveAt B input 256
  let vkBeta ← twistAt B input 320
  let vkGamma ← twistAt B input 448
  let vkDelta ← twistAt B input 576
  returned (reject (704 + 32 > input.length))
  let word ← sliceAt input 704 32
  let numInputs := int64 (natBE word)
  returned (reject (numInputs < 0 ∨ numInputs > 100))
  let n := numInputs.toNat
  returned (reject (736 + ((n + 1) * 64 + n * 32) ≠ input.length))
  let ic ← icAt B input (n + 1) 736
  let publicInputs ← inputsAt input n (736 + (n + 1) * 64)
  return ⟨proofA, proofB, proofC, vkAlpha, vkBeta, vkGamma, vkDelta, ic, publicInputs⟩

/-- The pairing check. -/
def pairingResult (p : Parsed B) : List Byte :=
  if B.pairingCheck [(negA B p.proofA, p.proofB), (p.vkAlpha, p.vkBeta),
      (nativeVkX B p.ic p.publicInputs, p.vkGamma), (p.proofC, p.vkDelta)] = true then
    true32Byte
  else
    false32Byte

/-- `Run` with every slice checked. -/
def checkedRun (input : List Byte) : Except Stop (List Byte) := do
  let p ← parse B input
  return pairingResult B p

/-! ## §2. No slice is out of range. -/

variable {B}

theorem returned_bind {α β : Type} (x : Except RunError α) (f : α → Except RunError β) :
    returned (x >>= f) = returned x >>= fun a => returned (f a) := by
  cases x with
  | ok a => rfl
  | error e => rfl

theorem returned_ite {α : Type} {c : Prop} [Decidable c] (a b : α) :
    returned (if c then pure a else pure b) = .ok (if c then a else b) := by
  split
  case isTrue => rfl
  case isFalse => rfl

theorem returned_ne_panic {α : Type} (x : Except RunError α) : returned x ≠ .error .panic := by
  cases x with
  | ok a => exact nofun
  | error e => exact nofun

theorem sliceAt_of_le {input : List Byte} {offset len : Nat} (h : offset + len ≤ input.length) :
    sliceAt input offset len = .ok (slice input offset len) := if_pos h

theorem curveAt_of_le {input : List Byte} {offset : Nat} (h : offset + 64 ≤ input.length) :
    curveAt B input offset = returned (valid (newCurvePoint B (slice input offset 64))) := by
  unfold curveAt
  rw [sliceAt_of_le h]
  rfl

theorem twistAt_of_le {input : List Byte} {offset : Nat} (h : offset + 128 ≤ input.length) :
    twistAt B input offset = returned (valid (newTwistPoint B (slice input offset 128))) := by
  unfold twistAt
  rw [sliceAt_of_le h]
  rfl

/-- The points, if the input is long enough. -/
theorem icAt_of_le {input : List Byte} : ∀ {k offset : Nat}, offset + k * 64 ≤ input.length →
    icAt B input k offset = returned (valid (parseIC B k (input.drop offset))) := by
  intro k
  induction k with
  | zero => exact fun _ => rfl
  | succ k ih =>
    intro offset h
    have hhead : offset + 64 ≤ input.length := by omega
    have hrest : offset + 64 + k * 64 ≤ input.length := by omega
    rw [icAt, curveAt_of_le hhead, ih hrest, parseIC, List.drop_drop]
    show (returned (valid (newCurvePoint B ((input.drop offset).take 64))) >>= _) = _
    cases newCurvePoint B ((input.drop offset).take 64) with
    | none => rfl
    | some P =>
      cases parseIC B k (input.drop (offset + 64)) with
      | none => rfl
      | some rest => rfl

/-- The words, if the input is long enough. -/
theorem inputsAt_of_le {input : List Byte} : ∀ {k offset : Nat}, offset + k * 32 ≤ input.length →
    inputsAt input k offset = .ok (parseInputs k (input.drop offset)) := by
  intro k
  induction k with
  | zero => exact fun _ => rfl
  | succ k ih =>
    intro offset h
    have hhead : offset + 32 ≤ input.length := by omega
    have hrest : offset + 32 + k * 32 ≤ input.length := by omega
    rw [inputsAt, sliceAt_of_le hhead, ih hrest, parseInputs, List.drop_drop]
    rfl

/-- A check that fails on both sides stops both; otherwise it is passed. -/
theorem reject_bind_congr {α : Type} {c : Prop} [Decidable c] {f g : Unit → Except Stop α}
    (h : ¬ c → f () = g ()) :
    (returned (reject c) >>= f) = (returned (reject c) >>= g) := by
  unfold reject
  split
  case isTrue => rfl
  case isFalse hc => exact h hc

/-- **`Run` is `parse` and the pairing check**, for every input; so no slice panics. -/
theorem checkedRun_eq (input : List Byte) : checkedRun B input = returned (run B input) := by
  unfold checkedRun parse run
  simp only [bind_assoc, returned_bind, pure_bind]
  refine reject_bind_congr fun hlen => ?_
  -- the head lies within the 800 bytes there are at least
  rw [curveAt_of_le (by omega), twistAt_of_le (by omega), curveAt_of_le (by omega),
    curveAt_of_le (by omega), twistAt_of_le (by omega), twistAt_of_le (by omega),
    twistAt_of_le (by omega), sliceAt_of_le (by omega)]
  refine bind_congr fun proofA => bind_congr fun proofB => bind_congr fun proofC =>
    bind_congr fun vkAlpha => bind_congr fun vkBeta => bind_congr fun vkGamma =>
    bind_congr fun vkDelta => ?_
  refine reject_bind_congr fun _ => ?_
  show (returned (reject _) >>= _) = _
  refine reject_bind_congr fun _ => ?_
  refine reject_bind_congr fun htotal => ?_
  -- and the rest is what the count says
  rw [icAt_of_le (by omega), inputsAt_of_le (by omega)]
  refine bind_congr fun ic => ?_
  rw [returned_ite]
  rfl

/-- The parser never panics. -/
theorem parse_ne_panic (input : List Byte) : parse B input ≠ .error .panic := by
  intro hpanic
  apply returned_ne_panic (run B input)
  rw [← checkedRun_eq]
  unfold checkedRun
  rw [hpanic]
  rfl

/-! ## §3. The accepted language. -/

/-- The word that counts the public inputs. -/
def countWord (input : List Byte) : Nat := natBE (slice input 704 32)

/-- Where the curve points are, for `n` public inputs. -/
def curveOffsets (n : Nat) : List Nat :=
  [0, 192, 256] ++ (List.range (n + 1)).map fun i => 736 + i * 64

/-- Where the twist points stand. -/
def twistOffsets : List Nat := [64, 320, 448, 576]

variable (B) in
/-- The head of 736 bytes is followed by exactly the points and scalars of `n` public inputs,
and all points decode. -/
structure WellFormed (input : List Byte) (n : Nat) : Prop where
  length : input.length = 736 + (64 * (n + 1) + 32 * n)
  curve : ∀ offset ∈ curveOffsets n, (newCurvePoint B (slice input offset 64)).isSome
  twist : ∀ offset ∈ twistOffsets, (newTwistPoint B (slice input offset 128)).isSome

/-- The count that passes, in 64 bits. -/
theorem int64_toNat {n : Nat} (h : ¬ (int64 n < 0 ∨ int64 n > 100)) :
    (int64 n).toNat = n % 2 ^ 64 ∧ n % 2 ^ 64 ≤ 100 := by
  unfold int64 at h ⊢
  rw [BitVec.toInt_ofNat', Int.bmod_def] at h ⊢
  omega

theorem int64_of_mod_le {n : Nat} (h : n % 2 ^ 64 ≤ 100) :
    ¬ (int64 n < 0 ∨ int64 n > 100) := by
  unfold int64
  rw [BitVec.toInt_ofNat', Int.bmod_def]
  omega

theorem returned_eq_ok {α : Type} {x : Except RunError α} {a : α} :
    returned x = .ok a ↔ x = .ok a := by
  cases x with
  | error e => exact ⟨nofun, nofun⟩
  | ok b => exact ⟨fun h => congrArg Except.ok (Except.ok.inj h),
      fun h => congrArg Except.ok (Except.ok.inj h)⟩

theorem sliceAt_eq_ok {input blob : List Byte} {offset len : Nat} :
    sliceAt input offset len = .ok blob
      ↔ offset + len ≤ input.length ∧ slice input offset len = blob := by
  unfold sliceAt
  split
  case isTrue h => exact ⟨fun heq => ⟨h, Except.ok.inj heq⟩, fun heq => congrArg Except.ok heq.2⟩
  case isFalse h => exact ⟨nofun, fun heq => absurd heq.1 h⟩

theorem slice_drop (input : List Byte) (offset i len : Nat) :
    slice (input.drop offset) i len = slice input (offset + i) len := by
  unfold slice
  rw [List.drop_drop]

/-- All points of the key decode iff each does. -/
theorem parseIC_isSome : ∀ {k : Nat} {input : List Byte}, (parseIC B k input).isSome
    ↔ ∀ i < k, (newCurvePoint B (slice input (i * 64) 64)).isSome := by
  intro k
  induction k with
  | zero => exact fun {_} => ⟨fun _ i hi => absurd hi (Nat.not_lt_zero i), fun _ => rfl⟩
  | succ k ih =>
    intro input
    -- the points after the first are those of the rest, 64 bytes on
    have hshift : ∀ i, slice (input.drop 64) (i * 64) 64 = slice input ((i + 1) * 64) 64 := by
      intro i
      rw [slice_drop, show 64 + i * 64 = (i + 1) * 64 by omega]
    have hrest : (parseIC B k (input.drop 64)).isSome
        ↔ ∀ i < k, (newCurvePoint B (slice input ((i + 1) * 64) 64)).isSome := by
      rw [ih]
      simp only [hshift]
    have hcons : (parseIC B (k + 1) input).isSome
        ↔ (newCurvePoint B (input.take 64)).isSome ∧ (parseIC B k (input.drop 64)).isSome := by
      rw [parseIC]
      cases newCurvePoint B (input.take 64) with
      | none => simp
      | some P =>
        cases parseIC B k (input.drop 64) with
        | none => simp
        | some rest => simp
    rw [hcons, hrest]
    constructor
    · rintro ⟨hfirst, hothers⟩ i hi
      cases i with
      | zero => exact hfirst
      | succ i => exact hothers i (by omega)
    · intro hall
      exact ⟨hall 0 (by omega), fun i hi => hall (i + 1) (by omega)⟩

/-- What went on to the pairing check is well formed. -/
theorem wellFormed_of_parse {input : List Byte} {p : Parsed B} (hp : parse B input = .ok p) :
    countWord input % 2 ^ 64 ≤ 100 ∧ WellFormed B input (countWord input % 2 ^ 64) := by
  unfold parse at hp
  simp only [curveAt, twistAt, bind_assoc, bind_eq_ok, returned_eq_ok, reject_eq_ok,
    sliceAt_eq_ok, valid_eq_ok] at hp
  obtain ⟨_, hlen, _, ⟨_, rfl⟩, A, hA, _, ⟨_, rfl⟩, T, hT, _, ⟨_, rfl⟩, C, hC, _, ⟨_, rfl⟩,
    alpha, halpha, _, ⟨_, rfl⟩, beta, hbeta, _, ⟨_, rfl⟩, gamma, hgamma, _, ⟨_, rfl⟩, delta,
    hdelta, _, _, word, ⟨_, rfl⟩, _, hcount, _, htotal, ic, hic, _, _, _⟩ := hp
  obtain ⟨hn, hle⟩ := int64_toNat hcount
  rw [hn] at htotal hic
  -- the length test was passed, so the key's points are within the input
  rw [icAt_of_le (by omega), returned_eq_ok, valid_eq_ok] at hic
  have hsome : (parseIC B (countWord input % 2 ^ 64 + 1) (input.drop 736)).isSome :=
    Option.isSome_iff_exists.mpr ⟨ic, hic⟩
  refine ⟨hle, ⟨?_, ?_, ?_⟩⟩
  · show input.length = 736 + (64 * (natBE (slice input 704 32) % 2 ^ 64 + 1)
      + 32 * (natBE (slice input 704 32) % 2 ^ 64))
    omega
  · intro offset hoffset
    unfold curveOffsets at hoffset
    simp only [List.mem_append, List.mem_cons, List.not_mem_nil, or_false, List.mem_map,
      List.mem_range] at hoffset
    rcases hoffset with (rfl | rfl | rfl) | ⟨i, hi, rfl⟩
    · exact Option.isSome_iff_exists.mpr ⟨A, hA⟩
    · exact Option.isSome_iff_exists.mpr ⟨C, hC⟩
    · exact Option.isSome_iff_exists.mpr ⟨alpha, halpha⟩
    · rw [← slice_drop]
      exact parseIC_isSome.mp hsome i hi
  · intro offset hoffset
    unfold twistOffsets at hoffset
    simp only [List.mem_cons, List.not_mem_nil, or_false] at hoffset
    rcases hoffset with rfl | rfl | rfl | rfl
    · exact Option.isSome_iff_exists.mpr ⟨T, hT⟩
    · exact Option.isSome_iff_exists.mpr ⟨beta, hbeta⟩
    · exact Option.isSome_iff_exists.mpr ⟨gamma, hgamma⟩
    · exact Option.isSome_iff_exists.mpr ⟨delta, hdelta⟩

/-- What is well formed goes on to the pairing check. -/
theorem parse_of_wellFormed {input : List Byte} (hle : countWord input % 2 ^ 64 ≤ 100)
    (hinput : WellFormed B input (countWord input % 2 ^ 64)) : ∃ p, parse B input = .ok p := by
  obtain ⟨hlen, hcurve, htwist⟩ := hinput
  have hcount := int64_of_mod_le hle
  obtain ⟨hn, _⟩ := int64_toNat hcount
  have hmem : ∀ offset ∈ [0, 192, 256], offset ∈ curveOffsets (countWord input % 2 ^ 64) :=
    fun offset h => List.mem_append_left _ h
  have hkey : ∀ i < countWord input % 2 ^ 64 + 1,
      (newCurvePoint B (slice (input.drop 736) (i * 64) 64)).isSome := by
    intro i hi
    rw [slice_drop]
    exact hcurve _ (List.mem_append_right _ (List.mem_map.mpr ⟨i, List.mem_range.mpr hi, rfl⟩))
  obtain ⟨A, hA⟩ := Option.isSome_iff_exists.mp (hcurve 0 (hmem 0 (by simp)))
  obtain ⟨C, hC⟩ := Option.isSome_iff_exists.mp (hcurve 192 (hmem 192 (by simp)))
  obtain ⟨alpha, halpha⟩ := Option.isSome_iff_exists.mp (hcurve 256 (hmem 256 (by simp)))
  obtain ⟨T, hT⟩ := Option.isSome_iff_exists.mp (htwist 64 (by simp [twistOffsets]))
  obtain ⟨beta, hbeta⟩ := Option.isSome_iff_exists.mp (htwist 320 (by simp [twistOffsets]))
  obtain ⟨gamma, hgamma⟩ := Option.isSome_iff_exists.mp (htwist 448 (by simp [twistOffsets]))
  obtain ⟨delta, hdelta⟩ := Option.isSome_iff_exists.mp (htwist 576 (by simp [twistOffsets]))
  obtain ⟨ic, hic⟩ := Option.isSome_iff_exists.mp (parseIC_isSome.mpr hkey)
  -- every slice is in bounds, so the checked reads are plain ones
  refine ⟨⟨A, T, C, alpha, beta, gamma, delta, ic, parseInputs (countWord input % 2 ^ 64)
    (input.drop (736 + (countWord input % 2 ^ 64 + 1) * 64))⟩, ?_⟩
  unfold parse
  rw [curveAt_of_le (by omega), twistAt_of_le (by omega), curveAt_of_le (by omega),
    curveAt_of_le (by omega), twistAt_of_le (by omega), twistAt_of_le (by omega),
    twistAt_of_le (by omega), sliceAt_of_le (by omega)]
  simp only [bind_eq_ok, returned_eq_ok, reject_eq_ok, valid_eq_ok, pure_eq_ok]
  refine ⟨(), by omega, A, hA, T, hT, C, hC, alpha, halpha, beta, hbeta, gamma, hgamma, delta,
    hdelta, (), by omega, _, rfl, (), hcount, (), ?_, ic, ?_, _, ?_, rfl⟩
  · show ¬ (736 + (((int64 (countWord input)).toNat + 1) * 64
      + (int64 (countWord input)).toNat * 32) ≠ input.length)
    rw [hn]
    omega
  · show icAt B input ((int64 (countWord input)).toNat + 1) 736 = .ok ic
    rw [hn, icAt_of_le (by omega), hic]
    rfl
  · show inputsAt input (int64 (countWord input)).toNat
      (736 + ((int64 (countWord input)).toNat + 1) * 64) = _
    rw [hn, inputsAt_of_le (by omega)]

/-- **The accepted language.** -/
theorem proceeds_iff (input : List Byte) : (∃ p, parse B input = .ok p)
    ↔ countWord input % 2 ^ 64 ≤ 100 ∧ WellFormed B input (countWord input % 2 ^ 64) := by
  constructor
  · rintro ⟨p, hp⟩
    exact wellFormed_of_parse hp
  · rintro ⟨hle, hinput⟩
    exact parse_of_wellFormed hle hinput

/-! ## §4. The documented grammar. -/

variable (B) in
/-- The documented grammar: the count word itself is at most 100 and the rest is as it says. -/
def Documented (input : List Byte) : Prop :=
  countWord input ≤ 100 ∧ WellFormed B input (countWord input)

/-- What does not go on to the pairing check ends in an error. -/
theorem run_of_not_parsed {input : List Byte} (h : ¬ ∃ p, parse B input = .ok p) :
    ∃ e, run B input = .error e := by
  have hrun := checkedRun_eq (B := B) input
  unfold checkedRun at hrun
  cases hparse : parse B input with
  | ok p => exact absurd ⟨p, hparse⟩ h
  | error stop =>
    rw [hparse] at hrun
    cases hresult : run B input with
    | ok bytes =>
      rw [hresult] at hrun
      cases hrun
    | error e => exact ⟨e, rfl⟩

/-- A parsed input gets a verdict. -/
theorem run_of_parsed {input : List Byte} {p : Parsed B} (h : parse B input = .ok p) :
    run B input = .ok (pairingResult B p) := by
  have hrun := checkedRun_eq (B := B) input
  unfold checkedRun at hrun
  rw [h] at hrun
  exact returned_eq_ok.mp hrun.symm

/-- Counts below `2^64`: the input language is the documented one. -/
theorem proceeds_iff_documented {input : List Byte} (hcount : countWord input < 2 ^ 64) :
    (∃ p, parse B input = .ok p) ↔ Documented B input := by
  rw [proceeds_iff, Nat.mod_eq_of_lt hcount]
  rfl

/-- **When the input language is the documented one.**  Nothing panics, and what does not go on
to the pairing check ends in an error.  `Run` and the grammar part on the inputs whose count
word is `2^64` or more and which are well formed for its low 64 bits, and on no others. -/
theorem input_grammar_iff (B : Bn256) (input : List Byte) :
    parse B input ≠ .error .panic
      ∧ (∀ p, parse B input = .ok p → run B input = .ok (pairingResult B p))
      ∧ ((¬ ∃ p, parse B input = .ok p) → ∃ e, run B input = .error e)
      ∧ (((∃ p, parse B input = .ok p) ↔ Documented B input)
          ↔ countWord input < 2 ^ 64
            ∨ ¬ (countWord input % 2 ^ 64 ≤ 100
              ∧ WellFormed B input (countWord input % 2 ^ 64))) := by
  refine ⟨parse_ne_panic input, fun _ => run_of_parsed, run_of_not_parsed, ?_⟩
  constructor
  · intro hiff
    by_cases hcount : countWord input < 2 ^ 64
    · exact .inl hcount
    · -- the grammar rejects a count this large, so `Run` has to
      refine .inr fun hwell => ?_
      have hle := (hiff.mp ((proceeds_iff input).mpr hwell)).1
      omega
  · rintro (hcount | hbad)
    · exact proceeds_iff_documented hcount
    · have hstops : ¬ ∃ p, parse B input = .ok p := fun h => hbad ((proceeds_iff input).mp h)
      refine ⟨fun h => absurd h hstops, fun hdoc => ?_⟩
      have hlt : countWord input < 2 ^ 64 := by
        have hle := hdoc.1
        omega
      exact (proceeds_iff_documented hlt).mpr hdoc

/-- All points at infinity, a count, and nothing else. -/
def infinities (count : Nat) : List Byte := packWords (List.replicate 22 0 ++ [count, 0, 0])

theorem countWord_infinities {count : Nat} (h : count < 2 ^ 256) :
    countWord (infinities count) = count := by
  have hslice : slice (infinities count) 704 32 = packWords [count] :=
    slice_packWords 22 1 rfl rfl (by simp) (by simp) rfl
  unfold countWord
  rw [hslice, natBE_packWord h]

theorem wellFormed_infinities (B : Bn256) (count : Nat) : WellFormed B (infinities count) 0 := by
  have hzero : (0 : Nat) < 2 ^ 256 := by decide
  have hcurve : ∀ offset i, offset = 32 * i → i + 2 ≤ 25 →
      ((List.replicate 22 0 ++ [count, 0, 0]).drop i).take 2 = [0, 0] →
      (newCurvePoint B (slice (infinities count) offset 64)).isSome := by
    intro offset i hoffset hi hwords
    have hslice : slice (infinities count) offset 64 = packWords [0, 0] :=
      slice_packWords i 2 hoffset rfl (by simp; omega) (by simp; omega) hwords
    rw [hslice, newCurvePoint_packWords hzero hzero, B.unmarshal_zero]
    rfl
  have htwist : ∀ offset i, offset = 32 * i → i + 4 ≤ 25 →
      ((List.replicate 22 0 ++ [count, 0, 0]).drop i).take 4 = [0, 0, 0, 0] →
      (newTwistPoint B (slice (infinities count) offset 128)).isSome := by
    intro offset i hoffset hi hwords
    have hslice : slice (infinities count) offset 128 = packWords [0, 0, 0, 0] :=
      slice_packWords i 4 hoffset rfl (by simp; omega) (by simp; omega) hwords
    rw [hslice, newTwistPoint_packWords hzero hzero hzero hzero, B.unmarshalTwist_zero]
    rfl
  refine ⟨?_, ?_, ?_⟩
  · unfold infinities
    rw [length_packWords]
    rfl
  · intro offset hoffset
    have hoffset' : offset ∈ [0, 192, 256, 736] := hoffset
    simp only [List.mem_cons, List.not_mem_nil, or_false] at hoffset'
    rcases hoffset' with rfl | rfl | rfl | rfl
    · exact hcurve 0 0 rfl (by omega) rfl
    · exact hcurve 192 6 rfl (by omega) rfl
    · exact hcurve 256 8 rfl (by omega) rfl
    · exact hcurve 736 23 rfl (by omega) rfl
  · intro offset hoffset
    unfold twistOffsets at hoffset
    simp only [List.mem_cons, List.not_mem_nil, or_false] at hoffset
    rcases hoffset with rfl | rfl | rfl | rfl
    · exact htwist 64 2 rfl (by omega) rfl
    · exact htwist 320 10 rfl (by omega) rfl
    · exact htwist 448 14 rfl (by omega) rfl
    · exact htwist 576 18 rfl (by omega) rfl

/-- A count of `2^64` is taken for no public inputs. -/
theorem count_wraps :
    ¬ ∀ (B : Bn256) (input : List Byte),
      (∃ p, parse B input = .ok p) ↔ Documented B input := by
  intro hall
  have hword : countWord (infinities (2 ^ 64)) = 2 ^ 64 := countWord_infinities (by decide)
  have hproceeds : ∃ p, parse residues (infinities (2 ^ 64)) = .ok p := by
    rw [proceeds_iff, hword]
    exact ⟨by decide, wellFormed_infinities residues (2 ^ 64)⟩
  have hle := ((hall residues (infinities (2 ^ 64))).mp hproceeds).1
  rw [hword] at hle
  omega

end HZKA.Verifier
