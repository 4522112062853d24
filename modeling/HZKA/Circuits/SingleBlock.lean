/-
  HZKA.Circuits.SingleBlock
  ────────────
  **THE GADGET IS SHA-256 ON ONE BLOCK.**

  Constants, word helpers, schedule, rounds and padding of `SHA256Circuit` are those of
  the standard; what is missing is the loop over the blocks.

    • `padMessage_eq`       — the padding, at every length;
    • `messageWords_eq`     — the 64 message words are the schedule of the first block;
    • `hash_eq_compress`    — a hash is the value after the first block;
    • `hash_standard_iff`   — it is the SHA-256 digest exactly when no other block follows,
      or the others leave that value unchanged.
-/
import HZKA.Circuits.SHA256
import HZKA.Lib.Sha256

namespace HZKA.Circuits.SHA256

open HZKA.Lib

/-! ## §1. Words. -/

/-- Addition modulo 2^32. -/
theorem addMod32_eq (a b : Word) : addMod32 a b = a + b := by
  unfold addMod32
  rw [BitVec.setWidth_add _ _ (by decide), BitVec.setWidth_setWidth_of_le _ (by decide),
    BitVec.setWidth_setWidth_of_le _ (by decide), BitVec.setWidth_eq, BitVec.setWidth_eq]

/-- The rotation is a rotation. -/
theorem rightRotate_eq (val : Word) {shift : Nat} (h : shift < 32) :
    rightRotate val shift = val.rotateRight shift := by
  rw [BitVec.rotateRight_eq_rotateRightAux_of_lt h]
  rfl

/-- Four bytes put together by shifts are the bytes one after the other. -/
theorem pack_append (b₀ b₁ b₂ b₃ : Byte) :
    (0 : Word) ^^^ (b₀.setWidth 32 <<< 24) ^^^ (b₁.setWidth 32 <<< 16) ^^^ (b₂.setWidth 32 <<< 8)
      ^^^ (b₃.setWidth 32 <<< 0) = b₀ ++ b₁ ++ b₂ ++ b₃ := by
  apply BitVec.eq_of_getLsbD_eq
  intro i hi
  have hout : ∀ (b : Byte) {j : Nat}, 8 ≤ j → b.getLsbD j = false :=
    fun b j hj => BitVec.getLsbD_of_ge b j hj
  simp only [BitVec.getLsbD_xor, BitVec.getLsbD_shiftLeft, BitVec.getLsbD_setWidth,
    BitVec.getLsbD_append]
  -- each bit comes from the byte of its range, the other three contribute zeros
  rcases Nat.lt_or_ge i 8 with h₁ | h₁
  · simp [h₁, hi, show i < 16 by omega, show i < 24 by omega]
  · rcases Nat.lt_or_ge i 16 with h₂ | h₂
    · simp [hout b₃ h₁, hi, h₂, show ¬ i < 8 by omega, show i < 24 by omega, show i - 8 < 8 by omega,
        show i - 8 < 32 by omega]
    · rcases Nat.lt_or_ge i 24 with h₃ | h₃
      · simp [hout b₃ h₁, hout b₂ (show 8 ≤ i - 8 by omega), hi, h₃, show ¬ i < 8 by omega,
          show ¬ i < 16 by omega, show ¬ i - 8 < 8 by omega, show i - 16 < 8 by omega,
          show i - 8 - 8 = i - 16 by omega, show i - 16 < 32 by omega]
      · simp [hout b₃ h₁, hout b₂ (show 8 ≤ i - 8 by omega), hout b₁ (show 8 ≤ i - 16 by omega), hi,
          show ¬ i < 8 by omega, show ¬ i < 16 by omega, show ¬ i < 24 by omega,
          show ¬ i - 8 < 8 by omega, show ¬ i - 8 - 8 < 8 by omega,
          show i - 8 - 8 - 8 = i - 24 by omega, show i - 24 < 32 by omega]

/-- Four bytes, big-endian. -/
theorem packBytes_eq {bytes : List Byte} {i : Nat} (h : 4 * i + 4 ≤ bytes.length) :
    packBytes bytes (i * 4) = Sha256.blockWord bytes i := by
  have hbyte : ∀ j, j < 4 → ∀ hj : i * 4 + j < bytes.length,
      bytes.getD (4 * i + j) 0 = bytes[i * 4 + j] := by
    intro j _ hj
    rw [Nat.mul_comm 4 i, List.getD_eq_getElem?_getD, List.getElem?_eq_getElem hj, Option.getD_some]
  have hfour : List.range 4 = [0, 1, 2, 3] := rfl
  unfold packBytes
  simp only [hfour, List.foldl_cons, List.foldl_nil]
  rw [dif_pos (show i * 4 + 0 < bytes.length by omega),
    dif_pos (show i * 4 + 1 < bytes.length by omega),
    dif_pos (show i * 4 + 2 < bytes.length by omega),
    dif_pos (show i * 4 + 3 < bytes.length by omega)]
  refine (pack_append _ _ _ _).trans ?_
  rw [← hbyte 0 (by omega), ← hbyte 1 (by omega), ← hbyte 2 (by omega), ← hbyte 3 (by omega)]
  rfl

/-! ## §2. Schedule. -/

/-- The message schedule. -/
theorem nextWord_eq {words : List Word} :
    nextWord words = Sha256.smallSigma1 (words.getD 1 0) + words.getD 6 0
      + Sha256.smallSigma0 (words.getD 14 0) + words.getD 15 0 := by
  unfold nextWord
  simp only [addMod32_eq]
  show (words.getD 15 0 + xorThree _ _ _) + (words.getD 6 0 + xorThree _ _ _) = _
  rw [rightRotate_eq _ (by decide), rightRotate_eq _ (by decide), rightRotate_eq _ (by decide),
    rightRotate_eq _ (by decide)]
  show (words.getD 15 0 + Sha256.smallSigma0 (words.getD 14 0))
    + (words.getD 6 0 + Sha256.smallSigma1 (words.getD 1 0)) = _
  ac_rfl

/-- Counted from the newest. -/
theorem getD_newest (W : Nat → Word) {t j : Nat} (hj : j < t) :
    (((List.range t).map W).reverse).getD j 0 = W (t - 1 - j) := by
  have hlen : j < (((List.range t).map W).reverse).length := by simpa using hj
  rw [List.getD_eq_getElem?_getD, List.getElem?_eq_getElem hlen, Option.getD_some,
    List.getElem_reverse, List.getElem_map, List.getElem_range, List.length_map, List.length_range]

/-- The loop appends the standard's words. -/
theorem extendWords_eq (block : List Byte) (n : Nat) :
    ∀ t, 16 ≤ t →
      extendWords n ((List.range t).map (Sha256.schedule block)).reverse
        = ((List.range (t + n)).map (Sha256.schedule block)).reverse := by
  induction n with
  | zero =>
    intro t _
    rfl
  | succ n ih =>
    intro t ht
    have hnext : nextWord ((List.range t).map (Sha256.schedule block)).reverse
        = Sha256.schedule block t := by
      rw [nextWord_eq, getD_newest _ (by omega), getD_newest _ (by omega),
        getD_newest _ (by omega), getD_newest _ (by omega), Sha256.schedule_of_ge block ht,
        show t - 1 - 1 = t - 2 by omega, show t - 1 - 6 = t - 7 by omega,
        show t - 1 - 14 = t - 15 by omega, show t - 1 - 15 = t - 16 by omega]
    have hcons : Sha256.schedule block t :: ((List.range t).map (Sha256.schedule block)).reverse
        = ((List.range (t + 1)).map (Sha256.schedule block)).reverse := by
      rw [List.range_succ, List.map_append, List.reverse_append]
      rfl
    rw [extendWords, hnext, hcons, ih (t + 1) (by omega), Nat.add_right_comm, Nat.add_assoc]

/-- **The message words are the schedule.** -/
theorem messageWords_eq {block : List Byte} (h : block.length = 64) :
    messageWords block = (List.range 64).map (Sha256.schedule block) := by
  have hfirst : (List.range 16).map (messageWord block)
      = (List.range 16).map (Sha256.schedule block) := by
    apply List.map_congr_left
    intro i hi
    have hi16 : i < 16 := List.mem_range.mp hi
    unfold messageWord
    rw [if_pos (by omega), packBytes_eq (by omega), Sha256.schedule_of_lt block hi16]
  unfold messageWords
  rw [hfirst, extendWords_eq block 48 16 (le_refl 16), List.reverse_reverse]

/-! ## §3. Compression. -/

/-- The words of a digest as a hash value of the standard. -/
def Digest.state (d : Digest) : Sha256.State :=
  ⟨d.w0, d.w1, d.w2, d.w3, d.w4, d.w5, d.w6, d.w7⟩

/-- The constants are the roots their comments name. -/
theorem K_eq : K = (List.range 64).map Sha256.constant := by decide +kernel

theorem H_INIT_eq : Digest.state H_INIT = Sha256.initial := by decide +kernel

/-- One round is one round of the standard. -/
theorem round_eq (s : Digest) (kw : Word × Word) :
    Digest.state (round s kw) = Sha256.step (Digest.state s) kw.1 kw.2 := by
  unfold round
  simp only [addMod32_eq]
  rw [rightRotate_eq _ (by decide), rightRotate_eq _ (by decide), rightRotate_eq _ (by decide),
    rightRotate_eq _ (by decide), rightRotate_eq _ (by decide), rightRotate_eq _ (by decide)]
  have htemp : s.w7 + Sha256.bigSigma1 s.w4 + Sha256.ch s.w4 s.w5 s.w6 + (kw.1 + kw.2)
      = s.w7 + Sha256.bigSigma1 s.w4 + Sha256.ch s.w4 s.w5 s.w6 + kw.1 + kw.2 := by
    rw [BitVec.add_assoc _ kw.1]
  show Digest.state ⟨s.w7 + Sha256.bigSigma1 s.w4 + Sha256.ch s.w4 s.w5 s.w6 + (kw.1 + kw.2)
      + (Sha256.bigSigma0 s.w0 + Sha256.maj s.w0 s.w1 s.w2), s.w0, s.w1, s.w2,
    s.w3 + (s.w7 + Sha256.bigSigma1 s.w4 + Sha256.ch s.w4 s.w5 s.w6 + (kw.1 + kw.2)),
    s.w4, s.w5, s.w6⟩ = _
  rw [htemp]
  rfl

/-- The gadget's rounds from any hash value. -/
theorem rounds_eq {block : List Byte} (h : block.length = 64) (s : Digest) :
    Digest.state ((K.zip (messageWords block)).foldl round s)
      = (List.range 64).foldl (fun s t => Sha256.step s (Sha256.constant t)
          (Sha256.schedule block t)) (Digest.state s) := by
  rw [K_eq, messageWords_eq h, List.zip_map', List.foldl_map]
  generalize List.range 64 = steps
  induction steps generalizing s with
  | nil => rfl
  | cons t steps ih =>
    rw [List.foldl_cons, List.foldl_cons, ih, round_eq]

/-- One block of the standard. -/
theorem compress_state {block : List Byte} (h : block.length = 64) (s : Digest) :
    Sha256.compress (Digest.state s) block
      = (Digest.state ((K.zip (messageWords block)).foldl round s)).add (Digest.state s) := by
  rw [rounds_eq h s]
  rfl

/-- **The gadget compresses one block.** -/
theorem computeSHA256_eq {block : List Byte} (h : block.length = 64) :
    Digest.state (computeSHA256 block) = Sha256.compress Sha256.initial block := by
  rw [← H_INIT_eq, compress_state h]
  unfold computeSHA256
  simp only [addMod32_eq]
  rfl

/-! ## §4. Padding. -/

/-- **The padding is the standard's.** -/
theorem padMessage_eq (message : List Byte) : padMessage message = Sha256.pad message := by
  have hzeros : paddedLength message.length - 8 - (message.length + 1)
      = (119 - message.length % 64) % 64 := by
    unfold paddedLength
    omega
  have hlength : (List.range 8).map (fun i =>
      (BitVec.ofNat 8 ((message.length * 8) >>> (56 - i * 8)) : Byte))
      = bytesBE 8 (BitVec.ofNat 64 (8 * message.length)) := by
    unfold bytesBE
    apply List.map_congr_left
    intro i hi
    have hi8 : i < 8 := List.mem_range.mp hi
    apply BitVec.eq_of_getLsbD_eq
    intro j hj
    have hshift : 56 - i * 8 = 8 * (8 - 1 - i) := by omega
    have hbit : 8 * (8 - 1 - i) + j < 64 := by omega
    rw [hshift, Nat.mul_comm message.length 8, BitVec.getLsbD_ofNat, Nat.testBit_shiftRight,
      BitVec.getLsbD_setWidth, BitVec.getLsbD_ushiftRight, BitVec.getLsbD_ofNat]
    simp [hj, hbit]
  unfold padMessage Sha256.pad
  rw [hzeros, hlength]

/-! ## §5. Whole messages. -/

/-- **A hash is the value after the first block.** -/
theorem hash_eq_compress (message : List Byte) :
    Digest.state (hash message)
      = Sha256.compress Sha256.initial ((Sha256.pad message).take 64) := by
  have hlen : (block message).length = 64 := by
    have hpad := Sha256.pad_length message
    rw [block, List.length_take, padMessage_eq]
    omega
  rw [hash_eq_compress_block, computeSHA256_eq hlen, block, padMessage_eq]

/-- The later blocks of a message, if any, leave the value after the first unchanged. -/
def LaterBlocksIdle (message : List Byte) : Prop :=
  (Sha256.blocks ((Sha256.pad message).drop 64)).foldl Sha256.compress
      (Sha256.compress Sha256.initial ((Sha256.pad message).take 64))
    = Sha256.compress Sha256.initial ((Sha256.pad message).take 64)

/-- **The gadget computes SHA-256 of a message exactly when the message fits one block, or
its later blocks happen to be idle.** -/
theorem hash_standard_iff (message : List Byte) :
    Digest.state (hash message) = Sha256.sha256 message
      ↔ message.length ≤ 55 ∨ LaterBlocksIdle message := by
  rw [hash_eq_compress, Sha256.sha256_eq]
  constructor
  · intro h
    exact Or.inr h.symm
  · intro h
    rcases h with hshort | hidle
    · rw [Sha256.blocks_drop_of_le hshort]
      rfl
    · exact hidle.symm

/-- The message of the standard's first test. -/
def abc : List Byte := [0x61, 0x62, 0x63]

/-- The first example of the standard. -/
theorem hash_abc :
    Digest.state (hash abc) = Sha256.sha256 abc
      ∧ hash abc = ⟨0xba7816bf, 0x8f01cfea, 0x414140de, 0x5dae2223,
        0xb00361a3, 0x96177a9c, 0xb410ff61, 0xf20015ad⟩ :=
  ⟨(hash_standard_iff abc).mpr (Or.inl (by decide)), by decide +kernel⟩

/-- Two digests of zeros, as a Merkle node hashes them. -/
def zeros : List Byte := List.replicate 64 0

/-- The block that follows 64 bytes of message. -/
def lengthBlock : List Byte := 0x80 :: (List.replicate 61 0 ++ [0x02, 0x00])

theorem hash_zeros : hash zeros = ⟨0xda5698be, 0x17b9b469, 0x62335799, 0x779fbeca,
    0x8ce5d491, 0xc0d26243, 0xbafef9ea, 0x1837a9d8⟩ := by
  decide +kernel

/-- The second block of the padding changes the value. -/
theorem sha256_zeros : Sha256.sha256 zeros = ⟨0xf5a5fd42, 0xd16a2030, 0x2798ef6e, 0xd309979b,
    0x43003d23, 0x20d9f0e8, 0xea9831a9, 0x2759fb4b⟩ := by
  have hblocks : Sha256.blocks ((Sha256.pad zeros).drop 64) = [lengthBlock] := by decide +kernel
  rw [Sha256.sha256_eq, hblocks, ← hash_eq_compress, List.foldl_cons, List.foldl_nil,
    compress_state (by decide), hash_zeros]
  decide +kernel

/-- The gadget is not SHA-256. -/
theorem hash_not_standard :
    ¬ ∀ message : List Byte, Digest.state (hash message) = Sha256.sha256 message := by
  intro hall
  have h := hall zeros
  rw [hash_zeros, sha256_zeros] at h
  exact absurd h (by decide)

end HZKA.Circuits.SHA256
