/-
  HZKA.Circuits.SHA256
  ────────────
  **THE IN-CIRCUIT HASH GADGET** (`SHA256Circuit.java`), over bytes and 32-bit
  words; wire operations are arithmetic and bitwise operations modulo the stated
  widths.

  The point to read off: `computeSHA256` takes its sixteen message words from the
  first 64 bytes of the padded input and compresses ONCE, whatever the length of
  the input.

    • `hash_eq_compress_block` — hashing `m` is compressing `block m`, the first 64
      bytes of the padding of `m`;
    • `block_of_ge` — for 64 bytes or more the block is a plain truncation, so
      nothing after byte 64 reaches the digest;
    • `block_inj` — up to 64 bytes the block determines the message of its length.
-/
import HZKA.Lib.Bytes

namespace HZKA.Circuits

open HZKA.Lib

/-- A word of the hash. -/
abbrev Word := BitVec 32

/-- Eight 32-bit words. -/
structure Digest where
  w0 : Word
  w1 : Word
  w2 : Word
  w3 : Word
  w4 : Word
  w5 : Word
  w6 : Word
  w7 : Word
  deriving DecidableEq, Repr

namespace SHA256

/-! ## §1. Constants and word helpers. -/

/-- The round constants. -/
def K : List Word := [
  0x428a2f98, 0x71374491, 0xb5c0fbcf, 0xe9b5dba5,
  0x3956c25b, 0x59f111f1, 0x923f82a4, 0xab1c5ed5,
  0xd807aa98, 0x12835b01, 0x243185be, 0x550c7dc3,
  0x72be5d74, 0x80deb1fe, 0x9bdc06a7, 0xc19bf174,
  0xe49b69c1, 0xefbe4786, 0x0fc19dc6, 0x240ca1cc,
  0x2de92c6f, 0x4a7484aa, 0x5cb0a9dc, 0x76f988da,
  0x983e5152, 0xa831c66d, 0xb00327c8, 0xbf597fc7,
  0xc6e00bf3, 0xd5a79147, 0x06ca6351, 0x14292967,
  0x27b70a85, 0x2e1b2138, 0x4d2c6dfc, 0x53380d13,
  0x650a7354, 0x766a0abb, 0x81c2c92e, 0x92722c85,
  0xa2bfe8a1, 0xa81a664b, 0xc24b8b70, 0xc76c51a3,
  0xd192e819, 0xd6990624, 0xf40e3585, 0x106aa070,
  0x19a4c116, 0x1e376c08, 0x2748774c, 0x34b0bcb5,
  0x391c0cb3, 0x4ed8aa4a, 0x5b9cca4f, 0x682e6ff3,
  0x748f82ee, 0x78a5636f, 0x84c87814, 0x8cc70208,
  0x90befffa, 0xa4506ceb, 0xbef9a3f7, 0xc67178f2]

/-- The initial value. -/
def H_INIT : Digest :=
  ⟨0x6a09e667, 0xbb67ae85, 0x3c6ef372, 0xa54ff53a,
    0x510e527f, 0x9b05688c, 0x1f83d9ab, 0x5be0cd19⟩

/-- A rotation, for shifts below 32. -/
def rightRotate (val : Word) (shift : Nat) : Word :=
  (val >>> shift) ||| (val <<< (32 - shift))

/-- A logical shift. -/
def rightShift (val : Word) (shift : Nat) : Word := val >>> shift

/-- The parity of three words. -/
def xorThree (a b c : Word) : Word := a ^^^ b ^^^ c

/-- `a.add(b).trimBits(33, 32)`. -/
def addMod32 (a b : Word) : Word := (a.setWidth 33 + b.setWidth 33).setWidth 32

/-- Bitwise choice. -/
def choice (e f g : Word) : Word := (e &&& f) ^^^ (~~~e &&& g)

/-- Bitwise majority. -/
def majority (a b c : Word) : Word := (a &&& b) ^^^ (a &&& c) ^^^ (b &&& c)

/-- Four bytes into a word, big-endian; the loop stops at the end of the array. -/
def packBytes (bytes : List Byte) (offset : Nat) : Word :=
  (List.range 4).foldl (fun result i =>
    if h : offset + i < bytes.length then
      result ^^^ ((bytes[offset + i].setWidth 32) <<< ((3 - i) * 8))
    else result) 0

/-! ## §2. Schedule and compression. -/

/-- Message word `i < 16`. -/
def messageWord (inputBytes : List Byte) (i : Nat) : Word :=
  if i * 4 < inputBytes.length then packBytes inputBytes (i * 4) else 0

/-- The next schedule word from the words so far, newest first. -/
def nextWord (words : List Word) : Word :=
  let w15 := words.getD 14 0
  let w2 := words.getD 1 0
  let s0 := xorThree (rightRotate w15 7) (rightRotate w15 18) (rightShift w15 3)
  let s1 := xorThree (rightRotate w2 17) (rightRotate w2 19) (rightShift w2 10)
  addMod32 (addMod32 (words.getD 15 0) s0) (addMod32 (words.getD 6 0) s1)

/-- `n` more schedule words, newest first. -/
def extendWords : Nat → List Word → List Word
  | 0, words => words
  | n + 1, words => extendWords n (nextWord words :: words)

/-- All 64 message words in order. -/
def messageWords (inputBytes : List Byte) : List Word :=
  (extendWords 48 ((List.range 16).map (messageWord inputBytes)).reverse).reverse

/-- One compression round on the working variables `a‥h`. -/
def round (s : Digest) (kw : Word × Word) : Digest :=
  let S1 := xorThree (rightRotate s.w4 6) (rightRotate s.w4 11) (rightRotate s.w4 25)
  let ch := choice s.w4 s.w5 s.w6
  let temp1 := addMod32 (addMod32 (addMod32 s.w7 S1) ch) (addMod32 kw.1 kw.2)
  let S0 := xorThree (rightRotate s.w0 2) (rightRotate s.w0 13) (rightRotate s.w0 22)
  let maj := majority s.w0 s.w1 s.w2
  let temp2 := addMod32 S0 maj
  ⟨addMod32 temp1 temp2, s.w0, s.w1, s.w2, addMod32 s.w3 temp1, s.w4, s.w5, s.w6⟩

/-- **The gadget**: one compression, from the fixed initial value. -/
def computeSHA256 (inputBytes : List Byte) : Digest :=
  let s := (K.zip (messageWords inputBytes)).foldl round H_INIT
  ⟨addMod32 s.w0 H_INIT.w0, addMod32 s.w1 H_INIT.w1, addMod32 s.w2 H_INIT.w2,
    addMod32 s.w3 H_INIT.w3, addMod32 s.w4 H_INIT.w4, addMod32 s.w5 H_INIT.w5,
    addMod32 s.w6 H_INIT.w6, addMod32 s.w7 H_INIT.w7⟩

/-! ## §3. Padding. -/

/-- The message with its padding, in whole blocks. -/
def paddedLength (originalLength : Nat) : Nat := (originalLength + 8 + 64) / 64 * 64

/-- The message, `0x80`, zeros, and the bit length in eight bytes. -/
def padMessage (message : List Byte) : List Byte :=
  message ++ [(0x80 : Byte)]
    ++ List.replicate (paddedLength message.length - 8 - (message.length + 1)) (0 : Byte)
    ++ (List.range 8).map (fun i => BitVec.ofNat 8 ((message.length * 8) >>> (56 - i * 8)))

/-- Every caller pads and hashes. -/
def hash (message : List Byte) : Digest := computeSHA256 (padMessage message)

/-- The 64 bytes hashing `message` compresses. -/
def block (message : List Byte) : List Byte := (padMessage message).take 64

/-- Whole blocks. -/
theorem padMessage_length (message : List Byte) :
    (padMessage message).length = paddedLength message.length := by
  simp only [padMessage, paddedLength, List.length_append, List.length_singleton,
    List.length_replicate, List.length_map, List.length_range]
  omega

/-! ## §4. Only the first block is read. -/

theorem packBytes_take (bytes : List Byte) {offset : Nat} (h : offset + 4 ≤ 64) :
    packBytes (bytes.take 64) offset = packBytes bytes offset := by
  have hbyte : ∀ (result : Word) (i : Nat), i < 4 →
      (if h : offset + i < (bytes.take 64).length then
        result ^^^ (((bytes.take 64)[offset + i].setWidth 32) <<< ((3 - i) * 8)) else result)
      = (if h : offset + i < bytes.length then
        result ^^^ ((bytes[offset + i].setWidth 32) <<< ((3 - i) * 8)) else result) := by
    intro result i hi
    by_cases hlen : offset + i < bytes.length
    · have hlen' : offset + i < (bytes.take 64).length := by
        rw [List.length_take]
        omega
      rw [dif_pos hlen, dif_pos hlen', List.getElem_take]
    · have hlen' : ¬ offset + i < (bytes.take 64).length := by
        rw [List.length_take]
        omega
      rw [dif_neg hlen, dif_neg hlen']
  unfold packBytes
  refine List.foldl_ext _ _ _ ?_
  intro result i hi
  exact hbyte result i (List.mem_range.mp hi)

/-- Only the first block is read. -/
theorem messageWord_take (bytes : List Byte) {i : Nat} (hi : i < 16) :
    messageWord (bytes.take 64) i = messageWord bytes i := by
  unfold messageWord
  rw [packBytes_take bytes (by omega), List.length_take]
  by_cases hlen : i * 4 < bytes.length
  · rw [if_pos hlen, if_pos (by omega)]
  · rw [if_neg hlen, if_neg (by omega)]

/-- **Bytes beyond the first 64 never reach the digest.** -/
theorem computeSHA256_take (bytes : List Byte) :
    computeSHA256 (bytes.take 64) = computeSHA256 bytes := by
  have hwords : messageWords (bytes.take 64) = messageWords bytes := by
    unfold messageWords
    rw [List.map_congr_left (fun i hi => messageWord_take bytes (List.mem_range.mp hi))]
  unfold computeSHA256
  rw [hwords]

/-- **The gadget hashes the first block only**. -/
theorem hash_eq_compress_block (message : List Byte) :
    hash message = computeSHA256 (block message) :=
  (computeSHA256_take (padMessage message)).symm

/-- From 64 bytes on, the block is the message cut off at 64 bytes. -/
theorem block_of_ge {message : List Byte} (h : 64 ≤ message.length) :
    block message = message.take 64 := by
  unfold block padMessage
  rw [List.append_assoc, List.append_assoc, List.take_append_of_le_length h]

/-- **Up to 64 bytes the block determines the message** among those of its length. -/
theorem block_inj {m m' : List Byte} (hlen : m.length = m'.length) (hle : m.length ≤ 64)
    (h : block m = block m') : m = m' := by
  have hm : m = (block m).take m.length := by
    rw [block, List.take_take, Nat.min_eq_left hle, padMessage, List.append_assoc,
      List.append_assoc, List.take_left]
  have hm' : m' = (block m').take m'.length := by
    rw [block, List.take_take, Nat.min_eq_left (hlen ▸ hle), padMessage, List.append_assoc,
      List.append_assoc, List.take_left]
  rw [hm, hm', h, hlen]

/-! ## §5. Collisions among hashed blocks. -/

/-- Two different blocks of the two lists with the same compression output. -/
def Collision (S T : List (List Byte)) : Prop :=
  ∃ b ∈ S, ∃ c ∈ T, b ≠ c ∧ computeSHA256 b = computeSHA256 c

/-- More blocks, more collisions. -/
theorem Collision.mono {S S' T T' : List (List Byte)} (h : Collision S T) (hS : S ⊆ S')
    (hT : T ⊆ T') : Collision S' T' := by
  obtain ⟨b, hb, c, hc, hne, heq⟩ := h
  exact ⟨b, hS hb, c, hT hc, hne, heq⟩

/-- Blocks with pairwise different digests exhibit no collision. -/
theorem not_collision_of_digests {S : List (List Byte)} (ds : List Digest)
    (hds : S.map computeSHA256 = ds) (hnodup : ds.Nodup) : ¬ Collision S S := by
  rintro ⟨b, hb, c, hc, hne, heq⟩
  have hinj := List.inj_on_of_nodup_map (hds ▸ hnodup)
  exact hne (hinj hb hc heq)

end SHA256

end HZKA.Circuits
