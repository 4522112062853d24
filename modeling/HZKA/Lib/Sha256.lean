/-
  HZKA.Lib.Sha256
  ────────────
  **SHA-256 AS FIPS 180-4 DEFINES IT**, for messages of whole bytes.

    • constants: the first 32 bits of the fractional parts of cube roots and square
      roots of primes, from `Nat.nthRoot`;
    • padding to a multiple of 64 bytes, with the length in bits modulo `2⁶⁴` (the
      standard asks for shorter messages);
    • message schedule, 64 steps, and the chaining over all blocks;
    • `sha256_eq` — the digest is the chaining over the later blocks from the value after
      the first.
-/
import HZKA.Lib.Bytes
import Mathlib.Data.Nat.NthRoot.Defs

namespace HZKA.Lib.Sha256

/-- A word of the hash. -/
abbrev Word := BitVec 32

/-- The eight words of a hash value, or the working variables. -/
structure State where
  a : Word
  b : Word
  c : Word
  d : Word
  e : Word
  f : Word
  g : Word
  h : Word
  deriving DecidableEq, Repr

/-! ## §1. Functions and constants. -/

/-- `Ch` of the standard. -/
def ch (x y z : Word) : Word := (x &&& y) ^^^ (~~~x &&& z)

/-- `Maj` of the standard. -/
def maj (x y z : Word) : Word := (x &&& y) ^^^ (x &&& z) ^^^ (y &&& z)

/-- `Σ₀` of the standard. -/
def bigSigma0 (x : Word) : Word := x.rotateRight 2 ^^^ x.rotateRight 13 ^^^ x.rotateRight 22

/-- `Σ₁` of the standard. -/
def bigSigma1 (x : Word) : Word := x.rotateRight 6 ^^^ x.rotateRight 11 ^^^ x.rotateRight 25

/-- `σ₀` of the standard. -/
def smallSigma0 (x : Word) : Word := x.rotateRight 7 ^^^ x.rotateRight 18 ^^^ x >>> 3

/-- `σ₁` of the standard. -/
def smallSigma1 (x : Word) : Word := x.rotateRight 17 ^^^ x.rotateRight 19 ^^^ x >>> 10

/-- The first 64 primes. -/
def primes : List Nat := [
  2, 3, 5, 7, 11, 13, 17, 19, 23, 29, 31, 37, 41, 43, 47, 53,
  59, 61, 67, 71, 73, 79, 83, 89, 97, 101, 103, 107, 109, 113, 127, 131,
  137, 139, 149, 151, 157, 163, 167, 173, 179, 181, 191, 193, 197, 199, 211, 223,
  227, 229, 233, 239, 241, 251, 257, 263, 269, 271, 277, 281, 283, 293, 307, 311]

/-- The first 32 bits of the fractional part of the `n`-th root of `p`. -/
def fractional (n p : Nat) : Word := BitVec.ofNat 32 (Nat.nthRoot n (p * 2 ^ (32 * n)))

/-- The constant of step `t`. -/
def constant (t : Nat) : Word := fractional 3 (primes.getD t 0)

/-- The initial hash value. -/
def initial : State :=
  ⟨fractional 2 2, fractional 2 3, fractional 2 5, fractional 2 7,
    fractional 2 11, fractional 2 13, fractional 2 17, fractional 2 19⟩

/-! ## §2. One block. -/

/-- Word `i` of a block, most significant byte first. -/
def blockWord (block : List Byte) (i : Nat) : Word :=
  block.getD (4 * i) 0 ++ block.getD (4 * i + 1) 0 ++ block.getD (4 * i + 2) 0
    ++ block.getD (4 * i + 3) 0

/-- The message schedule. -/
def schedule (block : List Byte) (t : Nat) : Word :=
  if t < 16 then blockWord block t
  else smallSigma1 (schedule block (t - 2)) + schedule block (t - 7)
    + smallSigma0 (schedule block (t - 15)) + schedule block (t - 16)
termination_by t

/-- One step on the working variables. -/
def step (s : State) (k w : Word) : State :=
  let t₁ := s.h + bigSigma1 s.e + ch s.e s.f s.g + k + w
  let t₂ := bigSigma0 s.a + maj s.a s.b s.c
  ⟨t₁ + t₂, s.a, s.b, s.c, s.d + t₁, s.e, s.f, s.g⟩

/-- The intermediate hash value added to the working variables. -/
def State.add (s H : State) : State :=
  ⟨s.a + H.a, s.b + H.b, s.c + H.c, s.d + H.d, s.e + H.e, s.f + H.f, s.g + H.g, s.h + H.h⟩

/-- The hash value after a block. -/
def compress (H : State) (block : List Byte) : State :=
  ((List.range 64).foldl (fun s t => step s (constant t) (schedule block t)) H).add H

theorem schedule_of_lt (block : List Byte) {t : Nat} (ht : t < 16) :
    schedule block t = blockWord block t := by
  rw [schedule, if_pos ht]

/-- The recurrence of the standard. -/
theorem schedule_of_ge (block : List Byte) {t : Nat} (ht : 16 ≤ t) :
    schedule block t = smallSigma1 (schedule block (t - 2)) + schedule block (t - 7)
      + smallSigma0 (schedule block (t - 15)) + schedule block (t - 16) := by
  rw [schedule, if_neg (by omega)]

/-! ## §3. Whole messages. -/

/-- The message, a one bit, zeros up to eight bytes before the end of a block, and the
length in bits. -/
def pad (message : List Byte) : List Byte :=
  message ++ [(0x80 : Byte)] ++ List.replicate ((119 - message.length % 64) % 64) (0 : Byte)
    ++ bytesBE 8 (BitVec.ofNat 64 (8 * message.length))

/-- The 64-byte blocks of a byte string. -/
def blocks (l : List Byte) : List (List Byte) :=
  (List.range (l.length / 64)).map (fun i => (l.drop (64 * i)).take 64)

/-- **The digest.** -/
def sha256 (message : List Byte) : State := (blocks (pad message)).foldl compress initial

theorem pad_length (message : List Byte) :
    (pad message).length = 64 * ((message.length + 72) / 64) := by
  unfold pad
  rw [List.length_append, List.length_append, List.length_append, List.length_singleton,
    List.length_replicate, bytesBE_length]
  omega

/-- The first block, then the rest. -/
theorem blocks_of_ge {l : List Byte} (h : 64 ≤ l.length) :
    blocks l = l.take 64 :: blocks (l.drop 64) := by
  have hcount : l.length / 64 = (l.length - 64) / 64 + 1 := by omega
  unfold blocks
  rw [hcount, List.range_succ_eq_map, List.map_cons, List.map_map, List.length_drop, Nat.mul_zero,
    List.drop_zero]
  congr 1
  apply List.map_congr_left
  intro i _
  show (l.drop (64 * (i + 1))).take 64 = ((l.drop 64).drop (64 * i)).take 64
  rw [List.drop_drop, Nat.mul_add, Nat.add_comm]

/-- Only the first block starts from the initial value. -/
theorem sha256_eq (message : List Byte) :
    sha256 message = (blocks ((pad message).drop 64)).foldl compress
      (compress initial ((pad message).take 64)) := by
  have hlen := pad_length message
  unfold sha256
  rw [blocks_of_ge (by omega), List.foldl_cons]

/-- Up to 55 bytes there is no other block. -/
theorem blocks_drop_of_le {message : List Byte} (h : message.length ≤ 55) :
    blocks ((pad message).drop 64) = [] := by
  have hlen := pad_length message
  unfold blocks
  have hnone : ((pad message).drop 64).length / 64 = 0 := by
    rw [List.length_drop]
    omega
  rw [hnone]
  rfl

end HZKA.Lib.Sha256
