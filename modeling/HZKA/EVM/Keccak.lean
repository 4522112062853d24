/-
  HZKA.EVM.Keccak
  ────────────
  **KECCAK-256, the hash the EVM exposes as `keccak256`.**

  The sponge with rate 1088 bits (136 bytes) over Keccak-f[1600] and the
  original `0x01 … 0x80` multi-rate padding.  The state is the list of its 25
  lanes, lane `(x, y)` at index `x + 5·y`; every step map is written on indices
  so the function evaluates inside the kernel.

  Nothing below reasons about the permutation: proofs use `keccak256` as a
  function, and the concrete definition is there for the inputs a run feeds it.
-/
import HZKA.Lib.Bytes

namespace HZKA.EVM

open HZKA.Lib

/-- A lane of the state. -/
abbrev Lane := BitVec 64

/-! ## §1. The permutation Keccak-f[1600]. -/

/-- The 24 round constants of ι. -/
def roundConstants : List Lane :=
  [0x0000000000000001, 0x0000000000008082, 0x800000000000808A, 0x8000000080008000,
   0x000000000000808B, 0x0000000080000001, 0x8000000080008081, 0x8000000000008009,
   0x000000000000008A, 0x0000000000000088, 0x0000000080008009, 0x000000008000000A,
   0x000000008000808B, 0x800000000000008B, 0x8000000000008089, 0x8000000000008003,
   0x8000000000008002, 0x8000000000000080, 0x000000000000800A, 0x800000008000000A,
   0x8000000080008081, 0x8000000000008080, 0x0000000080000001, 0x8000000080008008]

/-- The rotation offsets of ρ, by lane index. -/
def rotationOffsets : List Nat :=
  [ 0,  1, 62, 28, 27,
   36, 44,  6, 55, 20,
    3, 10, 43, 25, 39,
   41, 45, 15, 21,  8,
   18,  2, 61, 56, 14]

/-- A rotation to the left. -/
def rotateLane (v : Lane) (n : Nat) : Lane := (v <<< n) ||| (v >>> (64 - n))

/-- Lane `(x, y)`, coordinates mod 5. -/
def laneAt (s : List Lane) (x y : Nat) : Lane := s.getD (x % 5 + 5 * (y % 5)) 0

/-- Column parities. -/
def theta (s : List Lane) : List Lane :=
  let c := (List.range 5).map fun x =>
    laneAt s x 0 ^^^ laneAt s x 1 ^^^ laneAt s x 2 ^^^ laneAt s x 3 ^^^ laneAt s x 4
  let d := (List.range 5).map fun x =>
    c.getD ((x + 4) % 5) 0 ^^^ rotateLane (c.getD ((x + 1) % 5) 0) 1
  (List.range 25).map fun i => s.getD i 0 ^^^ d.getD (i % 5) 0

/-- ρ then π: the lane arriving at `(X, Y)` comes from `(X + 3·Y, X)`. -/
def rhoPi (s : List Lane) : List Lane :=
  (List.range 25).map fun i =>
    let j := (i % 5 + 3 * (i / 5)) % 5 + 5 * (i % 5)
    rotateLane (s.getD j 0) (rotationOffsets.getD j 0)

/-- The one non-linear step. -/
def chi (s : List Lane) : List Lane :=
  (List.range 25).map fun i =>
    laneAt s (i % 5) (i / 5)
      ^^^ (~~~ laneAt s (i % 5 + 1) (i / 5) &&& laneAt s (i % 5 + 2) (i / 5))

/-- A round constant on the first lane. -/
def iota (rc : Lane) : List Lane → List Lane
  | [] => []
  | a :: s => (a ^^^ rc) :: s

/-- The permutation, 24 rounds. -/
def keccakF (s : List Lane) : List Lane :=
  roundConstants.foldl (fun s rc => iota rc (chi (rhoPi (theta s)))) s

/-! ## §2. The sponge. -/

/-- Bytes absorbed per permutation. -/
def rateBytes : Nat := 136

/-- A lane read from its 8 little-endian bytes. -/
def laneOfBytes (bs : List Byte) : Lane :=
  bs.foldr (fun b acc => (acc <<< 8) ||| b.setWidth 64) 0

/-- A lane in little-endian order. -/
def bytesOfLane (l : Lane) : List Byte :=
  (List.range 8).map fun i => (l >>> (8 * i)).setWidth 8

/-- The multi-rate padding: `0x01`, zeros, `0x80` (merged when one byte is left). -/
def padKeccak (m : List Byte) : List Byte :=
  let q := rateBytes - m.length % rateBytes
  if q = 1 then m ++ [0x81]
  else m ++ [0x01] ++ List.replicate (q - 2) 0 ++ [0x80]

/-- One block of 136 bytes. -/
def absorb (s : List Lane) (block : List Byte) : List Lane :=
  keccakF ((List.range 25).map fun i =>
    s.getD i 0 ^^^ (if i < 17 then laneOfBytes ((block.drop (8 * i)).take 8) else 0))

/-- The first `n` rate-sized blocks of a padded message. -/
def rateBlocks : Nat → List Byte → List (List Byte)
  | 0, _ => []
  | n + 1, m => m.take rateBytes :: rateBlocks n (m.drop rateBytes)

/-- **`keccak256`** of a byte string, as the big-endian 256-bit word. -/
def keccak256 (m : List Byte) : BitVec 256 :=
  let padded := padKeccak m
  let s := (rateBlocks (padded.length / rateBytes) padded).foldl absorb (List.replicate 25 0)
  wordBE 256 ((s.take 4).flatMap bytesOfLane)

-- the digest of the empty string
example : keccak256 []
    = 0xc5d2460186f7233c927e7db2dcc703c0e500b653ca82273b7bfad8045d85a470 := by
  decide +kernel

end HZKA.EVM
