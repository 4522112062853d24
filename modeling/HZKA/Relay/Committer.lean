/-
  HZKA.Relay.Committer
  ────────────
  **THE GO COMMITTER OF A TREE NODE** (`relay/committer.go`): `computeRootHash`, and the
  aggregated commit that `processAsIntermediateNode` hands to the audit chain.

  `computeRootHash` appends zero hashes while the length is not a power of two and then
  folds level by level, reading `current[i]` and `current[i+1]` at every second index; it
  would panic on a level of odd length.  `none` is that panic.

  Main results:
    • `pad_eq`             — the padding loop stops, at the next power of two;
    • `computeRootHash_eq` — no list makes `computeRootHash` panic: it returns the layered
      root of the padded list.
-/
import HZKA.EVM.Abi
import HZKA.Lib.LayeredRoot
import Mathlib.Data.Nat.Log

namespace HZKA.Relay

open HZKA.Lib HZKA.EVM

/-! ## §1. The padding loop. -/

/-- The next power of two. -/
def width (n : Nat) : Nat := 2 ^ Nat.clog 2 n

theorem le_width (n : Nat) : n ≤ width n := Nat.le_pow_clog (by omega) n

/-- The loop test, `n & (n - 1) != 0`, fails exactly at the powers of two. -/
theorem and_pred_eq_zero_iff {n : Nat} (hn : n ≠ 0) : n &&& (n - 1) = 0 ↔ n = width n := by
  rw [Nat.and_sub_one_eq_zero_iff_isPowerOfTwo hn]
  constructor
  · intro hpow
    obtain ⟨k, rfl⟩ := hpow
    unfold width
    rw [Nat.clog_pow 2 k (by omega)]
  · intro hwidth
    exact ⟨Nat.clog 2 n, hwidth⟩

/-- Below it, one more element does not change it. -/
theorem width_succ {n : Nat} (h : n < width n) : width (n + 1) = width n := by
  have hle : Nat.clog 2 (n + 1) ≤ Nat.clog 2 n := Nat.clog_le_of_le_pow h
  have hge : Nat.clog 2 n ≤ Nat.clog 2 (n + 1) := Nat.clog_mono_right 2 (by omega)
  unfold width
  rw [Nat.le_antisymm hle hge]

theorem lt_width {n : Nat} (h : n &&& (n - 1) ≠ 0) : n < width n := by
  have hn : n ≠ 0 := by
    intro hzero
    apply h
    rw [hzero]
    rfl
  have hne : n ≠ width n := fun hwidth => h ((and_pred_eq_zero_iff hn).mpr hwidth)
  have hle := le_width n
  omega

/-- `for len(current)&(len(current)-1) != 0 { current = append(current, common.Hash{}) }`. -/
def pad (current : List Bytes32) : List Bytes32 :=
  if current.length &&& (current.length - 1) ≠ 0 then pad (current ++ [0]) else current
termination_by width current.length - current.length
decreasing_by
  have hlt := lt_width ‹_›
  have hsame := width_succ hlt
  rw [List.length_append, List.length_singleton]
  omega

theorem pad_eq {current : List Bytes32} (hne : current ≠ []) :
    pad current
      = current ++ List.replicate (width current.length - current.length) (0 : Bytes32) := by
  -- the loop's own recursion: one zero less to come after each round
  induction current using pad.induct with
  | case1 current hloop ih =>
    have hlt := lt_width hloop
    have hsame := width_succ hlt
    have hmissing : width current.length - current.length
        = width (current.length + 1) - (current.length + 1) + 1 := by omega
    rw [pad, if_pos hloop, ih (by simp), List.length_append, List.length_singleton, hmissing,
      List.replicate_succ, List.append_assoc, List.singleton_append]
  | case2 current hstop =>
    have hzero : current.length &&& (current.length - 1) = 0 := by
      by_contra hne'
      exact hstop hne'
    have hlen : current.length ≠ 0 := fun h => hne (List.length_eq_zero_iff.mp h)
    have hwidth := (and_pred_eq_zero_iff hlen).mp hzero
    rw [pad, if_neg hstop, ← hwidth, Nat.sub_self, List.replicate_zero, List.append_nil]

/-! ## §2. The levels. -/

variable (hash : Bytes32 → Bytes32 → Bytes32)

/-- One round of the outer loop; a level of odd length indexes past its end. -/
def nextLevel : List Bytes32 → Option (List Bytes32)
  | [] => some []
  | [_] => none
  | a :: b :: rest => (nextLevel rest).map (hash a b :: ·)

theorem nextLevel_length : ∀ {current next : List Bytes32}, nextLevel hash current = some next →
    next.length = current.length / 2
  | [], next, h => by
    obtain rfl := Option.some.inj h
    rfl
  | [_], _, h => by simp [nextLevel] at h
  | a :: b :: rest, next, h => by
    simp only [nextLevel, Option.map_eq_some_iff] at h
    obtain ⟨tail, htail, rfl⟩ := h
    have hlen := nextLevel_length htail
    simp only [List.length_cons]
    omega

/-- `for len(current) > 1 { … }` and then `current[0]`. -/
def bottomUp (current : List Bytes32) : Option Bytes32 :=
  if current.length > 1 then
    match _hnext : nextLevel hash current with
    | none => none
    | some next => bottomUp next
  else current[0]?
termination_by current.length
decreasing_by
  rw [nextLevel_length hash _hnext]
  omega

/-- The Merkle root of the padded hashes. -/
def computeRootHash (hashes : List Bytes32) : Option Bytes32 :=
  match hashes with
  | [] => some 0
  | [h] => some h
  | hashes => bottomUp hash (pad hashes)

/-- A level of even length is one layer. -/
theorem nextLevel_eq : ∀ {current : List Bytes32}, current.length % 2 = 0 →
    nextLevel hash current = some (nextLayer hash current)
  | [], _ => rfl
  | [_], h => by simp at h
  | a :: b :: rest, h => by
    have hrest : rest.length % 2 = 0 := by
      simp only [List.length_cons] at h
      omega
    rw [nextLevel, nextLevel_eq hrest]
    rfl

/-- From a power of two no level has odd length. -/
theorem bottomUp_eq {k : Nat} : ∀ {current : List Bytes32}, current.length = 2 ^ k →
    bottomUp hash current = some (layerRoot hash 0 current) := by
  induction k with
  | zero =>
    intro current hlen
    obtain ⟨a, rfl⟩ := List.length_eq_one_iff.mp hlen
    rw [bottomUp, layerRoot]
    rfl
  | succ k ih =>
    intro current hlen
    have hpos : 0 < 2 ^ k := Nat.two_pow_pos k
    rw [pow_succ] at hlen
    have hlevel := nextLevel_eq hash (show current.length % 2 = 0 by omega)
    have hnext : (nextLayer hash current).length = 2 ^ k := by
      rw [nextLayer_length]
      omega
    rw [bottomUp, if_pos (by omega)]
    split
    · rename_i hnone
      rw [hlevel] at hnone
      cases hnone
    · rename_i next hsome
      rw [hlevel] at hsome
      obtain rfl := Option.some.inj hsome
      rw [ih hnext]
      cases current with
      | nil =>
        rw [List.length_nil] at hlen
        omega
      | cons a tail =>
        cases tail with
        | nil =>
          rw [List.length_singleton] at hlen
          omega
        | cons b rest => rw [layerRoot]

/-- The root of a list filled up with zeros to a power of two. -/
def paddedRoot (hashes : List Bytes32) : Bytes32 :=
  layerRoot hash 0 (hashes ++ List.replicate (width hashes.length - hashes.length) 0)

/-- **`computeRootHash` returns, for every list, the root of the padded list.** -/
theorem computeRootHash_eq (hashes : List Bytes32) :
    computeRootHash hash hashes = some (paddedRoot hash hashes) := by
  match hashes with
  | [] =>
    have hwidth : width 0 = 1 := by simp [width]
    unfold paddedRoot
    rw [List.length_nil, hwidth, List.nil_append, Nat.sub_zero, List.replicate_one, layerRoot]
    rfl
  | [h] =>
    have hwidth : width 1 = 1 := by simp [width]
    unfold paddedRoot
    rw [List.length_singleton, hwidth, Nat.sub_self, List.replicate_zero, List.append_nil,
      layerRoot]
    rfl
  | a :: b :: rest =>
    show bottomUp hash (pad (a :: b :: rest)) = _
    have hle := le_width (a :: b :: rest).length
    have hlen : (pad (a :: b :: rest)).length = 2 ^ Nat.clog 2 (a :: b :: rest).length := by
      rw [pad_eq (by simp), List.length_append, List.length_replicate]
      show _ = width (a :: b :: rest).length
      omega
    rw [bottomUp_eq hash hlen, pad_eq (by simp)]
    rfl

/-! ## §3. The aggregated commit of a tree node. -/

/-- `crypto.Keccak256(append(l.Bytes(), r.Bytes()...))`. -/
def nodeHash (l r : Bytes32) : Bytes32 := keccak256 (Bytes32.toBytes l ++ Bytes32.toBytes r)

/-- What a tree node commits. -/
structure AggregatedCommit where
  nodeId : Nat
  childRoots : List Bytes32
  aggregatedRoot : Bytes32
  deriving DecidableEq, Repr

end HZKA.Relay
