/-
  HZKA.EVM.Calldata
  ────────────
  **WHAT A CONTRACT MAKES OF THE BYTES IT IS CALLED WITH.**

  The first four bytes select a function; the head of each argument follows, one 32-byte
  word for a value and, for an array of variable length, the place where the array starts.
  The code the compiler puts before a function reverts if there are fewer bytes than the
  heads take, and does not look at what follows them.  Bytes that select no function are
  for `receive` if there are none at all, for `fallback` otherwise.

    • `call_select` — the selected function runs on the bytes behind its selector;
    • `call_fallback` — bytes that select nothing;
    • `headWords_short` — too few bytes revert;
    • `headWords_encode` — the encoding of words decodes to the words.
-/
import HZKA.EVM.Abi
import HZKA.Lib.Revert

namespace HZKA.EVM

open HZKA.Lib

/-! ## §1. Arguments. -/

/-- The word at a byte offset. -/
def wordAt (args : List Byte) (offset : Nat) : Bytes32 :=
  BitVec.ofNat 256 (natBE ((args.drop offset).take 32))

/-- The first `n` words of the arguments. -/
def headWords (n : Nat) (args : List Byte) : Except Revert (List Bytes32) := do
  require (32 * n ≤ args.length) ""
  return (List.range n).map fun i => wordAt args (32 * i)

/-- The array that starts at `offset`: its length, then its words. -/
def wordArray (args : List Byte) (offset : Nat) : Except Revert (List Bytes32) := do
  require (offset < 2 ^ 64) ""
  require (offset + 31 < args.length) ""
  let length := (wordAt args offset).toNat
  require (length < 2 ^ 64) ""
  require (offset + 32 + 32 * length ≤ args.length) ""
  return (List.range length).map fun i => wordAt args (offset + 32 + 32 * i)

/-- `abi.encode` of words. -/
def encodeWords (words : List Bytes32) : List Byte := words.flatMap Bytes32.toBytes

theorem length_encodeWords (words : List Bytes32) :
    (encodeWords words).length = 32 * words.length := by
  unfold encodeWords
  induction words with
  | nil => rfl
  | cons x words ih =>
    rw [List.flatMap_cons, List.length_append, Bytes32.toBytes_length, ih, List.length_cons]
    omega

/-- **Fewer bytes than the heads take revert.** -/
theorem headWords_short {n : Nat} {args : List Byte} (h : args.length < 32 * n) :
    headWords n args = .error (.require "") := by
  unfold headWords require
  rw [if_neg (by omega)]
  rfl

/-- A word is read where it was written. -/
theorem wordAt_encode (before after : List Bytes32) (x : Bytes32) {offset : Nat}
    (hoffset : offset = 32 * before.length) :
    wordAt (encodeWords (before ++ x :: after)) offset = x := by
  have hsplit : encodeWords (before ++ x :: after)
      = encodeWords before ++ (Bytes32.toBytes x ++ encodeWords after) := by
    unfold encodeWords
    rw [List.flatMap_append, List.flatMap_cons]
  unfold wordAt
  rw [hsplit, List.drop_left' ((length_encodeWords before).trans hoffset.symm),
    List.take_left' (Bytes32.toBytes_length x)]
  have hx := x.isLt
  unfold Bytes32.toBytes
  rw [natBE_bytesBE, Nat.mod_eq_of_lt (by norm_num at hx ⊢; omega), BitVec.ofNat_toNat,
    BitVec.setWidth_eq]

/-- **The encoding of words decodes to the words.** -/
theorem headWords_encode (words : List Bytes32) :
    headWords words.length (encodeWords words) = .ok words := by
  have hwords : (List.range words.length).map (fun i => wordAt (encodeWords words) (32 * i))
      = words := by
    refine List.ext_getElem (by simp) ?_
    intro i _ hi
    rw [List.getElem_map, List.getElem_range]
    -- the words before the one at `i`, and those after it
    conv_lhs => rw [← List.take_append_drop i words, List.drop_eq_getElem_cons hi]
    refine wordAt_encode _ _ _ ?_
    rw [List.length_take, Nat.min_eq_left hi.le]
  unfold headWords require
  rw [if_pos (length_encodeWords words).ge]
  show Except.ok _ = _
  rw [hwords]

/-! ## §2. Dispatch. -/

/-- The first four bytes of a call. -/
abbrev Selector := BitVec 32

/-- The selector of call data. -/
def selectorOf (data : List Byte) : Selector := BitVec.ofNat 32 (natBE (data.take 4))

/-- The selector of a signature, as bytes. -/
def selectorBytes (signature : List Byte) : List Byte :=
  (Bytes32.toBytes (keccak256 signature)).take 4

theorem length_selectorBytes (signature : List Byte) : (selectorBytes signature).length = 4 := by
  unfold selectorBytes
  rw [List.length_take, Bytes32.toBytes_length]
  rfl

/-- A function behind its selector: called by `msg` with a value and the argument bytes. -/
abbrev Entry (σ : Type) := Msg → Nat → List Byte → σ → Except Revert σ

/-- The functions of a contract, and what it does with a plain transfer and with data that
selects no function. -/
structure Interface (σ : Type) where
  functions : List (Selector × Entry σ)
  receive : Nat → σ → Except Revert σ
  fallback : Nat → σ → Except Revert σ

variable {σ : Type}

/-- A call by its data. -/
def Interface.call (I : Interface σ) (msg : Msg) (value : Nat) (data : List Byte) (s : σ) :
    Except Revert σ :=
  match if 4 ≤ data.length then I.functions.lookup (selectorOf data) else none with
  | some f => f msg value (data.drop 4) s
  | none => if data = [] then I.receive value s else I.fallback value s

section

variable {I : Interface σ} {selector args : List Byte} (hlen : selector.length = 4)
include hlen

/-- Arguments do not matter for the selector. -/
theorem selectorOf_append : selectorOf (selector ++ args) = selectorOf selector := by
  unfold selectorOf
  rw [List.take_left' hlen, List.take_of_length_le hlen.le]

/-- **The selected function runs on the bytes behind its selector.** -/
theorem call_select {f : Entry σ} (hf : I.functions.lookup (selectorOf selector) = some f)
    (msg : Msg) (value : Nat) (s : σ) :
    I.call msg value (selector ++ args) s = f msg value args s := by
  have hfour : 4 ≤ (selector ++ args).length := by
    rw [List.length_append]
    omega
  unfold Interface.call
  rw [if_pos hfour, selectorOf_append hlen, hf]
  show f msg value ((selector ++ args).drop 4) s = _
  rw [List.drop_left' hlen]

/-- **Bytes that select nothing.** -/
theorem call_fallback (hnone : I.functions.lookup (selectorOf selector) = none) (msg : Msg)
    (value : Nat) (s : σ) : I.call msg value (selector ++ args) s = I.fallback value s := by
  have hne : selector ++ args ≠ [] := by
    intro h
    rw [(List.append_eq_nil_iff.mp h).1] at hlen
    cases hlen
  unfold Interface.call
  rw [selectorOf_append hlen, hnone, ite_self]
  show (if selector ++ args = [] then _ else _) = _
  rw [if_neg hne]

end

end HZKA.EVM
