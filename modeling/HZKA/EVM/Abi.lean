/-
  HZKA.EVM.Abi — addresses, 32-byte words, the call context and the two ABI
  serializations (`abi.encode`, `abi.encodePacked`) of statically sized
  arguments.

  A `uint256` is a `Nat` below `2^256`; where arithmetic on it can leave the
  range the checked operations of `HZKA.Lib.Revert` are used.  A function that
  is not payable takes no value at all, so `Msg` carries none: payable
  functions receive `value` as an argument of their own.
-/
import HZKA.EVM.Keccak

namespace HZKA.EVM

open HZKA.Lib

/-- An account. -/
abbrev Address := BitVec 160
/-- A storage word. -/
abbrev Bytes32 := BitVec 256

/-- One ether, in wei. -/
def ether : Nat := 10 ^ 18

/-- The context of an external call: caller, block, and whether the caller's
own code accepts a plain transfer sent back to it. -/
structure Msg where
  sender : Address
  number : Nat
  timestamp : Nat
  accepts : Bool
  deriving DecidableEq, Repr

/-! ## §1. ABI encodings. -/

/-- A static argument of a call, with the width it is packed at. -/
inductive AbiArg where
  | address (a : Address)
  | uint256 (n : Nat)
  | bytes32 (b : Bytes32)
  deriving DecidableEq, Repr

/-- `abi.encodePacked` of one argument: 20 bytes for an address, 32 otherwise. -/
def AbiArg.packed : AbiArg → List Byte
  | .address a => bytesBE 20 a
  | .uint256 n => bytesBE 32 (BitVec.ofNat 256 n)
  | .bytes32 b => bytesBE 32 b

/-- `abi.encode` of one argument: always one 32-byte slot. -/
def AbiArg.slot : AbiArg → List Byte
  | .address a => bytesBE 32 (a.setWidth 256)
  | .uint256 n => bytesBE 32 (BitVec.ofNat 256 n)
  | .bytes32 b => bytesBE 32 b

/-- Arguments in their own widths. -/
def abiEncodePacked (args : List AbiArg) : List Byte := args.flatMap AbiArg.packed

/-- Arguments in words. -/
def abiEncode (args : List AbiArg) : List Byte := args.flatMap AbiArg.slot

/-- The 32 bytes of a word, most significant first. -/
def Bytes32.toBytes (b : Bytes32) : List Byte := bytesBE 32 b

@[simp] theorem Bytes32.toBytes_length (b : Bytes32) : (Bytes32.toBytes b).length = 32 :=
  bytesBE_length 32 b

/-- A word is its bytes. -/
theorem Bytes32.toBytes_inj {b c : Bytes32}
    (h : Bytes32.toBytes b = Bytes32.toBytes c) : b = c :=
  bytesBE_inj (n := 32) h

end HZKA.EVM
