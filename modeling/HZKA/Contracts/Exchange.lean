/-
  HZKA.Contracts.Exchange
  ────────────
  **THE EXCHANGE CONTRACT OF PROTOCOL Φ** (`ExchangeContract.sol`): lock, unlock,
  refund, plain deposits and the owner's key setter.

  `unlock` and `refund` end with a call into the payee's code, and make all their
  writes before it.  They are modelled up to that call, with the ether already debited;
  what the payee's code then does — calling back any number of times, to any depth,
  returning or failing — is the run of a `CallStack`.  So whether a transfer is accepted
  is part of the run, and `msg.accepts` is not read here.

    • `lock_eq_ok`, `unlock_eq_ok`, `refund_eq_ok` — the guards and the state left;
    • `Effect`, `exec_effect` — one line per kind of call.

  Two history variables, read by no function: the plain deposits received and the
  payments made.  Left out: events and views (`verifyPrepare` writes nothing).
-/
import HZKA.Contracts.Denomination
import HZKA.Contracts.Groth16Verifier
import HZKA.Lib.Reentrancy
import Mathlib.Logic.Function.Basic

namespace HZKA

open Function
open HZKA.Lib HZKA.EVM HZKA.Groth16Verifier

/-! ## §1. Storage. -/

/-- A hash time lock. -/
structure LockRecord where
  locker : Address
  amount : Nat
  hashLock : Bytes32
  timeLock : Nat
  isUnlocked : Bool
  isRefunded : Bool
  deriving DecidableEq, Repr

/-- The record an id never written to reads as. -/
def LockRecord.zero : LockRecord := ⟨0, 0, 0, 0, false, false⟩

/-- A lock that was neither unlocked nor refunded. -/
structure LockRecord.Live (record : LockRecord) : Prop where
  found : 0 < record.amount
  notUnlocked : record.isUnlocked = false
  notRefunded : record.isRefunded = false

/-- A payment out of the contract: by an unlock under a serial number, or by a refund. -/
structure Release where
  lockId : Bytes32
  serialNumber : Option Bytes32
  payee : Address
  amount : Nat
  deriving DecidableEq, Repr

/-- The storage, with balance and history. -/
structure ExchangeContract where
  vk_phi_off : VerifyingKey
  vk_phi_on : VerifyingKey
  locks : Bytes32 → LockRecord
  usedSerialNumbers : Bytes32 → Bool
  lockIds : List Bytes32
  owner : Address
  /-- `address(this).balance` -/
  balance : Nat
  /-- history: ether received by plain deposits -/
  deposits : Nat
  /-- history: the payments made, latest first -/
  releases : List Release

namespace ExchangeContract

/-- The contract as deployed. -/
def deploy (owner : Address) (vkOff vkOn : VerifyingKey) : ExchangeContract where
  vk_phi_off := vkOff
  vk_phi_on := vkOn
  locks := fun _ => LockRecord.zero
  usedSerialNumbers := fun _ => false
  lockIds := []
  owner := owner
  balance := 0
  deposits := 0
  releases := []

/-! ## §2. The functions. -/

/-- The owner sets both keys. -/
def setVerifyingKeys (msg : Msg) (vkOff vkOn : VerifyingKey) (c : ExchangeContract) :
    Except Revert ExchangeContract := do
  require (msg.sender = c.owner) "Only owner"
  return { c with vk_phi_off := vkOff, vk_phi_on := vkOn }

/-- The id of the next lock. -/
def lockKey (msg : Msg) (hashLock : Bytes32) (c : ExchangeContract) : Bytes32 :=
  keccak256 (abiEncodePacked [.address msg.sender, .bytes32 hashLock,
    .uint256 msg.number, .uint256 c.lockIds.length])

/-- Lock ether under a hash lock. -/
def lock (msg : Msg) (value : Nat) (hashLock : Bytes32) (timeLockDuration : Nat)
    (c : ExchangeContract) : Except Revert ExchangeContract := do
  require (value > 0) "Must send ETH"
  require (Denomination.isValidDenomination value = true) "Invalid denomination"
  require (timeLockDuration > 0) "Invalid timelock"
  let lockId := lockKey msg hashLock c
  require ((c.locks lockId).amount = 0) "Lock ID collision"
  let timeLock ← addU256 msg.timestamp timeLockDuration
  return { c with
    locks := update c.locks lockId
      { locker := msg.sender
        amount := value
        hashLock := hashLock
        timeLock := timeLock
        isUnlocked := false
        isRefunded := false }
    lockIds := c.lockIds ++ [lockId]
    balance := c.balance + value }

/-- The value handed to the payee's code by `payable(msg.sender).call`. -/
def send (release : Release) (c : ExchangeContract) : Except Revert ExchangeContract := do
  require (release.amount ≤ c.balance) "Transfer failed"
  return { c with
    balance := c.balance - release.amount
    releases := release :: c.releases }

/-- Public inputs of an unlock: `sn`, `v`, `root_Lock`. -/
def unlockInputs (serialNumber : Bytes32) (amount : Nat) (merkleRoot : Bytes32) : List Nat :=
  [serialNumber.toNat, amount, merkleRoot.toNat]

variable (pairing : PairingCheck)

/-- Whoever proves the preimage in time gets the ether. -/
def unlock (msg : Msg) (lockId serialNumber merkleRoot : Bytes32) (proof : Proof)
    (c : ExchangeContract) : Except Revert ExchangeContract := do
  let record := c.locks lockId
  require (record.amount > 0) "Lock not found"
  require (record.isUnlocked = false) "Already unlocked"
  require (record.isRefunded = false) "Already refunded"
  require (msg.timestamp ≤ record.timeLock) "Time lock expired"
  require (c.usedSerialNumbers serialNumber = false) "Serial number already used"
  let ok ← verify pairing c.vk_phi_on proof (unlockInputs serialNumber record.amount merkleRoot)
  require (ok = true) "ZKP verification failed"
  send ⟨lockId, some serialNumber, msg.sender, record.amount⟩ { c with
    locks := update c.locks lockId { record with isUnlocked := true }
    usedSerialNumbers := update c.usedSerialNumbers serialNumber true }

/-- The locker takes it back after the time lock. -/
def refund (msg : Msg) (lockId : Bytes32) (c : ExchangeContract) :
    Except Revert ExchangeContract := do
  let record := c.locks lockId
  require (record.amount > 0) "Lock not found"
  require (record.locker = msg.sender) "Not the locker"
  require (msg.timestamp > record.timeLock) "Time lock not expired"
  require (record.isUnlocked = false) "Already unlocked"
  require (record.isRefunded = false) "Already refunded"
  send ⟨lockId, none, msg.sender, record.amount⟩ { c with
    locks := update c.locks lockId { record with isRefunded := true } }

/-- `receive`. -/
def deposit (value : Nat) (c : ExchangeContract) : Except Revert ExchangeContract :=
  .ok { c with balance := c.balance + value, deposits := c.deposits + value }

/-! ## §3. Transactions. -/

/-- The external functions with their arguments. -/
inductive Call where
  | setVerifyingKeys (vkOff vkOn : VerifyingKey)
  | lock (value : Nat) (hashLock : Bytes32) (timeLockDuration : Nat)
  | unlock (lockId serialNumber merkleRoot : Bytes32) (proof : Proof)
  | refund (lockId : Bytes32)
  | deposit (value : Nat)
  deriving DecidableEq, Repr

/-- A call with its sender and block. -/
structure Tx where
  msg : Msg
  call : Call
  deriving DecidableEq, Repr

/-- Dispatch of a transaction. -/
def exec (tx : Tx) (c : ExchangeContract) : Except Revert ExchangeContract :=
  match tx.call with
  | .setVerifyingKeys vkOff vkOn => setVerifyingKeys tx.msg vkOff vkOn c
  | .lock value hashLock timeLockDuration => lock tx.msg value hashLock timeLockDuration c
  | .unlock lockId serialNumber merkleRoot proof =>
    unlock pairing tx.msg lockId serialNumber merkleRoot proof c
  | .refund lockId => refund tx.msg lockId c
  | .deposit value => deposit value c

/-- The calls that hand control to the payee's code. -/
def sends (tx : Tx) : Bool :=
  match tx.call with
  | .unlock .. => true
  | .refund _ => true
  | _ => false

/-- Runs of the contract, reentrant calls included. -/
abbrev step : Move Tx → CallStack ExchangeContract → Except Revert (CallStack ExchangeContract) :=
  move (exec pairing) sends

/-! ## §4. What a successful call does. -/

variable {pairing}

/-- The record a lock writes. -/
def newLock (msg : Msg) (value : Nat) (hashLock : Bytes32) (timeLockDuration : Nat) :
    LockRecord where
  locker := msg.sender
  amount := value
  hashLock := hashLock
  timeLock := msg.timestamp + timeLockDuration
  isUnlocked := false
  isRefunded := false

/-- The state a successful lock leaves. -/
def afterLock (msg : Msg) (value : Nat) (hashLock : Bytes32) (timeLockDuration : Nat)
    (c : ExchangeContract) : ExchangeContract :=
  { c with
    locks := update c.locks (lockKey msg hashLock c)
      (newLock msg value hashLock timeLockDuration)
    lockIds := c.lockIds ++ [lockKey msg hashLock c]
    balance := c.balance + value }

/-- The new key holds the new lock. -/
@[simp] theorem locks_afterLock_self (msg : Msg) (value : Nat) (hashLock : Bytes32)
    (timeLockDuration : Nat) (c : ExchangeContract) :
    (afterLock msg value hashLock timeLockDuration c).locks (lockKey msg hashLock c)
      = newLock msg value hashLock timeLockDuration :=
  update_self ..

/-- Other keys keep their lock. -/
theorem locks_afterLock_of_ne {id hashLock : Bytes32} {msg : Msg} {c : ExchangeContract}
    (h : id ≠ lockKey msg hashLock c) (value timeLockDuration : Nat) :
    (afterLock msg value hashLock timeLockDuration c).locks id = c.locks id :=
  update_of_ne h _ _

/-- Exactly these calls lock. -/
theorem lock_eq_ok {msg : Msg} {value : Nat} {hashLock : Bytes32} {timeLockDuration : Nat}
    {c c' : ExchangeContract} :
    lock msg value hashLock timeLockDuration c = .ok c'
      ↔ Denomination.isValidDenomination value = true ∧ 0 < timeLockDuration
        ∧ (c.locks (lockKey msg hashLock c)).amount = 0
        ∧ msg.timestamp + timeLockDuration < 2 ^ 256
        ∧ c' = afterLock msg value hashLock timeLockDuration c := by
  constructor
  · intro h
    obtain ⟨_, -, h⟩ := bind_eq_ok.mp h
    obtain ⟨_, hvalid, h⟩ := bind_eq_ok.mp h
    obtain ⟨_, hdur, h⟩ := bind_eq_ok.mp h
    obtain ⟨_, hfree, h⟩ := bind_eq_ok.mp h
    obtain ⟨timeLock, htime, h⟩ := bind_eq_ok.mp h
    obtain ⟨hlt, rfl⟩ := addU256_eq_ok.mp htime
    rw [require_eq_ok] at hvalid hdur hfree
    exact ⟨hvalid, hdur, hfree, hlt, (pure_eq_ok.mp h).symm⟩
  · rintro ⟨hvalid, hdur, hfree, hlt, rfl⟩
    have hpos : value > 0 := Denomination.isValidDenomination_pos hvalid
    have htime : addU256 msg.timestamp timeLockDuration = .ok (msg.timestamp + timeLockDuration) :=
      addU256_eq_ok.mpr ⟨hlt, rfl⟩
    rw [lock, require_bind hpos, require_bind hvalid, require_bind hdur, require_bind hfree, htime]
    rfl

/-- What `unlock` asks of the record at time `t`. -/
def UnlockEligible (t : Nat) (record : LockRecord) : Prop := record.Live ∧ t ≤ record.timeLock

/-- What `refund` asks of the record at time `t`. -/
def RefundEligible (t : Nat) (record : LockRecord) : Prop := record.Live ∧ record.timeLock < t

/-- The state `unlock` hands to the payee's code. -/
def afterUnlock (msg : Msg) (lockId serialNumber : Bytes32) (c : ExchangeContract) :
    ExchangeContract :=
  { c with
    locks := update c.locks lockId { c.locks lockId with isUnlocked := true }
    usedSerialNumbers := update c.usedSerialNumbers serialNumber true
    balance := c.balance - (c.locks lockId).amount
    releases := ⟨lockId, some serialNumber, msg.sender, (c.locks lockId).amount⟩ :: c.releases }

/-- The guards of `unlock`, funds apart. -/
structure CanUnlock (pairing : PairingCheck) (msg : Msg)
    (lockId serialNumber merkleRoot : Bytes32) (proof : Proof) (c : ExchangeContract) : Prop where
  eligible : UnlockEligible msg.timestamp (c.locks lockId)
  fresh : c.usedSerialNumbers serialNumber = false
  verified : verify pairing c.vk_phi_on proof
    (unlockInputs serialNumber (c.locks lockId).amount merkleRoot) = .ok true

/-- Exactly these calls unlock. -/
theorem unlock_eq_ok {msg : Msg} {lockId serialNumber merkleRoot : Bytes32} {proof : Proof}
    {c c' : ExchangeContract} :
    unlock pairing msg lockId serialNumber merkleRoot proof c = .ok c'
      ↔ CanUnlock pairing msg lockId serialNumber merkleRoot proof c
        ∧ (c.locks lockId).amount ≤ c.balance ∧ c' = afterUnlock msg lockId serialNumber c := by
  constructor
  · intro h
    obtain ⟨_, hfound, h⟩ := bind_eq_ok.mp h
    obtain ⟨_, hunl, h⟩ := bind_eq_ok.mp h
    obtain ⟨_, href, h⟩ := bind_eq_ok.mp h
    obtain ⟨_, htime, h⟩ := bind_eq_ok.mp h
    obtain ⟨_, hfresh, h⟩ := bind_eq_ok.mp h
    obtain ⟨ok, hverify, h⟩ := bind_eq_ok.mp h
    obtain ⟨_, hok, h⟩ := bind_eq_ok.mp h
    obtain ⟨_, hfunds, h⟩ := bind_eq_ok.mp h
    rw [require_eq_ok] at hfound hunl href htime hfresh hok hfunds
    rw [hok] at hverify
    exact ⟨⟨⟨⟨hfound, hunl, href⟩, htime⟩, hfresh, hverify⟩, hfunds, (pure_eq_ok.mp h).symm⟩
  · rintro ⟨⟨⟨⟨hfound, hunl, href⟩, htime⟩, hfresh, hverify⟩, hfunds, rfl⟩
    rw [unlock, require_bind hfound, require_bind hunl, require_bind href, require_bind htime,
      require_bind hfresh, hverify, ok_bind, require_bind rfl, send, require_bind hfunds]
    rfl

/-- The state `refund` hands to the payee's code. -/
def afterRefund (msg : Msg) (lockId : Bytes32) (c : ExchangeContract) : ExchangeContract :=
  { c with
    locks := update c.locks lockId { c.locks lockId with isRefunded := true }
    balance := c.balance - (c.locks lockId).amount
    releases := ⟨lockId, none, msg.sender, (c.locks lockId).amount⟩ :: c.releases }

/-- The guards of `refund`, funds apart. -/
structure CanRefund (msg : Msg) (lockId : Bytes32) (c : ExchangeContract) : Prop where
  eligible : RefundEligible msg.timestamp (c.locks lockId)
  locker : (c.locks lockId).locker = msg.sender

/-- Exactly these calls refund. -/
theorem refund_eq_ok {msg : Msg} {lockId : Bytes32} {c c' : ExchangeContract} :
    refund msg lockId c = .ok c'
      ↔ CanRefund msg lockId c
        ∧ (c.locks lockId).amount ≤ c.balance ∧ c' = afterRefund msg lockId c := by
  constructor
  · intro h
    obtain ⟨_, hfound, h⟩ := bind_eq_ok.mp h
    obtain ⟨_, hlocker, h⟩ := bind_eq_ok.mp h
    obtain ⟨_, htime, h⟩ := bind_eq_ok.mp h
    obtain ⟨_, hunl, h⟩ := bind_eq_ok.mp h
    obtain ⟨_, href, h⟩ := bind_eq_ok.mp h
    obtain ⟨_, hfunds, h⟩ := bind_eq_ok.mp h
    rw [require_eq_ok] at hfound hlocker htime hunl href hfunds
    exact ⟨⟨⟨⟨hfound, hunl, href⟩, htime⟩, hlocker⟩, hfunds, (pure_eq_ok.mp h).symm⟩
  · rintro ⟨⟨⟨⟨hfound, hunl, href⟩, htime⟩, hlocker⟩, hfunds, rfl⟩
    rw [refund, require_bind hfound, require_bind hlocker, require_bind htime, require_bind hunl,
      require_bind href, send, require_bind hfunds]
    rfl

/-- **The effect of a successful call.** -/
inductive Effect (pairing : PairingCheck) (c : ExchangeContract) : Tx → ExchangeContract → Prop
  | setVerifyingKeys {msg : Msg} {vkOff vkOn : VerifyingKey} (owner : msg.sender = c.owner) :
      Effect pairing c ⟨msg, .setVerifyingKeys vkOff vkOn⟩
        { c with vk_phi_off := vkOff, vk_phi_on := vkOn }
  | lock {msg : Msg} {value : Nat} {hashLock : Bytes32} {timeLockDuration : Nat}
      (valid : Denomination.isValidDenomination value = true)
      (fresh : (c.locks (lockKey msg hashLock c)).amount = 0) :
      Effect pairing c ⟨msg, .lock value hashLock timeLockDuration⟩
        (afterLock msg value hashLock timeLockDuration c)
  | unlock {msg : Msg} {lockId serialNumber merkleRoot : Bytes32} {proof : Proof}
      (guards : CanUnlock pairing msg lockId serialNumber merkleRoot proof c)
      (funded : (c.locks lockId).amount ≤ c.balance) :
      Effect pairing c ⟨msg, .unlock lockId serialNumber merkleRoot proof⟩
        (afterUnlock msg lockId serialNumber c)
  | refund {msg : Msg} {lockId : Bytes32} (guards : CanRefund msg lockId c)
      (funded : (c.locks lockId).amount ≤ c.balance) :
      Effect pairing c ⟨msg, .refund lockId⟩ (afterRefund msg lockId c)
  | deposit {msg : Msg} {value : Nat} :
      Effect pairing c ⟨msg, .deposit value⟩
        { c with balance := c.balance + value, deposits := c.deposits + value }

/-- **Every call is one of these**. -/
theorem exec_effect {tx : Tx} {c c' : ExchangeContract} (h : exec pairing tx c = .ok c') :
    Effect pairing c tx c' := by
  obtain ⟨msg, call⟩ := tx
  cases call with
  | setVerifyingKeys vkOff vkOn =>
    obtain ⟨_, howner, h⟩ := bind_eq_ok.mp h
    rw [← pure_eq_ok.mp h]
    exact .setVerifyingKeys (require_eq_ok.mp howner)
  | lock value hashLock timeLockDuration =>
    obtain ⟨hvalid, -, hfree, -, rfl⟩ := lock_eq_ok.mp h
    exact .lock hvalid hfree
  | unlock lockId serialNumber merkleRoot proof =>
    obtain ⟨hguards, hfunds, rfl⟩ := unlock_eq_ok.mp h
    exact .unlock hguards hfunds
  | refund lockId =>
    obtain ⟨hguards, hfunds, rfl⟩ := refund_eq_ok.mp h
    exact .refund hguards hfunds
  | deposit value =>
    cases h
    exact .deposit

end ExchangeContract

end HZKA
