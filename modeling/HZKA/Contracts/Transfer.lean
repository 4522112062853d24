/-
  HZKA.Contracts.Transfer
  ────────────
  **THE TRANSFER CONTRACT OF PROTOCOL Θ** (`TransferContract.sol`): the owner's two
  key setters, burn, split burn, mint, redeem and plain deposits, as explicit state
  passing with the ether balance as part of the state.

  A plain transfer to the caller succeeds iff the caller's code accepts it and the
  balance covers it.  The payee's code may call back, but every function has made its
  writes by then, so such a run is one of the sequences of calls considered here.

    • `mint_eq_ok`, `redeem_eq_ok` — what a successful call went through, and the
      state it leaves;
    • `exec_effect` — one line per kind of call: what it does to records, serial
      numbers and balance.

  Left out: events and the enumeration views.
-/
import HZKA.Contracts.Denomination
import HZKA.Contracts.Groth16Verifier
import HZKA.Lib.Run
import Mathlib.Logic.Function.Basic

namespace HZKA

open Function
open HZKA.Lib HZKA.EVM HZKA.Groth16Verifier HZKA.Denomination

/-! ## §1. Storage. -/

/-- Ether burned under a commitment. -/
structure BurnRecord where
  sender : Address
  amount : Nat
  hashCommitment : Bytes32
  timeLock : Nat
  isRedeemed : Bool
  isClaimed : Bool
  deriving DecidableEq, Repr

/-- The record an id never written to reads as. -/
def BurnRecord.zero : BurnRecord := ⟨0, 0, 0, 0, false, false⟩

/-- A payment under a serial number. -/
structure MintRecord where
  serialNumber : Bytes32
  receiver : Address
  amount : Nat
  timestamp : Nat
  deriving DecidableEq, Repr

/-- An unset mint. -/
def MintRecord.zero : MintRecord := ⟨0, 0, 0, 0⟩

/-- The storage, with the ether balance. -/
structure TransferContract where
  vk_theta_mint : VerifyingKey
  vk_theta_redeem : VerifyingKey
  burns : Bytes32 → BurnRecord
  mintedSerialNumbers : Bytes32 → Bool
  mints : Bytes32 → MintRecord
  burnIds : List Bytes32
  owner : Address
  /-- `address(this).balance` -/
  balance : Nat

namespace TransferContract

/-- One hour. -/
def DEFAULT_TIMELOCK : Nat := 3600

/-- The contract as deployed, with the keys its owner then sets. -/
def deploy (owner : Address) (vkMint vkRedeem : VerifyingKey) : TransferContract where
  vk_theta_mint := vkMint
  vk_theta_redeem := vkRedeem
  burns := fun _ => BurnRecord.zero
  mintedSerialNumbers := fun _ => false
  mints := fun _ => MintRecord.zero
  burnIds := []
  owner := owner
  balance := 0

/-- `setMintVerifyingKey`: the owner replaces the key mints are verified under. -/
def setMintVerifyingKey (msg : Msg) (vk : VerifyingKey) (c : TransferContract) :
    Except Revert TransferContract := do
  require (msg.sender = c.owner) "Only owner"
  return { c with vk_theta_mint := vk }

/-- `setRedeemVerifyingKey`: the same for redeems. -/
def setRedeemVerifyingKey (msg : Msg) (vk : VerifyingKey) (c : TransferContract) :
    Except Revert TransferContract := do
  require (msg.sender = c.owner) "Only owner"
  return { c with vk_theta_redeem := vk }

/-! ## §2. Burn. -/

/-- The id of the next burn. -/
def burnKey (msg : Msg) (hashCommitment : Bytes32) (c : TransferContract) : Bytes32 :=
  keccak256 (abiEncodePacked [.address msg.sender, .bytes32 hashCommitment,
    .uint256 msg.number, .uint256 c.burnIds.length])

/-- `_createBurn`, the body `burn` and `burnSplit` share. -/
def createBurn (msg : Msg) (hashCommitment : Bytes32) (denomValue : Nat)
    (c : TransferContract) : Except Revert TransferContract := do
  let burnId := burnKey msg hashCommitment c
  require ((c.burns burnId).amount = 0) "Burn ID collision"
  let timeLock ← addU256 msg.timestamp DEFAULT_TIMELOCK
  return { c with
    burns := update c.burns burnId
      { sender := msg.sender
        amount := denomValue
        hashCommitment := hashCommitment
        timeLock := timeLock
        isRedeemed := false
        isClaimed := false }
    burnIds := c.burnIds ++ [burnId] }

/-- The value sent with a payable call is credited first. -/
def credit (value : Nat) (c : TransferContract) : TransferContract :=
  { c with balance := c.balance + value }

/-- Burn one denomination. -/
def burn (msg : Msg) (value : Nat) (hashCommitment : Bytes32) (c : TransferContract) :
    Except Revert TransferContract := do
  require (value > 0) "Must send ETH"
  require (isValidDenomination value = true) "Invalid denomination"
  createBurn msg hashCommitment value (credit value c)

/-- The denomination of each sub-burn, largest tier first. -/
def subBurnValues (denomCounts : List Nat) : Except Revert (List Nat) :=
  [5, 4, 3, 2, 1, 0].foldlM (fun values idx => do
    let denom ← getDenomination idx
    return values ++ List.replicate (denomCounts.getD idx 0) denom) []

/-- Burn a value in as few denominations as it has. -/
def burnSplit (msg : Msg) (value : Nat) (hashCommitments : List Bytes32)
    (c : TransferContract) : Except Revert TransferContract := do
  require (value > 0) "Must send ETH"
  let (denomCounts, remainder) ← decompose value
  require (remainder = 0) "Amount not decomposable into supported denominations"
  let totalSubs ← denomCounts.foldlM addU256 0
  require (hashCommitments.length = totalSubs) "Incorrect number of hash commitments"
  let values ← subBurnValues denomCounts
  (hashCommitments.zip values).foldlM (fun c sub => createBurn msg sub.1 sub.2 c) (credit value c)

/-! ## §3. Mint, redeem, deposit. -/

/-- `msg.sender.call` with `amount` wei. -/
def pay (msg : Msg) (amount : Nat) (c : TransferContract) : Except Revert TransferContract := do
  require (msg.accepts = true ∧ amount ≤ c.balance) "Transfer failed"
  return { c with balance := c.balance - amount }

/-- Public inputs of a mint: `fpk_R` (the caller), `sn`, `v_S`, `root_Burn`. -/
def mintInputs (msg : Msg) (serialNumber : Bytes32) (amount : Nat) (merkleRoot : Bytes32) :
    List Nat :=
  [msg.sender.toNat, serialNumber.toNat, amount, merkleRoot.toNat]

/-- Public inputs of a redeem: `fpk_S` (the caller), `sn`, `v_S`, and the record's hash
commitment in the place of the root. -/
def redeemInputs (msg : Msg) (serialNumber : Bytes32) (record : BurnRecord) : List Nat :=
  [msg.sender.toNat, serialNumber.toNat, record.amount, record.hashCommitment.toNat]

variable (pairing : PairingCheck)

/-- Pay whoever proves a burn on the other chain. -/
def mint (msg : Msg) (serialNumber : Bytes32) (amount : Nat) (merkleRoot : Bytes32)
    (proof : Proof) (c : TransferContract) : Except Revert TransferContract := do
  require (c.mintedSerialNumbers serialNumber = false) "Serial number already used"
  require (isValidDenomination amount = true) "Invalid denomination"
  require (c.balance ≥ amount) "Insufficient contract balance"
  let ok ← verify pairing c.vk_theta_mint proof (mintInputs msg serialNumber amount merkleRoot)
  require (ok = true) "ZKP verification failed"
  pay msg amount { c with
    mintedSerialNumbers := update c.mintedSerialNumbers serialNumber true
    mints := update c.mints serialNumber
      ⟨serialNumber, msg.sender, amount, msg.timestamp⟩ }

/-- Pay the sender back after the time lock. -/
def redeem (msg : Msg) (burnId serialNumber : Bytes32) (proof : Proof) (c : TransferContract) :
    Except Revert TransferContract := do
  let record := c.burns burnId
  require (record.amount > 0) "Burn not found"
  require (record.sender = msg.sender) "Not the sender"
  require (msg.timestamp > record.timeLock) "Time lock not expired"
  require (record.isRedeemed = false) "Already redeemed"
  require (record.isClaimed = false) "Already claimed"
  let ok ← verify pairing c.vk_theta_redeem proof (redeemInputs msg serialNumber record)
  require (ok = true) "ZKP verification failed"
  pay msg record.amount { c with
    burns := update c.burns burnId { record with isRedeemed := true } }

/-- `receive`. -/
def deposit (value : Nat) (c : TransferContract) : Except Revert TransferContract :=
  .ok (credit value c)

/-! ## §4. Transactions. -/

/-- The external functions with their arguments. -/
inductive Call where
  | setMintVerifyingKey (vk : VerifyingKey)
  | setRedeemVerifyingKey (vk : VerifyingKey)
  | burn (value : Nat) (hashCommitment : Bytes32)
  | burnSplit (value : Nat) (hashCommitments : List Bytes32)
  | mint (serialNumber : Bytes32) (amount : Nat) (merkleRoot : Bytes32) (proof : Proof)
  | redeem (burnId serialNumber : Bytes32) (proof : Proof)
  | deposit (value : Nat)
  deriving DecidableEq, Repr

/-- The call is not one of the owner's two. -/
def Call.KeepsKeys : Call → Prop
  | .setMintVerifyingKey _ => False
  | .setRedeemVerifyingKey _ => False
  | _ => True

/-- A call with its sender and block. -/
structure Tx where
  msg : Msg
  call : Call
  deriving DecidableEq, Repr

/-- Dispatch of a transaction. -/
def exec (tx : Tx) (c : TransferContract) : Except Revert TransferContract :=
  match tx.call with
  | .setMintVerifyingKey vk => setMintVerifyingKey tx.msg vk c
  | .setRedeemVerifyingKey vk => setRedeemVerifyingKey tx.msg vk c
  | .burn value hashCommitment => burn tx.msg value hashCommitment c
  | .burnSplit value hashCommitments => burnSplit tx.msg value hashCommitments c
  | .mint serialNumber amount merkleRoot proof =>
    mint pairing tx.msg serialNumber amount merkleRoot proof c
  | .redeem burnId serialNumber proof => redeem pairing tx.msg burnId serialNumber proof c
  | .deposit value => deposit value c

/-! ## §5. What a successful call does. -/

variable {pairing}

/-- Only the owner sets the mint key. -/
theorem setMintVerifyingKey_ok {msg : Msg} {vk : VerifyingKey} {c c' : TransferContract}
    (h : setMintVerifyingKey msg vk c = .ok c') :
    msg.sender = c.owner ∧ c' = { c with vk_theta_mint := vk } := by
  obtain ⟨_, howner, h⟩ := bind_eq_ok.mp h
  exact ⟨require_eq_ok.mp howner, (pure_eq_ok.mp h).symm⟩

/-- Only the owner sets the redeem key. -/
theorem setRedeemVerifyingKey_ok {msg : Msg} {vk : VerifyingKey} {c c' : TransferContract}
    (h : setRedeemVerifyingKey msg vk c = .ok c') :
    msg.sender = c.owner ∧ c' = { c with vk_theta_redeem := vk } := by
  obtain ⟨_, howner, h⟩ := bind_eq_ok.mp h
  exact ⟨require_eq_ok.mp howner, (pure_eq_ok.mp h).symm⟩

/-- The record a burn of `denomValue` writes. -/
def newBurn (msg : Msg) (hashCommitment : Bytes32) (denomValue : Nat) : BurnRecord where
  sender := msg.sender
  amount := denomValue
  hashCommitment := hashCommitment
  timeLock := msg.timestamp + DEFAULT_TIMELOCK
  isRedeemed := false
  isClaimed := false

/-- The state a successful `_createBurn` leaves. -/
def afterBurn (msg : Msg) (hashCommitment : Bytes32) (denomValue : Nat) (c : TransferContract) :
    TransferContract :=
  { c with
    burns := update c.burns (burnKey msg hashCommitment c)
      (newBurn msg hashCommitment denomValue)
    burnIds := c.burnIds ++ [burnKey msg hashCommitment c] }

/-- The new key holds the new burn. -/
@[simp] theorem burns_afterBurn_self (msg : Msg) (hashCommitment : Bytes32) (denomValue : Nat)
    (c : TransferContract) :
    (afterBurn msg hashCommitment denomValue c).burns (burnKey msg hashCommitment c)
      = newBurn msg hashCommitment denomValue :=
  update_self ..

/-- Other keys keep their burn. -/
theorem burns_afterBurn_of_ne {id hashCommitment : Bytes32} {msg : Msg} {c : TransferContract}
    (h : id ≠ burnKey msg hashCommitment c) (denomValue : Nat) :
    (afterBurn msg hashCommitment denomValue c).burns id = c.burns id :=
  update_of_ne h _ _

/-- A record is created if its id is free. -/
theorem createBurn_eq_ok {msg : Msg} {hashCommitment : Bytes32} {denomValue : Nat}
    {c c' : TransferContract} :
    createBurn msg hashCommitment denomValue c = .ok c'
      ↔ (c.burns (burnKey msg hashCommitment c)).amount = 0
        ∧ msg.timestamp + DEFAULT_TIMELOCK < 2 ^ 256
        ∧ c' = afterBurn msg hashCommitment denomValue c := by
  constructor
  · intro h
    obtain ⟨_, hfree, h⟩ := bind_eq_ok.mp h
    obtain ⟨timeLock, htime, h⟩ := bind_eq_ok.mp h
    obtain ⟨hlt, rfl⟩ := addU256_eq_ok.mp htime
    exact ⟨require_eq_ok.mp hfree, hlt, (pure_eq_ok.mp h).symm⟩
  · rintro ⟨hfree, hlt, rfl⟩
    have htime : addU256 msg.timestamp DEFAULT_TIMELOCK = .ok (msg.timestamp + DEFAULT_TIMELOCK) :=
      addU256_eq_ok.mpr ⟨hlt, rfl⟩
    rw [createBurn, require_bind hfree, htime]
    rfl

/-- The state a successful mint leaves. -/
def afterMint (msg : Msg) (serialNumber : Bytes32) (amount : Nat) (c : TransferContract) :
    TransferContract :=
  { c with
    mintedSerialNumbers := update c.mintedSerialNumbers serialNumber true
    mints := update c.mints serialNumber
      ⟨serialNumber, msg.sender, amount, msg.timestamp⟩
    balance := c.balance - amount }

/-- A mint marks its serial number. -/
@[simp] theorem minted_afterMint_self (msg : Msg) (serialNumber : Bytes32) (amount : Nat)
    (c : TransferContract) :
    (afterMint msg serialNumber amount c).mintedSerialNumbers serialNumber = true :=
  update_self ..

/-- Other serial numbers keep their mark. -/
theorem minted_afterMint_of_ne {sn serialNumber : Bytes32} (h : sn ≠ serialNumber) (msg : Msg)
    (amount : Nat) (c : TransferContract) :
    (afterMint msg serialNumber amount c).mintedSerialNumbers sn = c.mintedSerialNumbers sn :=
  update_of_ne h _ _

/-- The guards of `mint`. -/
structure CanMint (pairing : PairingCheck) (msg : Msg) (serialNumber : Bytes32) (amount : Nat)
    (merkleRoot : Bytes32) (proof : Proof) (c : TransferContract) : Prop where
  fresh : c.mintedSerialNumbers serialNumber = false
  denomination : isValidDenomination amount = true
  funded : amount ≤ c.balance
  verified : verify pairing c.vk_theta_mint proof (mintInputs msg serialNumber amount merkleRoot)
    = .ok true
  accepts : msg.accepts = true

/-- Exactly these calls mint. -/
theorem mint_eq_ok {msg : Msg} {serialNumber : Bytes32} {amount : Nat} {merkleRoot : Bytes32}
    {proof : Proof} {c c' : TransferContract} :
    mint pairing msg serialNumber amount merkleRoot proof c = .ok c'
      ↔ CanMint pairing msg serialNumber amount merkleRoot proof c
        ∧ c' = afterMint msg serialNumber amount c := by
  constructor
  · intro h
    obtain ⟨_, hfresh, h⟩ := bind_eq_ok.mp h
    obtain ⟨_, hdenom, h⟩ := bind_eq_ok.mp h
    obtain ⟨_, hfunds, h⟩ := bind_eq_ok.mp h
    obtain ⟨ok, hverify, h⟩ := bind_eq_ok.mp h
    obtain ⟨_, hok, h⟩ := bind_eq_ok.mp h
    obtain ⟨_, hpay, h⟩ := bind_eq_ok.mp h
    rw [require_eq_ok] at hfresh hdenom hfunds hok hpay
    rw [hok] at hverify
    exact ⟨⟨hfresh, hdenom, hfunds, hverify, hpay.1⟩, (pure_eq_ok.mp h).symm⟩
  · rintro ⟨⟨hfresh, hdenom, hfunds, hverify, haccepts⟩, rfl⟩
    rw [mint, require_bind hfresh, require_bind hdenom, require_bind hfunds, hverify, ok_bind,
      require_bind rfl, pay, require_bind ⟨haccepts, hfunds⟩]
    rfl

/-- The state a successful redeem leaves. -/
def afterRedeem (burnId : Bytes32) (c : TransferContract) : TransferContract :=
  { c with
    burns := update c.burns burnId { c.burns burnId with isRedeemed := true }
    balance := c.balance - (c.burns burnId).amount }

@[simp] theorem burns_afterRedeem_self (burnId : Bytes32) (c : TransferContract) :
    (afterRedeem burnId c).burns burnId = { c.burns burnId with isRedeemed := true } :=
  update_self ..

/-- Other burns keep their record. -/
theorem burns_afterRedeem_of_ne {id burnId : Bytes32} (h : id ≠ burnId) (c : TransferContract) :
    (afterRedeem burnId c).burns id = c.burns id :=
  update_of_ne h _ _

/-- The guards of `redeem`. -/
structure CanRedeem (pairing : PairingCheck) (msg : Msg) (burnId serialNumber : Bytes32)
    (proof : Proof) (c : TransferContract) : Prop where
  found : 0 < (c.burns burnId).amount
  sender : (c.burns burnId).sender = msg.sender
  expired : (c.burns burnId).timeLock < msg.timestamp
  notRedeemed : (c.burns burnId).isRedeemed = false
  notClaimed : (c.burns burnId).isClaimed = false
  verified : verify pairing c.vk_theta_redeem proof
    (redeemInputs msg serialNumber (c.burns burnId)) = .ok true
  funded : (c.burns burnId).amount ≤ c.balance
  accepts : msg.accepts = true

/-- Exactly these calls redeem. -/
theorem redeem_eq_ok {msg : Msg} {burnId serialNumber : Bytes32} {proof : Proof}
    {c c' : TransferContract} :
    redeem pairing msg burnId serialNumber proof c = .ok c'
      ↔ CanRedeem pairing msg burnId serialNumber proof c ∧ c' = afterRedeem burnId c := by
  constructor
  · intro h
    obtain ⟨_, hfound, h⟩ := bind_eq_ok.mp h
    obtain ⟨_, hsender, h⟩ := bind_eq_ok.mp h
    obtain ⟨_, htime, h⟩ := bind_eq_ok.mp h
    obtain ⟨_, hred, h⟩ := bind_eq_ok.mp h
    obtain ⟨_, hcl, h⟩ := bind_eq_ok.mp h
    obtain ⟨ok, hverify, h⟩ := bind_eq_ok.mp h
    obtain ⟨_, hok, h⟩ := bind_eq_ok.mp h
    obtain ⟨_, hpay, h⟩ := bind_eq_ok.mp h
    rw [require_eq_ok] at hfound hsender htime hred hcl hok hpay
    rw [hok] at hverify
    exact ⟨⟨hfound, hsender, htime, hred, hcl, hverify, hpay.2, hpay.1⟩, (pure_eq_ok.mp h).symm⟩
  · rintro ⟨⟨hfound, hsender, htime, hred, hcl, hverify, hfunds, haccepts⟩, rfl⟩
    rw [redeem, require_bind hfound, require_bind hsender, require_bind htime, require_bind hred,
      require_bind hcl, hverify, ok_bind, require_bind rfl, pay,
      require_bind ⟨haccepts, hfunds⟩]
    rfl

/-- What burns leave alone, and that they only add fresh records. -/
structure BurnFrame (c c' : TransferContract) : Prop where
  minted : c'.mintedSerialNumbers = c.mintedSerialNumbers
  mints : c'.mints = c.mints
  kept : ∀ id, 0 < (c.burns id).amount → c'.burns id = c.burns id
  fresh : ∀ id, (c.burns id).amount = 0 →
    c'.burns id = c.burns id ∨ (c'.burns id).isRedeemed = false ∧ (c'.burns id).isClaimed = false

theorem BurnFrame.refl (c : TransferContract) : BurnFrame c c :=
  ⟨rfl, rfl, fun _ _ => rfl, fun _ _ => Or.inl rfl⟩

/-- Burns compose. -/
theorem BurnFrame.trans {c c' c'' : TransferContract} (h : BurnFrame c c')
    (h' : BurnFrame c' c'') : BurnFrame c c'' := by
  refine ⟨h'.minted.trans h.minted, h'.mints.trans h.mints, ?_, ?_⟩
  · intro id hid
    have hsame := h.kept id hid
    rw [h'.kept id (by rw [hsame]; exact hid), hsame]
  · intro id hid
    rcases Nat.eq_zero_or_pos (c'.burns id).amount with hzero | hpos
    · rcases h'.fresh id hzero with hsame | hnew
      · rcases h.fresh id hid with hsame' | hnew'
        · exact Or.inl (hsame.trans hsame')
        · exact Or.inr (by rw [hsame]; exact hnew')
      · exact Or.inr hnew
    · rw [h'.kept id hpos]
      exact h.fresh id hid

/-- One record leaves the rest alone. -/
theorem createBurn_frame {msg : Msg} {hashCommitment : Bytes32} {denomValue : Nat}
    {c c' : TransferContract} (h : createBurn msg hashCommitment denomValue c = .ok c') :
    BurnFrame c c' := by
  obtain ⟨hfree, -, rfl⟩ := createBurn_eq_ok.mp h
  refine ⟨rfl, rfl, ?_, ?_⟩
  · intro id hid
    have hne : id ≠ burnKey msg hashCommitment c := by
      rintro rfl
      omega
    exact burns_afterBurn_of_ne hne _
  · intro id _
    by_cases heq : id = burnKey msg hashCommitment c
    · right
      subst heq
      simp [newBurn]
    · exact Or.inl (burns_afterBurn_of_ne heq _)

/-- So does the credit. -/
theorem credit_frame (value : Nat) (c : TransferContract) : BurnFrame c (credit value c) :=
  ⟨rfl, rfl, fun _ _ => rfl, fun _ _ => Or.inl rfl⟩

/-! ### The records a burn creates. -/

/-- The loop of `burnSplit`: one record per commitment and value. -/
def createBurns (msg : Msg) (subs : List (Bytes32 × Nat)) (c : TransferContract) :
    Except Revert TransferContract :=
  subs.foldlM (fun c sub => createBurn msg sub.1 sub.2 c) c

/-- `subs` splits `value` into denominations. -/
structure Splits (value : Nat) (subs : List (Bytes32 × Nat)) : Prop where
  sum : (subs.map Prod.snd).sum = value
  valid : ∀ sub ∈ subs, isValidDenomination sub.2 = true

/-- Largest tier first, each by its count. -/
theorem subBurnValues_eq (c0 c1 c2 c3 c4 c5 : Nat) :
    subBurnValues [c0, c1, c2, c3, c4, c5]
      = .ok (List.replicate c5 DENOM_6 ++ List.replicate c4 DENOM_5
          ++ List.replicate c3 DENOM_4 ++ List.replicate c2 DENOM_3
          ++ List.replicate c1 DENOM_2 ++ List.replicate c0 DENOM_1) :=
  rfl

/-- All of them are denominations. -/
theorem subBurnValues_valid {denomCounts values : List Nat}
    (h : subBurnValues denomCounts = .ok values) :
    ∀ v ∈ values, isValidDenomination v = true := by
  refine foldlM_invariant
    (P := fun values : List Nat => ∀ v ∈ values, isValidDenomination v = true)
    ?_ _ _ _ (fun v hv => absurd hv List.not_mem_nil) h
  intro values idx values' hvalues hstep v hv
  obtain ⟨denom, hdenom, hstep⟩ := bind_eq_ok.mp hstep
  rw [← pure_eq_ok.mp hstep, List.mem_append] at hv
  rcases hv with hv | hv
  · exact hvalues v hv
  · rw [List.eq_of_mem_replicate hv]
    exact getDenomination_valid hdenom

/-- A successful `burn` creates one record, for the whole value. -/
theorem burn_creates {msg : Msg} {value : Nat} {hashCommitment : Bytes32}
    {c c' : TransferContract} (h : burn msg value hashCommitment c = .ok c') :
    ∃ subs, Splits value subs ∧ createBurns msg subs (credit value c) = .ok c' := by
  obtain ⟨_, -, h⟩ := bind_eq_ok.mp h
  obtain ⟨_, hvalid, h⟩ := bind_eq_ok.mp h
  refine ⟨[(hashCommitment, value)], ⟨by simp, ?_⟩, ?_⟩
  · intro sub hsub
    rw [List.mem_singleton.mp hsub]
    exact require_eq_ok.mp hvalid
  · unfold createBurns
    rw [List.foldlM_cons, h]
    rfl

/-- A successful `burnSplit` creates one record per denomination of the value. -/
theorem burnSplit_creates {msg : Msg} {value : Nat} {hashCommitments : List Bytes32}
    {c c' : TransferContract} (h : burnSplit msg value hashCommitments c = .ok c') :
    ∃ subs, Splits value subs ∧ createBurns msg subs (credit value c) = .ok c' := by
  obtain ⟨_, -, h⟩ := bind_eq_ok.mp h
  obtain ⟨⟨denomCounts, remainder⟩, hdecompose, h⟩ := bind_eq_ok.mp h
  obtain ⟨_, hremainder, h⟩ := bind_eq_ok.mp h
  obtain ⟨totalSubs, htotal, h⟩ := bind_eq_ok.mp h
  obtain ⟨_, hlength, h⟩ := bind_eq_ok.mp h
  obtain ⟨values, hvalues, hloop⟩ := bind_eq_ok.mp h
  rw [require_eq_ok] at hremainder hlength
  have hvalid := subBurnValues_valid hvalues
  obtain ⟨c0, c1, c2, c3, c4, c5, rfl, hsum⟩ := decompose_sum hdecompose
  -- as many values as commitments, so the loop sees every value
  have hcount : totalSubs = c0 + c1 + c2 + c3 + c4 + c5 := by
    have hadd : ([c0, c1, c2, c3, c4, c5].foldlM addU256 0) = .ok totalSubs := htotal
    simp only [List.foldlM_cons, List.foldlM_nil, bind_eq_ok, addU256_eq_ok, pure_eq_ok] at hadd
    obtain ⟨_, ⟨-, rfl⟩, _, ⟨-, rfl⟩, _, ⟨-, rfl⟩, _, ⟨-, rfl⟩, _, ⟨-, rfl⟩, _, ⟨-, rfl⟩, rfl⟩ := hadd
    omega
  have hvalues' := Except.ok.inj ((subBurnValues_eq c0 c1 c2 c3 c4 c5).symm.trans hvalues)
  have hlen : values.length = hashCommitments.length := by
    rw [hlength, hcount, ← hvalues']
    simp only [List.length_append, List.length_replicate]
    omega
  refine ⟨hashCommitments.zip values, ⟨?_, ?_⟩, hloop⟩
  · rw [List.map_snd_zip (le_of_eq hlen), ← hvalues']
    simp only [List.sum_append, List.sum_replicate_nat]
    omega
  · intro sub hsub
    exact hvalid sub.2 (List.of_mem_zip hsub).2

/-- The loop leaves alone what each of its records leaves alone. -/
theorem createBurns_frame {msg : Msg} {subs : List (Bytes32 × Nat)} {c c' : TransferContract}
    (h : createBurns msg subs c = .ok c') : BurnFrame c c' := by
  refine foldlM_invariant (P := BurnFrame c) ?_ _ _ _ (BurnFrame.refl c) h
  intro s sub s' hs hstep
  exact hs.trans (createBurn_frame hstep)

/-- A burn touches no mint and no earlier burn. -/
theorem burn_frame {msg : Msg} {value : Nat} {hashCommitment : Bytes32} {c c' : TransferContract}
    (h : burn msg value hashCommitment c = .ok c') : BurnFrame c c' := by
  obtain ⟨subs, -, hloop⟩ := burn_creates h
  exact (credit_frame value c).trans (createBurns_frame hloop)

/-- Nor does a split burn. -/
theorem burnSplit_frame {msg : Msg} {value : Nat} {hashCommitments : List Bytes32}
    {c c' : TransferContract} (h : burnSplit msg value hashCommitments c = .ok c') :
    BurnFrame c c' := by
  obtain ⟨subs, -, hloop⟩ := burnSplit_creates h
  exact (credit_frame value c).trans (createBurns_frame hloop)

/-- **The effect of a successful call.** -/
inductive Effect (pairing : PairingCheck) (c c' : TransferContract) : Tx → Prop
  /-- A mint marks its serial number and pays. -/
  | mint {msg : Msg} {serialNumber : Bytes32} {amount : Nat} {merkleRoot : Bytes32} {proof : Proof}
      (guards : CanMint pairing msg serialNumber amount merkleRoot proof c)
      (after : c' = afterMint msg serialNumber amount c) :
      Effect pairing c c' ⟨msg, .mint serialNumber amount merkleRoot proof⟩
  /-- A redeem marks its record and pays. -/
  | redeem {msg : Msg} {burnId serialNumber : Bytes32} {proof : Proof}
      (guards : CanRedeem pairing msg burnId serialNumber proof c)
      (after : c' = afterRedeem burnId c) :
      Effect pairing c c' ⟨msg, .redeem burnId serialNumber proof⟩
  /-- Burns and deposits add records and ether, the owner's calls change the keys. -/
  | burn {tx : Tx} (frame : BurnFrame c c')
      (notMint : ∀ sn amount root proof, tx.call ≠ .mint sn amount root proof)
      (notRedeem : ∀ id sn proof, tx.call ≠ .redeem id sn proof) : Effect pairing c c' tx

/-- **Every call is one of these**. -/
theorem exec_effect {tx : Tx} {c c' : TransferContract} (h : exec pairing tx c = .ok c') :
    Effect pairing c c' tx := by
  obtain ⟨msg, call⟩ := tx
  cases call with
  | setMintVerifyingKey vk =>
    obtain ⟨-, rfl⟩ := setMintVerifyingKey_ok h
    exact .burn ⟨rfl, rfl, fun _ _ => rfl, fun _ _ => Or.inl rfl⟩ (by simp) (by simp)
  | setRedeemVerifyingKey vk =>
    obtain ⟨-, rfl⟩ := setRedeemVerifyingKey_ok h
    exact .burn ⟨rfl, rfl, fun _ _ => rfl, fun _ _ => Or.inl rfl⟩ (by simp) (by simp)
  | burn value hashCommitment =>
    exact .burn (burn_frame h) (by simp) (by simp)
  | burnSplit value hashCommitments =>
    exact .burn (burnSplit_frame h) (by simp) (by simp)
  | mint serialNumber amount merkleRoot proof =>
    obtain ⟨hguards, hafter⟩ := mint_eq_ok.mp h
    exact .mint hguards hafter
  | redeem burnId serialNumber proof =>
    obtain ⟨hguards, hafter⟩ := redeem_eq_ok.mp h
    exact .redeem hguards hafter
  | deposit value =>
    have hc' : credit value c = c' := Except.ok.inj h
    exact .burn (hc' ▸ credit_frame value c) (by simp) (by simp)

end TransferContract

end HZKA
