/-
  HZKA.Theta.Accounting
  ────────────
  **THE BOOKS OF THE TRANSFER CONTRACT**, at every point of every run on one chain,
  calls made by a payee during its payment included.

  A `Ledger` is the contract together with its history: the ether of plain deposits, the
  burn records redeemed, the serial numbers minted.  `Books n` is the invariant while `n`
  wei of a burn are credited but not yet recorded; between calls `n = 0`:

      balance + Σ redeemed records + Σ minted serial numbers
        = deposits + Σ all burn records + n

    • `books_create`, `books_creates` — one record, and the loop of `burnSplit`;
    • `books_mint`, `books_redeem`    — the two payments;
    • `transfer_accounting`           — the run theorem.
-/
import HZKA.Contracts.Transfer
import HZKA.Lib.Reentrancy
import HZKA.Lib.Totals
import Mathlib.Data.FinEnum
import Mathlib.Data.List.Count

namespace HZKA.Theta

open HZKA.Lib HZKA.EVM HZKA.Groth16Verifier HZKA.TransferContract HZKA.Denomination

/-! ## §1. The contract with its history. -/

/-- The contract with its history. -/
structure Ledger where
  contract : TransferContract
  /-- history: ether received by plain deposits -/
  deposits : Nat
  /-- history: the burn records redeemed, latest first -/
  redeemed : List Bytes32
  /-- history: the serial numbers minted, latest first -/
  minted : List Bytes32

/-- A fresh contract, with nothing in its history. -/
def Ledger.deploy (owner : Address) (vkMint vkRedeem : VerifyingKey) : Ledger :=
  ⟨TransferContract.deploy owner vkMint vkRedeem, 0, [], []⟩

/-- The history after a call that took the contract to `c`. -/
def Ledger.record (call : Call) (c : TransferContract) (l : Ledger) : Ledger :=
  match call with
  | .mint serialNumber _ _ _ => { l with contract := c, minted := serialNumber :: l.minted }
  | .redeem burnId _ _ => { l with contract := c, redeemed := burnId :: l.redeemed }
  | .deposit value => { l with contract := c, deposits := l.deposits + value }
  | _ => { l with contract := c }

/-- A call up to the point where the payee's code takes over.  Whether that code accepts
the payment is the answer given by the move that closes the call. -/
def enter (pairing : PairingCheck) (tx : Tx) (l : Ledger) : Except Revert Ledger := do
  let c ← exec pairing ⟨{ tx.msg with accepts := true }, tx.call⟩ l.contract
  return l.record tx.call c

/-- The calls that hand control to the payee's code. -/
def sends (tx : Tx) : Bool :=
  match tx.call with
  | .mint .. => true
  | .redeem .. => true
  | _ => false

/-- Runs of one contract, reentrant calls included. -/
abbrev step (pairing : PairingCheck) : Move Tx → CallStack Ledger →
    Except Revert (CallStack Ledger) :=
  move (enter pairing) sends

variable {pairing : PairingCheck}

/-- What a call went through. -/
theorem enter_eq_ok {tx : Tx} {l l' : Ledger} :
    enter pairing tx l = .ok l'
      ↔ ∃ c, exec pairing ⟨{ tx.msg with accepts := true }, tx.call⟩ l.contract = .ok c
        ∧ l' = l.record tx.call c := by
  unfold enter
  rw [bind_eq_ok]
  refine exists_congr (fun c => and_congr_right (fun _ => ?_))
  exact pure_eq_ok.trans eq_comm

/-! ## §2. The invariant. -/

/-- What was paid back for a record. -/
def redeemedAmount (record : BurnRecord) : Nat := if record.isRedeemed then record.amount else 0

/-- What was paid under a serial number. -/
def mintedAmount (c : TransferContract) (serialNumber : Bytes32) : Nat :=
  if c.mintedSerialNumbers serialNumber then (c.mints serialNumber).amount else 0

/-- All ether ever burned. -/
noncomputable def burnTotal (c : TransferContract) : Nat := total (fun id => (c.burns id).amount)

/-- All ether paid back. -/
noncomputable def redeemedTotal (c : TransferContract) : Nat :=
  total (fun id => redeemedAmount (c.burns id))

/-- All ether minted. -/
noncomputable def mintedTotal (c : TransferContract) : Nat := total (mintedAmount c)

/-- The accounts; `pending` is credited and not yet recorded. -/
structure Books (pending : Nat) (l : Ledger) : Prop where
  balance : l.contract.balance + redeemedTotal l.contract + mintedTotal l.contract
    = l.deposits + burnTotal l.contract + pending
  redeemed : ∀ id, l.redeemed.count id = (l.contract.burns id).isRedeemed.toNat
  minted : ∀ sn, l.minted.count sn = (l.contract.mintedSerialNumbers sn).toNat
  absent : ∀ id, (l.contract.burns id).amount = 0 → (l.contract.burns id).isRedeemed = false
  unclaimed : ∀ id, (l.contract.burns id).isClaimed = false
  burned : ∀ id, 0 < (l.contract.burns id).amount →
    isValidDenomination (l.contract.burns id).amount = true
  paid : ∀ sn, l.contract.mintedSerialNumbers sn = true →
    isValidDenomination (l.contract.mints sn).amount = true

/-- Fresh books. -/
theorem books_deploy (owner : Address) (vkMint vkRedeem : VerifyingKey) :
    Books 0 (Ledger.deploy owner vkMint vkRedeem) where
  balance := by
    show 0 + total (fun _ : Bytes32 => 0) + total (fun _ : Bytes32 => 0)
      = 0 + total (fun _ : Bytes32 => 0) + 0
    simp
  redeemed := fun _ => rfl
  minted := fun _ => rfl
  absent := fun _ _ => rfl
  unclaimed := fun _ => rfl
  burned := fun _ h => absurd h (lt_irrefl 0)
  paid := fun _ h => absurd h Bool.false_ne_true

/-! ## §3. Burns. -/

/-- The value of a payable call waits to be recorded. -/
theorem books_credit {l : Ledger} (hl : Books 0 l) (value : Nat) :
    Books value { l with contract := credit value l.contract } := by
  refine ⟨?_, hl.redeemed, hl.minted, hl.absent, hl.unclaimed, hl.burned, hl.paid⟩
  have hbalance := hl.balance
  show l.contract.balance + value + redeemedTotal l.contract + mintedTotal l.contract
    = l.deposits + burnTotal l.contract + value
  omega

section

variable {msg : Msg} {hashCommitment : Bytes32} {value : Nat} {c : TransferContract}

/-- A new record adds its amount. -/
theorem burnTotal_afterBurn (hfree : (c.burns (burnKey msg hashCommitment c)).amount = 0) :
    burnTotal (afterBurn msg hashCommitment value c) = burnTotal c + value := by
  have hchange := total_change
    (f := fun id => ((afterBurn msg hashCommitment value c).burns id).amount)
    (g := fun id => (c.burns id).amount) (burnKey msg hashCommitment c)
    (fun id hid => by rw [burns_afterBurn_of_ne hid])
  rw [burns_afterBurn_self, hfree] at hchange
  exact hchange

/-- Where no record was, nothing had been redeemed, and the new record is not. -/
theorem redeemedTotal_afterBurn
    (hnone : (c.burns (burnKey msg hashCommitment c)).isRedeemed = false) :
    redeemedTotal (afterBurn msg hashCommitment value c) = redeemedTotal c := by
  have hchange := total_change
    (f := fun id => redeemedAmount ((afterBurn msg hashCommitment value c).burns id))
    (g := fun id => redeemedAmount (c.burns id)) (burnKey msg hashCommitment c)
    (fun id hid => by rw [burns_afterBurn_of_ne hid])
  have hnew : redeemedAmount (newBurn msg hashCommitment value) = 0 := rfl
  have hold : redeemedAmount (c.burns (burnKey msg hashCommitment c)) = 0 := by
    simp [redeemedAmount, hnone]
  rw [burns_afterBurn_self, hnew, hold] at hchange
  exact hchange

/-- **One record**: `value` of the waiting ether is recorded. -/
theorem books_create {pending : Nat} {l : Ledger} {c' : TransferContract}
    (hl : Books (value + pending) l) (hvalid : isValidDenomination value = true)
    (h : createBurn msg hashCommitment value l.contract = .ok c') :
    Books pending { l with contract := c' } := by
  obtain ⟨hfree, -, rfl⟩ := createBurn_eq_ok.mp h
  have hnone := hl.absent _ hfree
  -- field by field, the new id apart from all others
  refine ⟨?_, ?_, hl.minted, ?_, ?_, ?_, hl.paid⟩
  · show l.contract.balance + redeemedTotal (afterBurn msg hashCommitment value l.contract)
        + mintedTotal l.contract
      = l.deposits + burnTotal (afterBurn msg hashCommitment value l.contract) + pending
    have hbalance := hl.balance
    rw [redeemedTotal_afterBurn hnone, burnTotal_afterBurn hfree]
    omega
  · intro id
    show l.redeemed.count id
      = ((afterBurn msg hashCommitment value l.contract).burns id).isRedeemed.toNat
    by_cases hid : id = burnKey msg hashCommitment l.contract
    · subst hid
      rw [hl.redeemed, hnone, burns_afterBurn_self]
      rfl
    · rw [burns_afterBurn_of_ne hid, hl.redeemed]
  · intro id hzero
    show ((afterBurn msg hashCommitment value l.contract).burns id).isRedeemed = false
    by_cases hid : id = burnKey msg hashCommitment l.contract
    · subst hid
      rw [burns_afterBurn_self]
      rfl
    · have hsame := burns_afterBurn_of_ne hid value
      rw [hsame]
      apply hl.absent
      rw [← hsame]
      exact hzero
  · intro id
    show ((afterBurn msg hashCommitment value l.contract).burns id).isClaimed = false
    by_cases hid : id = burnKey msg hashCommitment l.contract
    · subst hid
      rw [burns_afterBurn_self]
      rfl
    · rw [burns_afterBurn_of_ne hid]
      exact hl.unclaimed id
  · intro id
    show 0 < ((afterBurn msg hashCommitment value l.contract).burns id).amount →
      isValidDenomination
        ((afterBurn msg hashCommitment value l.contract).burns id).amount = true
    by_cases hid : id = burnKey msg hashCommitment l.contract
    · subst hid
      rw [burns_afterBurn_self]
      exact fun _ => hvalid
    · rw [burns_afterBurn_of_ne hid]
      exact hl.burned id

end

/-- **The loop**: record by record, all of the value is recorded. -/
theorem books_creates {msg : Msg} {subs : List (Bytes32 × Nat)} {l : Ledger}
    {c' : TransferContract}
    (hvalid : ∀ sub ∈ subs, isValidDenomination sub.2 = true)
    (hl : Books (subs.map Prod.snd).sum l) (h : createBurns msg subs l.contract = .ok c') :
    Books 0 { l with contract := c' } := by
  induction subs generalizing l with
  | nil =>
    have hc : l.contract = c' := pure_eq_ok.mp h
    rw [← hc]
    exact hl
  | cons sub subs ih =>
    unfold createBurns at h
    rw [List.foldlM_cons, bind_eq_ok] at h
    obtain ⟨c₁, hfirst, hrest⟩ := h
    rw [List.map_cons, List.sum_cons] at hl
    have hstep := books_create hl (hvalid sub List.mem_cons_self) hfirst
    exact ih (l := { l with contract := c₁ })
      (fun s hs => hvalid s (List.mem_cons_of_mem _ hs)) hstep hrest

/-- Burns keep the books. -/
theorem books_burns {msg : Msg} {value : Nat} {l : Ledger} {c' : TransferContract}
    (hl : Books 0 l)
    (h : ∃ subs, Splits value subs ∧ createBurns msg subs (credit value l.contract) = .ok c') :
    Books 0 { l with contract := c' } := by
  obtain ⟨subs, hsplits, hcreate⟩ := h
  have hcredit := books_credit hl value
  rw [← hsplits.sum] at hcredit
  exact books_creates (l := { l with contract := credit (subs.map Prod.snd).sum l.contract })
    hsplits.valid hcredit (by rw [hsplits.sum]; exact hcreate)

/-! ## §4. Payments. -/

/-- A fresh serial number adds the amount paid under it. -/
theorem mintedTotal_afterMint {c : TransferContract} {msg : Msg} {serialNumber : Bytes32}
    {amount : Nat} (hfresh : c.mintedSerialNumbers serialNumber = false) :
    mintedTotal (afterMint msg serialNumber amount c) = mintedTotal c + amount := by
  have hself : mintedAmount (afterMint msg serialNumber amount c) serialNumber = amount := by
    simp [mintedAmount, afterMint]
  have hold : mintedAmount c serialNumber = 0 := by simp [mintedAmount, hfresh]
  have hother : ∀ sn, sn ≠ serialNumber →
      mintedAmount (afterMint msg serialNumber amount c) sn = mintedAmount c sn := by
    intro sn hsn
    simp [mintedAmount, afterMint, Function.update_of_ne hsn]
  have hchange := total_change serialNumber hother
  rw [hself, hold] at hchange
  exact hchange

/-- A mint keeps the books. -/
theorem books_mint {l : Ledger} {msg : Msg} {serialNumber : Bytes32} {amount : Nat}
    {merkleRoot : Bytes32} {proof : Proof} (hl : Books 0 l)
    (hcan : CanMint pairing msg serialNumber amount merkleRoot proof l.contract) :
    Books 0 { l with
      contract := afterMint msg serialNumber amount l.contract
      minted := serialNumber :: l.minted } := by
  refine ⟨?_, hl.redeemed, ?_, hl.absent, hl.unclaimed, hl.burned, ?_⟩
  · show l.contract.balance - amount + redeemedTotal l.contract
        + mintedTotal (afterMint msg serialNumber amount l.contract)
      = l.deposits + burnTotal l.contract + 0
    have hbalance := hl.balance
    have hfunds := hcan.funded
    rw [mintedTotal_afterMint hcan.fresh]
    omega
  · intro sn
    show (serialNumber :: l.minted).count sn
      = ((afterMint msg serialNumber amount l.contract).mintedSerialNumbers sn).toNat
    by_cases hsn : sn = serialNumber
    · subst hsn
      rw [List.count_cons_self, hl.minted, hcan.fresh, minted_afterMint_self]
      rfl
    · rw [List.count_cons_of_ne (fun he => hsn he.symm), minted_afterMint_of_ne hsn, hl.minted]
  · intro sn
    show (afterMint msg serialNumber amount l.contract).mintedSerialNumbers sn = true →
      isValidDenomination
        ((afterMint msg serialNumber amount l.contract).mints sn).amount = true
    by_cases hsn : sn = serialNumber
    · subst hsn
      intro _
      have hrecord : ((afterMint msg sn amount l.contract).mints sn).amount = amount := by
        simp [afterMint]
      rw [hrecord]
      exact hcan.denomination
    · have hrecord : (afterMint msg serialNumber amount l.contract).mints sn
          = l.contract.mints sn := Function.update_of_ne hsn _ _
      rw [minted_afterMint_of_ne hsn, hrecord]
      exact hl.paid sn

/-- A redeem changes no amount. -/
theorem amount_afterRedeem (burnId id : Bytes32) (c : TransferContract) :
    ((afterRedeem burnId c).burns id).amount = (c.burns id).amount := by
  by_cases hid : id = burnId
  · rw [hid, burns_afterRedeem_self]
  · rw [burns_afterRedeem_of_ne hid]

/-- The redeemed record adds its amount. -/
theorem redeemedTotal_afterRedeem {c : TransferContract} {burnId : Bytes32}
    (hnot : (c.burns burnId).isRedeemed = false) :
    redeemedTotal (afterRedeem burnId c) = redeemedTotal c + (c.burns burnId).amount := by
  have hchange := total_change (f := fun id => redeemedAmount ((afterRedeem burnId c).burns id))
    (g := fun id => redeemedAmount (c.burns id)) burnId
    (fun id hid => by rw [burns_afterRedeem_of_ne hid])
  have hself : redeemedAmount ((afterRedeem burnId c).burns burnId) = (c.burns burnId).amount := by
    simp [redeemedAmount]
  have hold : redeemedAmount (c.burns burnId) = 0 := by simp [redeemedAmount, hnot]
  rw [hself, hold] at hchange
  exact hchange

/-- A redeem keeps the books. -/
theorem books_redeem {l : Ledger} {msg : Msg} {burnId serialNumber : Bytes32} {proof : Proof}
    (hl : Books 0 l) (hcan : CanRedeem pairing msg burnId serialNumber proof l.contract) :
    Books 0 { l with
      contract := afterRedeem burnId l.contract
      redeemed := burnId :: l.redeemed } := by
  refine ⟨?_, ?_, hl.minted, ?_, ?_, ?_, hl.paid⟩
  -- the amount leaves the balance and joins what is redeemed
  · have hburned : burnTotal (afterRedeem burnId l.contract) = burnTotal l.contract := by
      unfold burnTotal
      exact congrArg total (funext (fun id => amount_afterRedeem burnId id l.contract))
    show l.contract.balance - (l.contract.burns burnId).amount
        + redeemedTotal (afterRedeem burnId l.contract) + mintedTotal l.contract
      = l.deposits + burnTotal (afterRedeem burnId l.contract) + 0
    have hbalance := hl.balance
    have hfunds := hcan.funded
    rw [hburned, redeemedTotal_afterRedeem hcan.notRedeemed]
    omega
  · intro id
    show (burnId :: l.redeemed).count id
      = ((afterRedeem burnId l.contract).burns id).isRedeemed.toNat
    by_cases hid : id = burnId
    · subst hid
      rw [List.count_cons_self, hl.redeemed, hcan.notRedeemed, burns_afterRedeem_self]
      rfl
    · rw [List.count_cons_of_ne (fun he => hid he.symm), burns_afterRedeem_of_ne hid, hl.redeemed]
  · intro id hzero
    have hzero' : (l.contract.burns id).amount = 0 :=
      (amount_afterRedeem burnId id l.contract).symm.trans hzero
    have hne : id ≠ burnId := by
      intro he
      have hfound := hcan.found
      rw [← he, hzero'] at hfound
      exact lt_irrefl 0 hfound
    show ((afterRedeem burnId l.contract).burns id).isRedeemed = false
    rw [burns_afterRedeem_of_ne hne]
    exact hl.absent id hzero'
  · intro id
    show ((afterRedeem burnId l.contract).burns id).isClaimed = false
    by_cases hid : id = burnId
    · rw [hid, burns_afterRedeem_self]
      exact hcan.notClaimed
    · rw [burns_afterRedeem_of_ne hid]
      exact hl.unclaimed id
  · intro id
    show 0 < ((afterRedeem burnId l.contract).burns id).amount →
      isValidDenomination ((afterRedeem burnId l.contract).burns id).amount = true
    rw [amount_afterRedeem]
    exact hl.burned id

/-! ## §5. Every run. -/

/-- **Each call keeps the books.** -/
theorem books_enter (tx : Tx) (l l' : Ledger) (hl : Books 0 l)
    (h : enter pairing tx l = .ok l') : Books 0 l' := by
  obtain ⟨c, hexec, rfl⟩ := enter_eq_ok.mp h
  obtain ⟨msg, call⟩ := tx
  cases call with
  | setMintVerifyingKey vk =>
    obtain ⟨-, rfl⟩ := setMintVerifyingKey_ok hexec
    exact ⟨hl.balance, hl.redeemed, hl.minted, hl.absent, hl.unclaimed, hl.burned, hl.paid⟩
  | setRedeemVerifyingKey vk =>
    obtain ⟨-, rfl⟩ := setRedeemVerifyingKey_ok hexec
    exact ⟨hl.balance, hl.redeemed, hl.minted, hl.absent, hl.unclaimed, hl.burned, hl.paid⟩
  | burn value hashCommitment => exact books_burns hl (burn_creates hexec)
  | burnSplit value hashCommitments => exact books_burns hl (burnSplit_creates hexec)
  | mint serialNumber amount merkleRoot proof =>
    obtain ⟨hcan, rfl⟩ := mint_eq_ok.mp hexec
    exact books_mint hl hcan
  | redeem burnId serialNumber proof =>
    obtain ⟨hcan, rfl⟩ := redeem_eq_ok.mp hexec
    exact books_redeem hl hcan
  | deposit value =>
    obtain rfl : credit value l.contract = c := Except.ok.inj hexec
    refine ⟨?_, hl.redeemed, hl.minted, hl.absent, hl.unclaimed, hl.burned, hl.paid⟩
    have hbalance := hl.balance
    show l.contract.balance + value + redeemedTotal l.contract + mintedTotal l.contract
      = l.deposits + value + burnTotal l.contract + 0
    omega

/-- What a correct transfer contract guarantees in a state. -/
structure Accounting (l : Ledger) : Prop where
  balance : (l.contract.balance : ℤ)
    = l.deposits + burnTotal l.contract - redeemedTotal l.contract - mintedTotal l.contract
  redeemed_once : ∀ burnId, l.redeemed.count burnId ≤ 1
  minted_once : ∀ serialNumber, l.minted.count serialNumber ≤ 1
  burn_denomination : ∀ burnId, 0 < (l.contract.burns burnId).amount →
    isValidDenomination (l.contract.burns burnId).amount = true
  mint_denomination : ∀ serialNumber, l.contract.mintedSerialNumbers serialNumber = true →
    isValidDenomination (l.contract.mints serialNumber).amount = true

/-- The books give the accounts. -/
theorem accounting_of_books {l : Ledger} (hl : Books 0 l) : Accounting l := by
  refine ⟨?_, ?_, ?_, hl.burned, hl.paid⟩
  · have hbalance := hl.balance
    omega
  · intro id
    rw [hl.redeemed]
    exact Bool.toNat_le _
  · intro sn
    rw [hl.minted]
    exact Bool.toNat_le _

/-- **Every run keeps the books**. -/
theorem run_books (owner : Address) (vkMint vkRedeem : VerifyingKey) (moves : List (Move Tx)) :
    Books 0 (run (step pairing) ⟨Ledger.deploy owner vkMint vkRedeem, []⟩ moves).current :=
  reentrant_invariant books_enter moves (books_deploy owner vkMint vkRedeem)

/-- **Exact accounting**, whoever calls, in whatever order and depth, and whatever the
verifier accepts. -/
theorem transfer_accounting (pairing : PairingCheck) (owner : Address)
    (vkMint vkRedeem : VerifyingKey) (moves : List (Move Tx)) :
    Accounting (run (step pairing) ⟨Ledger.deploy owner vkMint vkRedeem, []⟩ moves).current :=
  accounting_of_books (run_books owner vkMint vkRedeem moves)

end HZKA.Theta
