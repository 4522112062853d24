/-
  HZKA.Theta.Solvency
  ────────────
  **CAN A BURN BE REDEEMED?**  Two things stand between a sender and a burn whose time
  lock is over: the contract must hold the amount, and the verifier must be able to accept
  a proof for it.

  FUNDS.  Mints draw on the same balance as redeems.  By the books,

      balance + Σ minted = deposits + Σ locked burns,

  so the locked burns are covered exactly as long as no more was minted than deposited:

    • `locked_covered_iff` — at every point of a run, iff each mint leaves the locked burns
      covered;
    • `locked_uncovered`   — a burn of 1 ether pays for a mint of 1 ether.

  PROOF.  The commitment of the record is a public input, and `verify` reverts on inputs
  outside the scalar field; `burn` never looks at it:

    • `redeemable_iff`     — a due burn is redeemable iff its commitment is a field element;
    • `commitment_too_big` — a burn that can never be redeemed.
-/
import HZKA.Theta.Accounting
import HZKA.Theta.Backing

namespace HZKA.Theta

open HZKA.Lib HZKA.EVM HZKA.Groth16Verifier HZKA.TransferContract HZKA.Denomination
open HZKA.Circuits

variable {pairing : PairingCheck}

/-! ## §1. What the contract owes to its burns. -/

/-- What a record still locks. -/
def lockedAmount (record : BurnRecord) : Nat :=
  if record.isRedeemed || record.isClaimed then 0 else record.amount

/-- All ether of burns that are neither redeemed nor claimed. -/
noncomputable def lockedTotal (c : TransferContract) : Nat :=
  total (fun id => lockedAmount (c.burns id))

/-- The balance covers the locked burns, all together and so each one. -/
structure Solvent (c : TransferContract) : Prop where
  covered : lockedTotal c ≤ c.balance
  redeemable : ∀ burnId, (c.burns burnId).isRedeemed = false →
    (c.burns burnId).isClaimed = false → (c.burns burnId).amount ≤ c.balance

/-- Covered together, covered alone. -/
theorem solvent_of_covered {c : TransferContract} (h : lockedTotal c ≤ c.balance) : Solvent c := by
  refine ⟨h, ?_⟩
  intro id hred hcl
  have hle := le_total (fun id => lockedAmount (c.burns id)) id
  have hlocked : lockedAmount (c.burns id) = (c.burns id).amount := by
    simp [lockedAmount, hred, hcl]
  unfold lockedTotal at h
  omega

/-- A record's amount is locked or was paid back; no record is ever claimed. -/
theorem burnTotal_eq {l : Ledger} (hl : Books 0 l) :
    burnTotal l.contract = lockedTotal l.contract + redeemedTotal l.contract := by
  unfold burnTotal lockedTotal redeemedTotal
  rw [← total_add]
  refine congrArg total (funext (fun id => ?_))
  have hcl := hl.unclaimed id
  cases hred : (l.contract.burns id).isRedeemed <;> simp [lockedAmount, redeemedAmount, hred, hcl]

/-- Balance, mints, deposits and locks. -/
theorem balance_eq {l : Ledger} (hl : Books 0 l) :
    l.contract.balance + mintedTotal l.contract = l.deposits + lockedTotal l.contract := by
  have hbalance := hl.balance
  have hburned := burnTotal_eq hl
  omega

/-- **Solvency in terms of the books.** -/
theorem solvent_iff {l : Ledger} (hl : Books 0 l) :
    Solvent l.contract ↔ mintedTotal l.contract ≤ l.deposits := by
  have hbalance := balance_eq hl
  constructor
  · intro h
    have hcovered := h.covered
    omega
  · intro h
    apply solvent_of_covered
    omega

/-! ## §2. Which calls keep it. -/

/-- A mint leaves the locked burns covered. -/
def MintCovered (l : Ledger) (tx : Tx) : Prop :=
  ∀ serialNumber amount merkleRoot proof, tx.call = .mint serialNumber amount merkleRoot proof →
    lockedTotal l.contract + amount ≤ l.contract.balance

/-- Burns mint nothing. -/
theorem mintedTotal_frame {c c' : TransferContract} (h : BurnFrame c c') :
    mintedTotal c' = mintedTotal c := by
  unfold mintedTotal
  refine congrArg total (funext (fun sn => ?_))
  unfold mintedAmount
  rw [h.minted, h.mints]

/-- **One call** keeps the contract solvent exactly when it is no mint beyond the cover. -/
theorem solvent_enter_iff (tx : Tx) (l l' : Ledger) (hl : Books 0 l) (hs : Solvent l.contract)
    (h : enter pairing tx l = .ok l') : Solvent l'.contract ↔ MintCovered l tx := by
  have hl' := books_enter tx l l' hl h
  have hbefore := (solvent_iff hl).mp hs
  have hbalance := balance_eq hl
  rw [solvent_iff hl']
  obtain ⟨c, hexec, rfl⟩ := enter_eq_ok.mp h
  obtain ⟨msg, call⟩ := tx
  -- only a mint moves the minted total; all other calls keep the inequality
  cases call with
  | setMintVerifyingKey vk =>
    obtain ⟨-, rfl⟩ := setMintVerifyingKey_ok hexec
    exact iff_of_true hbefore (fun _ _ _ _ hcall => by cases hcall)
  | setRedeemVerifyingKey vk =>
    obtain ⟨-, rfl⟩ := setRedeemVerifyingKey_ok hexec
    exact iff_of_true hbefore (fun _ _ _ _ hcall => by cases hcall)
  | burn value hashCommitment =>
    have hsame : mintedTotal c = mintedTotal l.contract := mintedTotal_frame (burn_frame hexec)
    refine iff_of_true ?_ (fun _ _ _ _ hcall => by cases hcall)
    show mintedTotal c ≤ l.deposits
    omega
  | burnSplit value hashCommitments =>
    have hsame : mintedTotal c = mintedTotal l.contract :=
      mintedTotal_frame (burnSplit_frame hexec)
    refine iff_of_true ?_ (fun _ _ _ _ hcall => by cases hcall)
    show mintedTotal c ≤ l.deposits
    omega
  | mint serialNumber amount merkleRoot proof =>
    obtain ⟨hcan, rfl⟩ := mint_eq_ok.mp hexec
    have hminted : mintedTotal
        (afterMint { msg with accepts := true } serialNumber amount l.contract)
        = mintedTotal l.contract + amount := mintedTotal_afterMint hcan.fresh
    show mintedTotal (afterMint { msg with accepts := true } serialNumber amount l.contract)
      ≤ l.deposits ↔ _
    constructor
    · intro hle sn amount' root proof' hcall
      obtain ⟨-, rfl, -, -⟩ := Call.mint.inj hcall
      omega
    · intro hcovered
      have hroom := hcovered serialNumber amount merkleRoot proof rfl
      omega
  | redeem burnId serialNumber proof =>
    obtain ⟨-, rfl⟩ := redeem_eq_ok.mp hexec
    exact iff_of_true hbefore (fun _ _ _ _ hcall => by cases hcall)
  | deposit value =>
    obtain rfl : credit value l.contract = c := Except.ok.inj hexec
    refine iff_of_true ?_ (fun _ _ _ _ hcall => by cases hcall)
    show mintedTotal l.contract ≤ l.deposits + value
    omega

/-! ## §3. A burn of 1 ether. -/

/-- A fresh contract. -/
def ledger₀ : Ledger := Ledger.deploy 1 (emptyKey 4) (emptyKey 4)

/-- `0xA11CE` burns 1 ether under `hashCommitment`. -/
def burnOne (hashCommitment : Bytes32) : Move Tx :=
  .call ⟨senderMsg, .burn DENOM_4 hashCommitment⟩

/-- With one burn. -/
def oneBurn (hashCommitment : Bytes32) : Ledger :=
  { ledger₀ with
    contract := afterBurn senderMsg hashCommitment DENOM_4
      (credit DENOM_4 ledger₀.contract) }

/-- Its id. -/
def oneBurnId (hashCommitment : Bytes32) : Bytes32 :=
  burnKey senderMsg hashCommitment (credit DENOM_4 ledger₀.contract)

theorem run_burnOne (pairing : PairingCheck) (hashCommitment : Bytes32) :
    run (step pairing) ⟨ledger₀, []⟩ [burnOne hashCommitment]
      = ⟨oneBurn hashCommitment, []⟩ := by
  have hburn : burn senderMsg DENOM_4 hashCommitment ledger₀.contract
      = .ok (oneBurn hashCommitment).contract := by
    have hpos := isValidDenomination_pos isValidDenomination_denom4
    rw [burn, require_bind hpos, require_bind isValidDenomination_denom4]
    exact createBurn_eq_ok.mpr ⟨rfl, by decide, rfl⟩
  have henter : enter pairing ⟨senderMsg, .burn DENOM_4 hashCommitment⟩ ledger₀
      = .ok (oneBurn hashCommitment) := enter_eq_ok.mpr ⟨_, hburn, rfl⟩
  exact run_call rfl henter []

theorem burns_oneBurn (hashCommitment : Bytes32) :
    (oneBurn hashCommitment).contract.burns (oneBurnId hashCommitment)
      = newBurn senderMsg hashCommitment DENOM_4 :=
  burns_afterBurn_self ..

/-! ## §4. Whole runs: funds. -/

/-- **Locked burns stay covered exactly in the runs whose mints leave them covered.** -/
theorem locked_covered_iff (pairing : PairingCheck) (owner : Address)
    (vkMint vkRedeem : VerifyingKey) (moves : List (Move Tx)) :
    (∀ k, Solvent (run (step pairing) ⟨Ledger.deploy owner vkMint vkRedeem, []⟩
        (moves.take k)).current.contract)
      ↔ StepsMeet (step pairing) (OnCalls (enter pairing) MintCovered)
          ⟨Ledger.deploy owner vkMint vkRedeem, []⟩ moves := by
  have hbooks := books_deploy owner vkMint vkRedeem
  refine reentrant_invariant_iff (P := Books 0) (Q := fun l => Solvent l.contract)
    books_enter solvent_enter_iff moves hbooks ?_
  exact (solvent_iff hbooks).mpr (by
    show total (fun _ : Bytes32 => 0) ≤ 0
    simp)

/-- The mint of the sample burn of the other chain takes the ether of a burn on this one, under
the sound key of the deployment. -/
theorem locked_uncovered : ¬ ∀ (pairing : PairingCheck) (owner : Address)
    (vkMint vkRedeem : VerifyingKey) (_ : MintWitness pairing vkMint) (moves : List (Move Tx)),
    (∀ tx, Move.call tx ∈ moves → tx.call.KeepsKeys) →
    Solvent (run (step pairing) ⟨Ledger.deploy owner vkMint vkRedeem, []⟩ moves).current.contract := by
  intro hall
  have hsolvent := hall (idealPairing MintStatement) 1 (emptyKey 4) (emptyKey 4)
    (sampleWitness (emptyKey 4)) ([burnOne 42] ++ [.call ⟨receiverMsg,
      .mint 7 DENOM_4 Transfer.sampleRoot.toWord emptyProof⟩])
    (by simp [burnOne, Call.KeepsKeys])
  have hburned : run (step (idealPairing MintStatement))
      ⟨Ledger.deploy 1 (emptyKey 4) (emptyKey 4), []⟩ [burnOne 42] = ⟨oneBurn 42, []⟩ :=
    run_burnOne _ 42
  have hcan : CanMint (idealPairing MintStatement) receiverMsg 7 DENOM_4
      Transfer.sampleRoot.toWord emptyProof (oneBurn 42).contract :=
    ⟨rfl, isValidDenomination_denom4, Nat.le_add_left _ _, sample_verified, rfl⟩
  have hmint : enter (idealPairing MintStatement) ⟨receiverMsg,
      .mint 7 DENOM_4 Transfer.sampleRoot.toWord emptyProof⟩ (oneBurn 42) = .ok _ :=
    enter_eq_ok.mpr ⟨_, mint_eq_ok.mpr ⟨hcan, rfl⟩, rfl⟩
  rw [run_append, hburned, run_cons, run_nil,
    commit_of_ok (move_call_eq_ok.mpr ⟨_, hmint, rfl⟩)] at hsolvent
  -- the burn is still there, the balance is not
  have hrecord := burns_oneBurn 42
  have hle := hsolvent.redeemable (oneBurnId 42) (by
    show ((oneBurn 42).contract.burns (oneBurnId 42)).isRedeemed = false
    rw [hrecord]
    rfl) (by
    show ((oneBurn 42).contract.burns (oneBurnId 42)).isClaimed = false
    rw [hrecord]
    rfl)
  have hzero : ((oneBurn 42).contract.burns (oneBurnId 42)).amount
      ≤ 0 + DENOM_4 - DENOM_4 := hle
  rw [hrecord] at hzero
  have hamount : DENOM_4 ≤ 0 + DENOM_4 - DENOM_4 := hzero
  have hpos := isValidDenomination_pos isValidDenomination_denom4
  omega

/-! ## §5. Whole runs: the proof. -/

/-- The record's sender, calling at the given block and accepting the payment. -/
def ownerMsg (c : TransferContract) (burnId : Bytes32) (number timestamp : Nat) : Msg :=
  ⟨(c.burns burnId).sender, number, timestamp, true⟩

/-- A record that waits for its redeem only. -/
structure Due (c : TransferContract) (burnId : Bytes32) (timestamp : Nat) : Prop where
  found : 0 < (c.burns burnId).amount
  expired : (c.burns burnId).timeLock < timestamp
  notRedeemed : (c.burns burnId).isRedeemed = false
  notClaimed : (c.burns burnId).isClaimed = false
  funded : (c.burns burnId).amount ≤ c.balance

/-- Some serial number of the field and some proof for it redeem the record. -/
def Redeemable (pairing : PairingCheck) (c : TransferContract) (burnId : Bytes32)
    (number timestamp : Nat) : Prop :=
  ∃ (serialNumber : Bytes32) (proof : Proof), serialNumber.toNat < SCALAR_MODULUS
    ∧ pairing c.vk_theta_redeem proof
        (redeemInputs (ownerMsg c burnId number timestamp) serialNumber (c.burns burnId)) = .ok true
    ∧ (redeem pairing (ownerMsg c burnId number timestamp) burnId serialNumber proof c).isOk = true

/-- A redeem key for four inputs, whose pairing equation has a solution for all inputs in
the field. -/
structure SolvableKey (pairing : PairingCheck) (vk : VerifyingKey) : Prop where
  inputs : vk.ic.length = 5
  solvable : ∀ publicInputs : List Nat, publicInputs.length = 4 →
    (∀ x ∈ publicInputs, x < SCALAR_MODULUS) → ∃ proof, pairing vk proof publicInputs = .ok true

theorem address_lt_modulus (a : Address) : a.toNat < SCALAR_MODULUS := by
  have hlt := a.isLt
  unfold SCALAR_MODULUS
  omega

/-- Denominations are in the field. -/
theorem denomination_lt_modulus {amount : Nat}
    (h : isValidDenomination amount = true) : amount < SCALAR_MODULUS := by
  simp only [isValidDenomination, Bool.or_eq_true, beq_iff_eq] at h
  unfold SCALAR_MODULUS
  unfold DENOM_1 DENOM_2 DENOM_3 DENOM_4
    DENOM_5 DENOM_6 at h
  omega

/-- **A due burn is redeemable exactly when its commitment is a field element**, under a solvable
key, be it the deployed one or one the owner set since. -/
theorem redeemable_iff (pairing : PairingCheck) (owner : Address) (vkMint vkRedeem : VerifyingKey)
    (moves : List (Move Tx)) (c : TransferContract)
    (hreach : (run (step pairing) ⟨Ledger.deploy owner vkMint vkRedeem, []⟩
      moves).current.contract = c)
    (hkey : SolvableKey pairing c.vk_theta_redeem) (burnId : Bytes32) (number timestamp : Nat)
    (hdue : Due c burnId timestamp) :
    Redeemable pairing c burnId number timestamp
      ↔ (c.burns burnId).hashCommitment.toNat < SCALAR_MODULUS := by
  have hbooks : Books 0 (run (step pairing) ⟨Ledger.deploy owner vkMint vkRedeem, []⟩
      moves).current := run_books owner vkMint vkRedeem moves
  constructor
  · intro h
    obtain ⟨sn, proof, -, -, hok⟩ := h
    obtain ⟨c', hc'⟩ := exists_of_isOk hok
    -- the commitment is the last of the inputs the verifier checked
    have hrange := (verify_eq_true.mp (redeem_eq_ok.mp hc').1.verified).2.1
    exact hrange _ (by simp [redeemInputs])
  · intro hcommitment
    have hamount : (c.burns burnId).amount < SCALAR_MODULUS := by
      apply denomination_lt_modulus
      have hvalid := hbooks.burned burnId
      rw [hreach] at hvalid
      exact hvalid hdue.found
    have hsn : (0 : Bytes32).toNat < SCALAR_MODULUS := by
      unfold SCALAR_MODULUS
      decide
    have hrange : ∀ x ∈ redeemInputs (ownerMsg c burnId number timestamp) 0 (c.burns burnId),
        x < SCALAR_MODULUS := by
      intro x hx
      simp only [redeemInputs, List.mem_cons, List.not_mem_nil, or_false] at hx
      rcases hx with rfl | rfl | rfl | rfl
      · exact address_lt_modulus _
      · exact hsn
      · exact hamount
      · exact hcommitment
    obtain ⟨proof, hproof⟩ := hkey.solvable _ rfl hrange
    have hverify : verify pairing c.vk_theta_redeem proof
        (redeemInputs (ownerMsg c burnId number timestamp) 0 (c.burns burnId)) = .ok true := by
      refine verify_eq_true.mpr ⟨?_, hrange, hproof⟩
      rw [hkey.inputs]
      rfl
    refine ⟨0, proof, hsn, hproof, isOk_of_eq (redeem_eq_ok.mpr ⟨?_, rfl⟩)⟩
    exact ⟨hdue.found, rfl, hdue.expired, hdue.notRedeemed, hdue.notClaimed, hverify,
      hdue.funded, rfl⟩

/-- A verifier whose pairing equation always has a solution. -/
def openPairing : PairingCheck := fun _ _ _ => .ok true

theorem openPairing_solvable : SolvableKey openPairing (emptyKey 4) :=
  ⟨rfl, fun _ _ _ => ⟨emptyProof, rfl⟩⟩

/-- Its time lock is over. -/
theorem oneBurn_due (hashCommitment : Bytes32) :
    Due (oneBurn hashCommitment).contract (oneBurnId hashCommitment) 3701 := by
  have hrecord := burns_oneBurn hashCommitment
  refine ⟨?_, ?_, ?_, ?_, ?_⟩
  · rw [hrecord]
    exact isValidDenomination_pos isValidDenomination_denom4
  · rw [hrecord]
    show 100 + 3600 < 3701
    omega
  · rw [hrecord]
    rfl
  · rw [hrecord]
    rfl
  · rw [hrecord]
    exact Nat.le_add_left _ _

/-- The burn under commitment 42 is redeemable. -/
theorem oneBurn_redeemable :
    Redeemable openPairing (oneBurn 42).contract (oneBurnId 42) 2 3701 := by
  have hrun : (run (step openPairing) ⟨Ledger.deploy 1 (emptyKey 4) (emptyKey 4), []⟩
      [burnOne 42]).current.contract = (oneBurn 42).contract :=
    congrArg (fun s : CallStack Ledger => s.current.contract) (run_burnOne openPairing 42)
  refine (redeemable_iff openPairing 1 (emptyKey 4) (emptyKey 4) [burnOne 42] _ hrun
    openPairing_solvable (oneBurnId 42) 2 3701 (oneBurn_due 42)).mpr ?_
  rw [burns_oneBurn]
  show (42 : Nat) < SCALAR_MODULUS
  unfold SCALAR_MODULUS
  omega

/-- The burn under commitment `2 ^ 256 - 1` is not. -/
theorem commitment_too_big : ¬ ∀ (pairing : PairingCheck) (owner : Address)
    (vkMint vkRedeem : VerifyingKey) (moves : List (Move Tx)) (burnId : Bytes32)
    (number timestamp : Nat),
      SolvableKey pairing (run (step pairing) ⟨Ledger.deploy owner vkMint vkRedeem, []⟩
        moves).current.contract.vk_theta_redeem →
      Due (run (step pairing) ⟨Ledger.deploy owner vkMint vkRedeem, []⟩ moves).current.contract
        burnId timestamp →
      Redeemable pairing
        (run (step pairing) ⟨Ledger.deploy owner vkMint vkRedeem, []⟩ moves).current.contract
        burnId number timestamp := by
  intro hall
  have hred := hall openPairing 1 (emptyKey 4) (emptyKey 4)
    [burnOne (BitVec.allOnes 256)] (oneBurnId (BitVec.allOnes 256)) 2 3701
  have hrun : run (step openPairing) ⟨Ledger.deploy 1 (emptyKey 4) (emptyKey 4), []⟩
      [burnOne (BitVec.allOnes 256)] = ⟨oneBurn (BitVec.allOnes 256), []⟩ :=
    run_burnOne openPairing _
  rw [hrun] at hred
  obtain ⟨sn, proof, -, -, hok⟩ := hred openPairing_solvable (oneBurn_due _)
  obtain ⟨c', hc'⟩ := exists_of_isOk hok
  have hrange := (verify_eq_true.mp (redeem_eq_ok.mp hc').1.verified).2.1
  have hcommitment := hrange
    ((oneBurn (BitVec.allOnes 256)).contract.burns
      (oneBurnId (BitVec.allOnes 256))).hashCommitment.toNat (by simp [redeemInputs])
  rw [burns_oneBurn] at hcommitment
  have hbig : (BitVec.allOnes 256).toNat < SCALAR_MODULUS := hcommitment
  rw [BitVec.toNat_allOnes] at hbig
  unfold SCALAR_MODULUS at hbig
  omega

end HZKA.Theta
