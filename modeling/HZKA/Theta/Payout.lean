/-
  HZKA.Theta.Payout
  ────────────
  **HOW OFTEN A BURN RECORD IS PAID OUT.**

  `opens sn C` is the relation "serial number `sn` opens commitment `C`", left
  abstract.  A record is paid out by each successful mint, on either chain, of a serial
  number that opens its commitment, and by each successful redeem of the record itself
  (`payouts`).

  The contract keeps `isClaimed`, `isRedeemed` and `mintedSerialNumbers` apart and never
  sets `isClaimed`: a mint does not see redeems, a redeem does not see mints, and neither
  sees the other ledger.  So:

    • `paid_once` — in a run in which every mint and redeem finds no earlier payout
      (`NoEarlierPayout`), each record is paid at most once;
    • `paid_twice` — burn, mint on Chain II, redeem on Chain I after the time lock.
-/
import HZKA.Theta.Backing

namespace HZKA.Theta

open Function
open HZKA.Lib HZKA.EVM HZKA.Groth16Verifier HZKA.TransferContract HZKA.Denomination

variable (opens : Bytes32 → Bytes32 → Prop) [DecidableRel opens]

/-! ## §1. Payouts and the property. -/

/-- What a successful transaction pays out for the record `burnId` of `chain`, whose
commitment is `commitment`. -/
def payouts (chain : Chain) (burnId commitment : Bytes32) (tx : WorldTx) : Nat :=
  match tx.tx.call with
  | .mint serialNumber _ _ _ => if opens serialNumber commitment then 1 else 0
  | .redeem id _ _ => if tx.chain = chain ∧ id = burnId then 1 else 0
  | _ => 0

/-- Each record present at the end was paid out at most once along the run. -/
def PaidOnce (pairing : PairingCheck) (w₀ : World) (txs : List WorldTx) : Prop :=
  ∀ chain burnId,
    0 < ((run (execWorld pairing) w₀ txs chain).burns burnId).amount →
    tally (execWorld pairing) (payouts opens chain burnId
      ((run (execWorld pairing) w₀ txs chain).burns burnId).hashCommitment) w₀ txs ≤ 1

/-- Proofs are accepted only for serial numbers that open a recorded commitment; those of
a redeem open the record's own. -/
def ProofsOpen (pairing : PairingCheck) (w : World) (tx : WorldTx) : Prop :=
  (execWorld pairing tx w).isOk = true →
    match tx.tx.call with
    | .mint serialNumber _ _ _ =>
      ∃ chain id, 0 < ((w chain).burns id).amount
        ∧ opens serialNumber ((w chain).burns id).hashCommitment
    | .redeem id serialNumber _ => opens serialNumber ((w tx.chain).burns id).hashCommitment
    | _ => True

/-- Timestamps on each chain do not decrease. -/
def TimeOrdered (txs : List WorldTx) : Prop :=
  txs.Pairwise (fun a b => a.chain = b.chain → a.tx.msg.timestamp ≤ b.tx.msg.timestamp)

/-- A burn record on either chain has the commitment. -/
def Recorded (w : World) (commitment : Bytes32) : Prop :=
  ∃ chain id, 0 < ((w chain).burns id).amount ∧ ((w chain).burns id).hashCommitment = commitment

/-- The check neither ledger makes, for the commitments on record in `final`: a mint that opens
one finds no other serial number that opens it minted, none at all on the other chain, and no
record of it redeemed; a redeem finds no serial number minted, on either chain, that opens its
record.  (That the same serial number is not minted on the same chain, the code checks.) -/
def NoEarlierPayout (pairing : PairingCheck) (final w : World) (tx : WorldTx) : Prop :=
  (execWorld pairing tx w).isOk = true →
    match tx.tx.call with
    | .mint serialNumber _ _ _ =>
      ∀ commitment, Recorded final commitment → opens serialNumber commitment →
        (∀ chain serialNumber', opens serialNumber' commitment →
          chain ≠ tx.chain ∨ serialNumber' ≠ serialNumber →
          (w chain).mintedSerialNumbers serialNumber' = false)
        ∧ ∀ chain id, ((w chain).burns id).hashCommitment = commitment →
          ((w chain).burns id).isRedeemed = false
    | .redeem id _ _ =>
      ∀ chain serialNumber', opens serialNumber' ((w tx.chain).burns id).hashCommitment →
        (w chain).mintedSerialNumbers serialNumber' = false
    | _ => True

/-! ## §2. What every step keeps. -/

variable {opens} {pairing : PairingCheck}

/-- Minted serial numbers stay minted; records keep amount and commitment, and stay
redeemed. -/
structure Kept (w w' : World) : Prop where
  minted : ∀ chain sn, (w chain).mintedSerialNumbers sn = true →
    (w' chain).mintedSerialNumbers sn = true
  amount : ∀ chain id, 0 < ((w chain).burns id).amount →
    ((w' chain).burns id).amount = ((w chain).burns id).amount
  commitment : ∀ chain id, 0 < ((w chain).burns id).amount →
    ((w' chain).burns id).hashCommitment = ((w chain).burns id).hashCommitment
  redeemed : ∀ chain id, 0 < ((w chain).burns id).amount →
    ((w chain).burns id).isRedeemed = true → ((w' chain).burns id).isRedeemed = true

theorem burns_afterRedeem (burnId id : Bytes32) (c : TransferContract) :
    ((afterRedeem burnId c).burns id).amount = (c.burns id).amount
      ∧ ((afterRedeem burnId c).burns id).hashCommitment = (c.burns id).hashCommitment
      ∧ ((c.burns id).isRedeemed = true → ((afterRedeem burnId c).burns id).isRedeemed = true) := by
  by_cases hid : id = burnId
  · subst hid
    simp
  · simp [burns_afterRedeem_of_ne hid]

/-- Along one chain. -/
theorem effect_kept {c c' : TransferContract} {tx : Tx} (h : Effect pairing c c' tx) :
    (∀ sn, c.mintedSerialNumbers sn = true → c'.mintedSerialNumbers sn = true)
      ∧ ∀ id, 0 < (c.burns id).amount →
        (c'.burns id).amount = (c.burns id).amount
        ∧ (c'.burns id).hashCommitment = (c.burns id).hashCommitment
        ∧ ((c.burns id).isRedeemed = true → (c'.burns id).isRedeemed = true) := by
  cases h with
  | @mint msg serialNumber amount merkleRoot proof guards after =>
    subst after
    refine ⟨?_, fun id _ => ⟨rfl, rfl, fun h => h⟩⟩
    intro sn hsn
    by_cases heq : sn = serialNumber
    · subst heq
      exact minted_afterMint_self ..
    · rw [minted_afterMint_of_ne heq]
      exact hsn
  | redeem guards after =>
    subst after
    exact ⟨fun sn hsn => hsn, fun id _ => burns_afterRedeem _ id c⟩
  | burn frame _ _ =>
    refine ⟨fun sn hsn => ?_, fun id hid => ?_⟩
    · rw [frame.minted]
      exact hsn
    · rw [frame.kept id hid]
      exact ⟨rfl, rfl, fun h => h⟩

/-- Every transaction keeps these. -/
theorem execWorld_kept {tx : WorldTx} {w w' : World} (h : execWorld pairing tx w = .ok w') :
    Kept w w' := by
  have heffect := effect_kept (execWorld_effect h)
  have hother : ∀ chain, chain ≠ tx.chain → w' chain = w chain :=
    fun chain hne => execWorld_other h hne
  refine ⟨?_, ?_, ?_, ?_⟩
  · intro chain sn hsn
    by_cases hc : chain = tx.chain
    · subst hc
      exact heffect.1 sn hsn
    · rw [hother chain hc]
      exact hsn
  · intro chain id hid
    by_cases hc : chain = tx.chain
    · subst hc
      exact (heffect.2 id hid).1
    · rw [hother chain hc]
  · intro chain id hid
    by_cases hc : chain = tx.chain
    · subst hc
      exact (heffect.2 id hid).2.1
    · rw [hother chain hc]
  · intro chain id hid hred
    by_cases hc : chain = tx.chain
    · subst hc
      exact (heffect.2 id hid).2.2 hred
    · rw [hother chain hc]
      exact hred

/-- A transaction that is no redeem of the record leaves an absent or unredeemed record
unredeemed. -/
theorem redeemed_origin {tx : WorldTx} {w w' : World} (h : execWorld pairing tx w = .ok w')
    {chain : Chain} {id : Bytes32} (hred : ((w' chain).burns id).isRedeemed = true) :
    ((w chain).burns id).isRedeemed = true
      ∨ tx.chain = chain ∧ (∃ sn proof, tx.tx.call = .redeem id sn proof)
        ∧ 0 < ((w chain).burns id).amount := by
  by_cases hc : chain = tx.chain
  · subst hc
    have heffect := execWorld_effect h
    revert heffect
    generalize tx.tx = t
    intro heffect
    cases heffect with
    | mint guards after =>
      left
      rw [after] at hred
      exact hred
    | @redeem msg burnId sn proof guards after =>
      by_cases hid : id = burnId
      · subst hid
        exact Or.inr ⟨rfl, ⟨sn, proof, rfl⟩, guards.found⟩
      · left
        rw [after, burns_afterRedeem_of_ne hid] at hred
        exact hred
    | burn frame _ _ =>
      left
      -- a burn writes to free ids only, and what it writes is not redeemed
      rcases Nat.eq_zero_or_pos ((w tx.chain).burns id).amount with hzero | hpos
      · rcases frame.fresh id hzero with hsame | hnew
        · rw [← hsame]
          exact hred
        · rw [hnew.1] at hred
          exact absurd hred (by decide)
      · rw [← frame.kept id hpos]
        exact hred
  · left
    rw [execWorld_other h hc] at hred
    exact hred

/-! ## §3. One step of the count. -/

variable (opens) in
/-- The record has been paid: an opening serial number is minted, or it is redeemed. -/
def Paid (chain : Chain) (burnId commitment : Bytes32) (w : World) : Prop :=
  (∃ ch sn, opens sn commitment ∧ (w ch).mintedSerialNumbers sn = true)
    ∨ ((w chain).burns burnId).isRedeemed = true

/-- The record exists under another commitment. -/
def Other (chain : Chain) (burnId commitment : Bytes32) (w : World) : Prop :=
  0 < ((w chain).burns burnId).amount ∧ ((w chain).burns burnId).hashCommitment ≠ commitment

variable (opens) in
/-- The count so far is at most one, and one only if the record shows it. -/
def CountInv (chain : Chain) (burnId commitment : Bytes32) (n : Nat) (w : World) : Prop :=
  Other chain burnId commitment w
    ∨ n ≤ 1 ∧ (n = 1 → Paid opens chain burnId commitment w)
      ∧ (((w chain).burns burnId).isRedeemed = true →
        0 < ((w chain).burns burnId).amount
          ∧ ((w chain).burns burnId).hashCommitment = commitment)

omit [DecidableRel opens] in
/-- Paid stays paid. -/
theorem Paid.kept {chain : Chain} {burnId commitment : Bytes32} {w w' : World} (hk : Kept w w')
    (hred : ((w chain).burns burnId).isRedeemed = true → 0 < ((w chain).burns burnId).amount)
    (h : Paid opens chain burnId commitment w) : Paid opens chain burnId commitment w' := by
  rcases h with ⟨ch, sn, hopen, hminted⟩ | hr
  · exact Or.inl ⟨ch, sn, hopen, hk.minted ch sn hminted⟩
  · exact Or.inr (hk.redeemed chain burnId (hred hr) hr)

/-- Another stays another. -/
theorem Other.kept {chain : Chain} {burnId commitment : Bytes32} {w w' : World} (hk : Kept w w')
    (h : Other chain burnId commitment w) : Other chain burnId commitment w' := by
  obtain ⟨hpos, hne⟩ := h
  rw [Other, hk.amount chain burnId hpos, hk.commitment chain burnId hpos]
  exact ⟨hpos, hne⟩

section Step

variable {chain : Chain} {burnId commitment : Bytes32} {final w w' : World} {tx : WorldTx}
  (hdead : ¬ Other chain burnId commitment w)
  (hrec : ((w chain).burns burnId).isRedeemed = true →
    0 < ((w chain).burns burnId).amount ∧ ((w chain).burns burnId).hashCommitment = commitment)
  (h : execWorld pairing tx w = .ok w')

include hdead hrec h

/-- A redeemed record is one that was redeemed before, or is redeemed right now; either way
it is the record of the commitment. -/
theorem redeemed_recorded (hred : ((w' chain).burns burnId).isRedeemed = true) :
    0 < ((w' chain).burns burnId).amount
      ∧ ((w' chain).burns burnId).hashCommitment = commitment := by
  have hk := execWorld_kept h
  have hpos : 0 < ((w chain).burns burnId).amount := by
    rcases redeemed_origin h hred with hr | ⟨-, -, hpos⟩
    · exact (hrec hr).1
    · exact hpos
  have hcommit : ((w chain).burns burnId).hashCommitment = commitment := by
    by_contra hne
    exact hdead ⟨hpos, hne⟩
  rw [hk.amount chain burnId hpos, hk.commitment chain burnId hpos]
  exact ⟨hpos, hcommit⟩

/-- **A transaction pays nothing, or finds the record unpaid and leaves it paid.** -/
theorem payouts_cases (hrecorded : Recorded final commitment)
    (hcond : NoEarlierPayout opens pairing final w tx) :
    payouts opens chain burnId commitment tx = 0
      ∨ payouts opens chain burnId commitment tx = 1
        ∧ ¬ Paid opens chain burnId commitment w ∧ Paid opens chain burnId commitment w' := by
  have hcheck := hcond (isOk_of_eq h)
  obtain ⟨ch, msg, call⟩ := tx
  cases call with
  | setMintVerifyingKey vk => exact Or.inl rfl
  | setRedeemVerifyingKey vk => exact Or.inl rfl
  | burn value hashCommitment => exact Or.inl rfl
  | burnSplit value hashCommitments => exact Or.inl rfl
  | deposit value => exact Or.inl rfl
  | mint serialNumber amount merkleRoot proof =>
    by_cases hopen : opens serialNumber commitment
    · obtain ⟨hmint, hred⟩ := hcheck commitment hrecorded hopen
      obtain ⟨c', hexec, hw'⟩ := execWorld_eq_ok.mp h
      obtain ⟨guards, hafter⟩ := mint_eq_ok.mp hexec
      refine Or.inr ⟨if_pos hopen, ?_, ?_⟩
      · rintro (⟨ch', sn', hopen', hminted⟩ | hr)
        · by_cases hsame : ch' = ch ∧ sn' = serialNumber
          · -- this one the contract refuses itself
            obtain ⟨rfl, rfl⟩ := hsame
            exact absurd guards.fresh (by rw [hminted]; decide)
          · exact absurd (hmint ch' sn' hopen' (not_and_or.mp hsame)) (by rw [hminted]; decide)
        · exact absurd (hred chain burnId (hrec hr).2) (by rw [hr]; decide)
      · refine Or.inl ⟨ch, serialNumber, hopen, ?_⟩
        rw [hw', update_self, hafter, minted_afterMint_self]
    · exact Or.inl (if_neg hopen)
  | redeem id serialNumber proof =>
    by_cases hthis : ch = chain ∧ id = burnId
    · obtain ⟨rfl, rfl⟩ := hthis
      obtain ⟨c', hexec, hw'⟩ := execWorld_eq_ok.mp h
      obtain ⟨guards, hafter⟩ := redeem_eq_ok.mp hexec
      have hcommit : ((w ch).burns id).hashCommitment = commitment := by
        by_contra hne
        exact hdead ⟨guards.found, hne⟩
      refine Or.inr ⟨if_pos ⟨rfl, rfl⟩, ?_, ?_⟩
      · rintro (⟨ch', sn', hopen', hminted⟩ | hr)
        · have hnone := hcheck ch' sn' (hcommit.symm ▸ hopen')
          exact absurd hnone (by rw [hminted]; decide)
        · exact absurd guards.notRedeemed (by rw [hr]; decide)
      · right
        rw [hw', update_self, hafter, burns_afterRedeem_self]
    · exact Or.inl (if_neg hthis)

end Step

/-- **One step**: the count moves by what the transaction pays out. -/
theorem countInv_step {chain : Chain} {burnId commitment : Bytes32} {n : Nat} {w w' : World}
    {tx : WorldTx} {final : World} (hrecorded : Recorded final commitment)
    (hcond : NoEarlierPayout opens pairing final w tx)
    (hinv : CountInv opens chain burnId commitment n w) (h : execWorld pairing tx w = .ok w') :
    CountInv opens chain burnId commitment (n + payouts opens chain burnId commitment tx) w' := by
  have hk := execWorld_kept h
  rcases hinv with hdead | ⟨hle, hpaid, hrec⟩
  · exact Or.inl (hdead.kept hk)
  by_cases hdead : Other chain burnId commitment w
  · exact Or.inl (hdead.kept hk)
  have hrec' := redeemed_recorded hdead hrec h
  right
  rcases payouts_cases hdead hrec h hrecorded hcond with hzero | ⟨hone, hunpaid, hpaid'⟩
  · rw [hzero, Nat.add_zero]
    exact ⟨hle, fun hn => (hpaid hn).kept hk (fun hr => (hrec hr).1), hrec'⟩
  · -- a payout finds the record unpaid, so the count goes from zero to one
    have hn : n ≠ 1 := fun hn => hunpaid (hpaid hn)
    rw [hone]
    exact ⟨by omega, fun _ => hpaid', hrec'⟩

/-! ## §4. One burn, one mint, one redeem.

Serial number 7 opens the commitment 42 and nothing else opens anything; the verifier accepts
exactly the public inputs with serial number 7. -/

/-- 7 opens 42 and nothing else. -/
def opens₀ (serialNumber commitment : Bytes32) : Prop := serialNumber = 7 ∧ commitment = 42

instance : DecidableRel opens₀ := fun _ _ => inferInstanceAs (Decidable (_ ∧ _))

/-- Accepts proofs for serial number 7. -/
noncomputable def pairing₀ : PairingCheck := idealPairing (fun inputs => inputs[1]? = some 7)

/-- The record's id on Chain I. -/
def recordId : Bytes32 := burnKey senderMsg 42 (credit DENOM_4 (sampleWorld .I))

/-- 1 ether under the commitment 42. -/
def burnTx : WorldTx := ⟨.I, senderMsg, .burn DENOM_4 42⟩

/-- The mint on Chain II. -/
def mintTx : WorldTx := ⟨.II, receiverMsg, .mint 7 DENOM_4 1 emptyProof⟩

/-- The sender comes back after the time lock. -/
def lateMsg : Msg := ⟨0xA11CE, 2, 3701, true⟩

/-- The redeem after the time lock. -/
def redeemTx : WorldTx := ⟨.I, lateMsg, .redeem recordId 7 emptyProof⟩

/-- Chain I with the record. -/
def recordI : TransferContract :=
  afterBurn senderMsg 42 DENOM_4 (credit DENOM_4 (sampleWorld .I))

/-- After the burn. -/
def world₁ : World := update sampleWorld .I recordI

/-- After the funding. -/
def world₂ : World := update world₁ .II (credit DENOM_4 (world₁ .II))

/-- After the mint. -/
def world₃ : World :=
  update world₂ .II (afterMint receiverMsg 7 DENOM_4 (world₂ .II))

/-- After the redeem. -/
def world₄ : World := update world₃ .I (afterRedeem recordId (world₃ .I))

theorem denom_pos : 0 < DENOM_4 := by simp [DENOM_4]

/-- The burn goes through. -/
theorem exec_burnTx : execWorld pairing₀ burnTx sampleWorld = .ok world₁ := by
  refine execWorld_eq_ok.mpr ⟨recordI, ?_, rfl⟩
  show TransferContract.burn senderMsg DENOM_4 _ _ = .ok recordI
  rw [TransferContract.burn, require_bind denom_pos,
    require_bind isValidDenomination_denom4]
  exact createBurn_eq_ok.mpr ⟨rfl, by decide, rfl⟩

theorem exec_fund : execWorld pairing₀ fundChainII world₁ = .ok world₂ :=
  execWorld_eq_ok.mpr ⟨_, rfl, rfl⟩

theorem world₂_II : world₂ .II = credit DENOM_4 (sampleWorld .II) := by
  rw [world₂, update_self, world₁, update_of_ne (by decide)]

theorem world₂_I : world₂ .I = recordI := by
  rw [world₂, update_of_ne (by decide), world₁, update_self]

theorem world₃_I : world₃ .I = recordI := by
  rw [world₃, update_of_ne (by decide), world₂_I]

/-- The mint goes through. -/
theorem exec_mintTx : execWorld pairing₀ mintTx world₂ = .ok world₃ := by
  refine execWorld_eq_ok.mpr ⟨_, mint_eq_ok.mpr
    ⟨⟨?_, isValidDenomination_denom4, ?_, ?_, rfl⟩, rfl⟩, rfl⟩
  · show (world₂ .II).mintedSerialNumbers 7 = false
    rw [world₂_II]
    rfl
  · show DENOM_4 ≤ (world₂ .II).balance
    rw [world₂_II]
    exact Nat.le_add_left _ _
  · show verify pairing₀ (world₂ .II).vk_theta_mint _ _ = _
    rw [world₂_II]
    exact verify_eq_true.mpr ⟨rfl, by decide +kernel, idealPairing_eq_true.mpr rfl⟩

theorem recordI_burns : recordI.burns recordId = newBurn senderMsg 42 DENOM_4 :=
  burns_afterBurn_self ..

theorem recordI_burns_of_ne {id : Bytes32} (h : id ≠ recordId) :
    recordI.burns id = BurnRecord.zero := by
  unfold recordId at h
  exact burns_afterBurn_of_ne h _

theorem recordI_balance : recordI.balance = DENOM_4 := Nat.zero_add _

/-- The redeem goes through. -/
theorem exec_redeemTx : execWorld pairing₀ redeemTx world₃ = .ok world₄ := by
  refine execWorld_eq_ok.mpr ⟨_, redeem_eq_ok.mpr ⟨?_, rfl⟩, rfl⟩
  show CanRedeem pairing₀ lateMsg recordId 7 emptyProof (world₃ .I)
  rw [world₃_I]
  refine ⟨?_, ?_, ?_, ?_, ?_, ?_, ?_, rfl⟩
  · rw [recordI_burns]
    exact denom_pos
  · rw [recordI_burns]
    rfl
  · rw [recordI_burns]
    show 100 + 3600 < 3701
    decide
  · rw [recordI_burns]
    rfl
  · rw [recordI_burns]
    rfl
  · rw [recordI_burns]
    exact verify_eq_true.mpr ⟨rfl, by decide +kernel, idealPairing_eq_true.mpr rfl⟩
  · rw [recordI_burns, recordI_balance]
    exact Nat.le_refl _

/-! ## §5. Whole runs. -/

/-- **Each record is paid at most once** when every mint and redeem of the run finds no earlier
payout of a record there is in the end. -/
theorem paid_once (opens : Bytes32 → Bytes32 → Prop) [DecidableRel opens] (pairing : PairingCheck)
    (owner : Chain → Address) (vkMint vkRedeem : Chain → VerifyingKey) (txs : List WorldTx)
    (hmeet : StepsMeet (execWorld pairing) (NoEarlierPayout opens pairing
      (run (execWorld pairing) (deployed owner vkMint vkRedeem) txs))
      (deployed owner vkMint vkRedeem) txs) :
    PaidOnce opens pairing (deployed owner vkMint vkRedeem) txs := by
  intro chain burnId hpos
  generalize hC : ((run (execWorld pairing) (deployed owner vkMint vkRedeem) txs chain).burns
    burnId).hashCommitment = commitment
  have hrecorded : Recorded (run (execWorld pairing) (deployed owner vkMint vkRedeem) txs)
      commitment := ⟨chain, burnId, hpos, hC⟩
  have hinit : CountInv opens chain burnId commitment 0 (deployed owner vkMint vkRedeem) :=
    Or.inr ⟨Nat.zero_le 1, fun h => absurd h (by decide), fun h => absurd h Bool.false_ne_true⟩
  have hinv := run_tally (R := CountInv opens chain burnId commitment)
    (fun n w tx w' hcond hR h => countInv_step hrecorded hcond hR h) txs 0 _ hinit hmeet
  rw [Nat.zero_add] at hinv
  rcases hinv with ⟨-, hne⟩ | ⟨hle, -, -⟩
  · exact absurd hC hne
  · exact hle

/-- Before the mint nothing was minted or redeemed. -/
theorem noEarlierPayout_mintTx (final : World) :
    NoEarlierPayout opens₀ pairing₀ final world₂ mintTx := by
  intro _ commitment _ _
  constructor
  · intro chain sn' _ _
    cases chain with
    | I => rw [world₂_I]; rfl
    | II => rw [world₂_II]; rfl
  · intro chain id _
    cases chain with
    | I =>
      rw [world₂_I]
      by_cases hid : id = recordId
      · rw [hid, recordI_burns]
        rfl
      · rw [recordI_burns_of_ne hid]
        rfl
    | II => rw [world₂_II]; rfl

/-- Burn, funding, mint: the record is paid once. -/
theorem record_paid_once : PaidOnce opens₀ pairing₀ sampleWorld [burnTx, fundChainII, mintTx] := by
  refine paid_once opens₀ pairing₀ (fun _ => 1) (fun _ => emptyKey 4) (fun _ => emptyKey 4) _
    ⟨fun _ => trivial, fun _ => trivial, ?_, trivial⟩
  show NoEarlierPayout opens₀ pairing₀ _ (commit (execWorld pairing₀)
    (commit (execWorld pairing₀) sampleWorld burnTx) fundChainII) mintTx
  rw [commit_of_ok exec_burnTx, commit_of_ok exec_fund]
  exact noEarlierPayout_mintTx _

/-- The record of Chain I is paid by the mint on Chain II and again by its redeem, in a run whose
proofs all open it. -/
theorem paid_twice : ¬ ∀ (opens : Bytes32 → Bytes32 → Prop) (_ : DecidableRel opens)
    (pairing : PairingCheck) (owner : Chain → Address) (vkMint vkRedeem : Chain → VerifyingKey)
    (txs : List WorldTx), TimeOrdered txs →
    StepsMeet (execWorld pairing) (ProofsOpen opens pairing) (deployed owner vkMint vkRedeem) txs →
    PaidOnce opens pairing (deployed owner vkMint vkRedeem) txs := by
  intro hall
  have hopens : StepsMeet (execWorld pairing₀) (ProofsOpen opens₀ pairing₀) sampleWorld
      [burnTx, fundChainII, mintTx, redeemTx] := by
    refine ⟨fun _ => trivial, fun _ => trivial, fun _ => ?_, fun _ => ?_, trivial⟩
    · rw [commit_of_ok exec_burnTx, commit_of_ok exec_fund]
      refine ⟨.I, recordId, ?_, ?_⟩
      · rw [world₂_I, recordI_burns]
        exact denom_pos
      · rw [world₂_I, recordI_burns]
        exact ⟨rfl, rfl⟩
    · rw [commit_of_ok exec_burnTx, commit_of_ok exec_fund, commit_of_ok exec_mintTx]
      show opens₀ 7 ((world₃ .I).burns recordId).hashCommitment
      rw [world₃_I, recordI_burns]
      exact ⟨rfl, rfl⟩
  have htime : TimeOrdered [burnTx, fundChainII, mintTx, redeemTx] := by
    simp [TimeOrdered, burnTx, fundChainII, mintTx, redeemTx, senderMsg, receiverMsg, lateMsg]
  have hpaid := hall opens₀ inferInstance pairing₀ (fun _ => 1) (fun _ => emptyKey 4)
    (fun _ => emptyKey 4) [burnTx, fundChainII, mintTx, redeemTx] htime hopens .I recordId
  have hrun : run (execWorld pairing₀) sampleWorld [burnTx, fundChainII, mintTx, redeemTx]
      = world₄ := by
    rw [run_cons, run_cons, run_cons, run_cons, run_nil, commit_of_ok exec_burnTx,
      commit_of_ok exec_fund, commit_of_ok exec_mintTx, commit_of_ok exec_redeemTx]
  have hrecord : (world₄ .I).burns recordId
      = { newBurn senderMsg 42 DENOM_4 with isRedeemed := true } := by
    rw [world₄, update_self, burns_afterRedeem_self, world₃_I, recordI_burns]
  -- one payout by the mint, one by the redeem
  have htwo : tally (execWorld pairing₀) (payouts opens₀ .I recordId 42) sampleWorld
      [burnTx, fundChainII, mintTx, redeemTx] = 2 := by
    rw [tally_cons_ok exec_burnTx, tally_cons_ok exec_fund, tally_cons_ok exec_mintTx,
      tally_cons_ok exec_redeemTx]
    have hmint : payouts opens₀ .I recordId 42 mintTx = 1 := by
      show (if opens₀ 7 42 then 1 else 0) = 1
      exact if_pos ⟨rfl, rfl⟩
    have hredeem : payouts opens₀ .I recordId 42 redeemTx = 1 := by
      simp [payouts, redeemTx]
    rw [hmint, hredeem]
    rfl
  rw [show run (execWorld pairing₀) (deployed (fun _ => 1) (fun _ => emptyKey 4)
    (fun _ => emptyKey 4)) _ = world₄ from hrun, hrecord] at hpaid
  have hone := hpaid denom_pos
  have hone' : tally (execWorld pairing₀) (payouts opens₀ .I recordId 42) sampleWorld
      [burnTx, fundChainII, mintTx, redeemTx] ≤ 1 := hone
  omega

end HZKA.Theta
