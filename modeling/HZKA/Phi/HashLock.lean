/-
  HZKA.Phi.HashLock
  ────────────
  **DOES THE HASH LOCK CONTROL THE LOCK?**

  `unlock` shows the verifier the serial number, the amount of the lock and a root the
  caller chose; the record's `hashLock` is read by no function.  So a proof opens SOME
  lock transaction of that amount under SOME root, and releases whichever lock of the
  amount the caller names.

    • `hashLock_controls` — the property holds in runs whose unlocks name the root of a
      block and open in it a lock that carries the hash lock of the named one (and the
      four bytes of it that are hashed tell it apart);
    • `hashLock_ignored`  — the proof made for one lock releases another.

  Nor does `unlock` look at who calls it.  §6: the arguments that release a lock for one
  account release it for any other (`unlock_exclusive_iff`), so that a proof seen in a
  pending transaction can be sent by somebody else first (`unlock_replayed`).
-/
import HZKA.Circuits.ExchangeUnlock
import HZKA.Contracts.Exchange

namespace HZKA.Phi

open HZKA.Lib HZKA.Lib.Merkle HZKA.EVM HZKA.Groth16Verifier HZKA.ExchangeContract HZKA.Denomination
open HZKA.Circuits HZKA.Circuits.SHA256 HZKA.Circuits.MerkleTree
open HZKA.Circuits.ExchangeUnlock (TxLock Assignment Outsource hashLock txLockHash txTreeBlocks
  TREE_HEIGHT)

/-! ## §1. The verifier's meaning. -/

/-- **Soundness of the unlock verifier**: from an accepted proof for `(sn, v, root)` a
satisfying assignment of the unlock circuit with these public inputs can be read off. -/
structure UnlockWitness (pairing : PairingCheck) where
  witness : VerifyingKey → Proof → List Nat → Assignment
  sound : ∀ vk proof sn v root, verify pairing vk proof [sn, v, root] = .ok true →
    Outsource (witness vk proof [sn, v, root])
      ∧ (witness vk proof [sn, v, root]).publicInputs.encode = [sn, v, root]

/-- Public inputs of an unlock, read back from the circuit's side. -/
theorem inputs_of_encode {a : Assignment} {serialNumber : Bytes32} {amount : Nat}
    {merkleRoot : Bytes32}
    (h : a.publicInputs.encode = unlockInputs serialNumber amount merkleRoot) :
    a.sn = vecBE 32 serialNumber ∧ a.v.toNat = amount ∧ a.root_Lock.toWord = merkleRoot := by
  simp only [ExchangeUnlock.PublicInputs.encode, ExchangeUnlock.Assignment.publicInputs,
    unlockInputs, List.cons.injEq, and_true] at h
  obtain ⟨hsn, hamount, hroot⟩ := h
  exact ⟨key_of_encoded hsn, hamount,
    BitVec.eq_of_toNat_eq ((Digest.toNat_toWord _).trans hroot)⟩

/-! ## §2. The property and the condition. -/

variable {pairing : PairingCheck}

/-- The assignment behind an unlock executed in `c`. -/
def UnlockWitness.ofCall (E : UnlockWitness pairing) (c : ExchangeContract)
    (lockId serialNumber merkleRoot : Bytes32) (proof : Proof) : Assignment :=
  E.witness c.vk_phi_on proof (unlockInputs serialNumber (c.locks lockId).amount merkleRoot)

/-- Each successful unlock of the run found, as the hash lock of the lock it released,
the hash of its witness's preimage and its own serial number. -/
def HashLocksControl (E : UnlockWitness pairing) (s₀ : CallStack ExchangeContract)
    (moves : List (Move Tx)) : Prop :=
  ∀ before msg lockId serialNumber merkleRoot proof after,
    moves = before ++ .call ⟨msg, .unlock lockId serialNumber merkleRoot proof⟩ :: after →
    (step pairing (.call ⟨msg, .unlock lockId serialNumber merkleRoot proof⟩)
      (run (step pairing) s₀ before)).isOk = true →
    ((run (step pairing) s₀ before).current.locks lockId).hashLock
      = (hashLock (E.ofCall (run (step pairing) s₀ before).current lockId serialNumber merkleRoot
          proof).pre (vecBE 32 serialNumber)).toWord

/-- The leaf of the block that the assignment opens. -/
def openedLock (a : Assignment) (t : Tree TxLock TREE_HEIGHT) : TxLock :=
  t.get (position a.directionBits)

/-- `merkleRoot` is the root of a block `t`; the lock transaction it is opened at carries the
hash lock of `record`, and has the witness's if the first four bytes are the same. -/
structure OwnBlock (record : LockRecord) (a : Assignment) (merkleRoot : Bytes32)
    (t : Tree TxLock TREE_HEIGHT) : Prop where
  root : (t.root txLockHash nodeHash).toWord = merkleRoot
  carries : (openedLock a t).h_pre_sn.toWord = record.hashLock
  bound : (openedLock a t).h_pre_sn.bytes.take 4 = a.h_pre_sn.bytes.take 4 →
    (openedLock a t).h_pre_sn = a.h_pre_sn
  noCollision : ¬ Collision a.blocks (txTreeBlocks t)

/-- An unlock that succeeds names the root of the released lock's own block. -/
def UnlockCondition (E : UnlockWitness pairing) (s : CallStack ExchangeContract)
    (m : Move Tx) : Prop :=
  ∀ msg lockId serialNumber merkleRoot proof,
    m = .call ⟨msg, .unlock lockId serialNumber merkleRoot proof⟩ →
    (step pairing m s).isOk = true →
    ∃ t, OwnBlock (s.current.locks lockId)
      (E.ofCall s.current lockId serialNumber merkleRoot proof) merkleRoot t

/-! ## §3. One unlock. -/

/-- **One unlock** in its own block. -/
theorem hashLock_of_ownBlock {record : LockRecord} {a : Assignment}
    {serialNumber merkleRoot : Bytes32} {t : Tree TxLock TREE_HEIGHT} (ha : Outsource a)
    (hinputs : a.publicInputs.encode = unlockInputs serialNumber record.amount merkleRoot)
    (hown : OwnBlock record a merkleRoot t) :
    record.hashLock = (hashLock a.pre (vecBE 32 serialNumber)).toWord := by
  obtain ⟨hsn, -, hroot⟩ := inputs_of_encode hinputs
  have hroot' : a.root_Lock = t.root txLockHash nodeHash :=
    Digest.toWord_inj (hroot.trans hown.root.symm)
  have hblock := ExchangeUnlock.outsource_opens ha t hroot' hown.noCollision
  -- the block gives four bytes of the hash lock; `bound` gives the rest
  obtain ⟨-, -, -, hfour⟩ := ExchangeUnlock.txLock_block_inj hblock
  rw [← hown.carries, hown.bound hfour.symm, ← hsn, ha.hashLock]

/-- A successful unlock went through its guards. -/
theorem canUnlock_of_isOk {msg : Msg} {lockId serialNumber merkleRoot : Bytes32} {proof : Proof}
    {s : CallStack ExchangeContract}
    (h : (step pairing (.call ⟨msg, .unlock lockId serialNumber merkleRoot proof⟩) s).isOk = true) :
    CanUnlock pairing msg lockId serialNumber merkleRoot proof s.current := by
  obtain ⟨c', hc', -⟩ := move_call_eq_ok.mp (exec_eq_ok_commit h)
  exact (unlock_eq_ok.mp hc').1

/-! ## §4. An unlock with the sample block.

`0xA11CE` locks 1 ether under the sample hash lock, `0xCAFE` 1 ether under hash lock 42;
`0xB0B` holds a proof for the sample block. -/

/-- The statement the unlock verifier decides. -/
def UnlockStatement (publicInputs : List Nat) : Prop :=
  ∃ a : Assignment, Outsource a ∧ a.publicInputs.encode = publicInputs

/-- The inputs of the sample unlock. -/
def sampleInputs : List Nat :=
  unlockInputs 7 DENOM_4 ExchangeUnlock.sampleRoot.toWord

theorem sample_encode : ExchangeUnlock.sample.publicInputs.encode = sampleInputs := by
  decide +kernel

/-- The ideal verifier is sound; on the sample's inputs the witness is the sample. -/
noncomputable def sampleWitness : UnlockWitness (idealPairing UnlockStatement) where
  witness := open Classical in fun _ _ inputs =>
    if inputs = sampleInputs then ExchangeUnlock.sample
    else if h : UnlockStatement inputs then h.choose else ExchangeUnlock.sample
  sound := by
    intro vk proof sn v root hverify
    have hstatement := idealPairing_eq_true.mp (verify_eq_true.mp hverify).2.2
    by_cases hsample : [sn, v, root] = sampleInputs
    · rw [if_pos hsample, hsample]
      exact ⟨ExchangeUnlock.sample_outsource, sample_encode⟩
    · rw [if_neg hsample, dif_pos hstatement]
      exact hstatement.choose_spec

/-- The verifier accepts the sample. -/
theorem sample_verified : verify (idealPairing UnlockStatement) (emptyKey 3) emptyProof sampleInputs
    = .ok true := by
  refine verify_eq_true.mpr ⟨rfl, by decide +kernel, ?_⟩
  exact idealPairing_eq_true.mpr
    ⟨ExchangeUnlock.sample, ExchangeUnlock.sample_outsource, sample_encode⟩

/-- A locker at time 100. -/
def lockerMsg (sender : Address) : Msg := ⟨sender, 1, 100, true⟩

/-- A lock of 1 ether for an hour. -/
def lockOne (sender : Address) (hashLock : Bytes32) : Move Tx :=
  .call ⟨lockerMsg sender, .lock DENOM_4 hashLock 3600⟩

/-- `0xB0B` unlocks `lockId` with the proof for the sample block. -/
def unlockWith (lockId : Bytes32) : Move Tx :=
  .call ⟨lockerMsg 0xB0B, .unlock lockId 7 ExchangeUnlock.sampleRoot.toWord emptyProof⟩

/-- A fresh contract. -/
def exchange : ExchangeContract := deploy 1 (emptyKey 5) (emptyKey 3)

/-- The contract after the first lock, of `sender` under `hashLock`. -/
def oneLock (sender : Address) (hashLock : Bytes32) : ExchangeContract :=
  afterLock (lockerMsg sender) DENOM_4 hashLock 3600 exchange

/-- The id of that lock. -/
def firstId (sender : Address) (hashLock : Bytes32) : Bytes32 :=
  lockKey (lockerMsg sender) hashLock exchange

/-- The run that locks. -/
theorem run_lockOne (sender : Address) (hashLock : Bytes32) :
    run (step (idealPairing UnlockStatement)) ⟨exchange, []⟩ [lockOne sender hashLock]
      = ⟨oneLock sender hashLock, []⟩ := by
  have hlock : exec (idealPairing UnlockStatement)
      ⟨lockerMsg sender, .lock DENOM_4 hashLock 3600⟩ exchange
      = .ok (oneLock sender hashLock) := by
    refine lock_eq_ok.mpr ⟨?_, by decide, rfl, ?_, rfl⟩
    · simp [isValidDenomination]
    · simp [lockerMsg]
  exact run_call rfl hlock []

theorem locks_oneLock (sender : Address) (hashLock : Bytes32) :
    (oneLock sender hashLock).locks (firstId sender hashLock)
      = newLock (lockerMsg sender) DENOM_4 hashLock 3600 :=
  locks_afterLock_self ..

/-- Whatever its hash lock, the lock is released with the proof for the sample block. -/
theorem unlockWith_ok (sender : Address) (hashLock : Bytes32) :
    (step (idealPairing UnlockStatement) (unlockWith (firstId sender hashLock))
      ⟨oneLock sender hashLock, []⟩).isOk = true := by
  have hrecord := locks_oneLock sender hashLock
  have hcan : CanUnlock (idealPairing UnlockStatement) (lockerMsg 0xB0B) (firstId sender hashLock)
      7 ExchangeUnlock.sampleRoot.toWord emptyProof (oneLock sender hashLock) := by
    refine ⟨⟨⟨?_, ?_, ?_⟩, ?_⟩, rfl, ?_⟩
    · rw [hrecord]
      show 0 < DENOM_4
      simp [DENOM_4]
    · rw [hrecord]
      rfl
    · rw [hrecord]
      rfl
    · rw [hrecord]
      exact Nat.le_add_right 100 3600
    · rw [hrecord]
      exact sample_verified
  have hfunds : ((oneLock sender hashLock).locks (firstId sender hashLock)).amount
      ≤ (oneLock sender hashLock).balance := by
    rw [hrecord]
    exact Nat.le_add_left _ _
  have hunlock := unlock_eq_ok.mpr ⟨hcan, hfunds, rfl⟩
  have hstep : step (idealPairing UnlockStatement) (unlockWith (firstId sender hashLock))
      ⟨oneLock sender hashLock, []⟩ = .ok _ := move_call_eq_ok.mpr ⟨_, hunlock, rfl⟩
  rw [hstep]
  rfl

/-- The sample block is the lock's own. -/
theorem sample_ownBlock :
    OwnBlock (newLock (lockerMsg 0xA11CE) DENOM_4
      ExchangeUnlock.sampleHashLock.toWord 3600) ExchangeUnlock.sample
      ExchangeUnlock.sampleRoot.toWord ExchangeUnlock.sampleTree := by
  have hopened : openedLock ExchangeUnlock.sample ExchangeUnlock.sampleTree
      = ExchangeUnlock.sampleTx := Tree.get_replicate ExchangeUnlock.sampleTx 4 _
  refine ⟨by rw [ExchangeUnlock.sampleTree_root], ?_, ?_, ?_⟩
  · rw [hopened]
    rfl
  · intro _
    rw [hopened]
    rfl
  · intro hcol
    exact ExchangeUnlock.sample_no_collision
      (hcol.mono (List.Subset.refl _) ExchangeUnlock.sampleTree_blocks)

/-- The witness behind the sample unlock is the sample, whatever the hash lock. -/
theorem sampleWitness_ofCall (sender : Address) (hashLock : Bytes32) :
    sampleWitness.ofCall (oneLock sender hashLock) (firstId sender hashLock) 7
      ExchangeUnlock.sampleRoot.toWord emptyProof = ExchangeUnlock.sample := by
  unfold UnlockWitness.ofCall
  rw [locks_oneLock]
  exact if_pos rfl

/-! ## §5. Whole runs. -/

/-- **The hash lock controls the lock** in every run whose unlocks name the released
lock's own block. -/
theorem hashLock_controls (E : UnlockWitness pairing) (owner : Address) (vkOff vkOn : VerifyingKey)
    (moves : List (Move Tx))
    (hmeet : StepsMeet (step pairing) (UnlockCondition E) ⟨deploy owner vkOff vkOn, []⟩ moves) :
    HashLocksControl E ⟨deploy owner vkOff vkOn, []⟩ moves := by
  intro before msg lockId serialNumber merkleRoot proof after hmoves hok
  rw [hmoves, stepsMeet_append] at hmeet
  obtain ⟨t, hown⟩ := hmeet.2.1 msg lockId serialNumber merkleRoot proof rfl hok
  obtain ⟨hout, hinputs⟩ := E.sound _ _ _ _ _ (canUnlock_of_isOk hok).verified
  exact hashLock_of_ownBlock hout hinputs hown

/-- The sample lock, then its unlock. -/
theorem sample_hashLock_controls :
    HashLocksControl sampleWitness ⟨exchange, []⟩
      [lockOne 0xA11CE ExchangeUnlock.sampleHashLock.toWord,
        unlockWith (firstId 0xA11CE ExchangeUnlock.sampleHashLock.toWord)] := by
  refine hashLock_controls sampleWitness 1 (emptyKey 5) (emptyKey 3) _ ⟨?_, ?_, trivial⟩
  · intro msg lockId sn root proof hm
    cases hm
  · intro msg lockId sn root proof hm _
    obtain ⟨-, hcall⟩ := Tx.mk.inj (Move.call.inj hm)
    obtain ⟨rfl, rfl, rfl, rfl⟩ := Call.unlock.inj hcall
    have hstate : commit (step (idealPairing UnlockStatement))
        ⟨deploy 1 (emptyKey 5) (emptyKey 3), []⟩ (lockOne 0xA11CE ExchangeUnlock.sampleHashLock.toWord)
        = ⟨oneLock 0xA11CE ExchangeUnlock.sampleHashLock.toWord, []⟩ := run_lockOne _ _
    refine ⟨ExchangeUnlock.sampleTree, ?_⟩
    rw [hstate, locks_oneLock, sampleWitness_ofCall]
    exact sample_ownBlock

/-- The proof for the sample block releases a lock whose hash lock is 42. -/
theorem hashLock_ignored : ¬ ∀ (pairing : PairingCheck) (E : UnlockWitness pairing)
    (owner : Address) (vkOff vkOn : VerifyingKey) (moves : List (Move Tx)),
    HashLocksControl E ⟨deploy owner vkOff vkOn, []⟩ moves := by
  intro hall
  have hcontrol := hall _ sampleWitness 1 (emptyKey 5) (emptyKey 3)
    [lockOne 0xCAFE 42, unlockWith (firstId 0xCAFE 42)] [lockOne 0xCAFE 42] (lockerMsg 0xB0B)
    (firstId 0xCAFE 42) 7 ExchangeUnlock.sampleRoot.toWord emptyProof [] rfl
  have hrun : run (step (idealPairing UnlockStatement)) ⟨deploy 1 (emptyKey 5) (emptyKey 3), []⟩
      [lockOne 0xCAFE 42] = ⟨oneLock 0xCAFE 42, []⟩ := run_lockOne _ _
  rw [hrun] at hcontrol
  have hlock := hcontrol (unlockWith_ok 0xCAFE 42)
  rw [locks_oneLock, sampleWitness_ofCall] at hlock
  have hword : (42 : Bytes32) = (hashLock ExchangeUnlock.sample.pre (vecBE 32 (7 : Bytes32))).toWord :=
    hlock
  have hdigest : hashLock ExchangeUnlock.sample.pre (vecBE 32 (7 : Bytes32))
      = ExchangeUnlock.sampleHashLock := ExchangeUnlock.sample_hashLock
  rw [hdigest] at hword
  exact absurd hword (by decide)

/-! ## §6. Who may send the proof. -/

variable (pairing) in
/-- The unlock sent by `msg` succeeds in `c`, its payment included. -/
def Unlocks (msg : Msg) (lockId serialNumber merkleRoot : Bytes32) (proof : Proof)
    (c : ExchangeContract) : Prop :=
  (unlock pairing msg lockId serialNumber merkleRoot proof c).isOk = true ∧ msg.accepts = true

variable (pairing) in
/-- No two accounts could both send this unlock, in the same block, with success. -/
def Exclusive (lockId serialNumber merkleRoot : Bytes32) (proof : Proof)
    (c : ExchangeContract) : Prop :=
  ∀ X Y : Msg, X.number = Y.number → X.timestamp = Y.timestamp → X.sender ≠ Y.sender →
    ¬ (Unlocks pairing X lockId serialNumber merkleRoot proof c
      ∧ Unlocks pairing Y lockId serialNumber merkleRoot proof c)

variable (pairing) in
/-- What the arguments need to release the lock before its time is up.  No account is
mentioned. -/
structure Releasable (lockId serialNumber merkleRoot : Bytes32) (proof : Proof)
    (c : ExchangeContract) : Prop where
  live : (c.locks lockId).Live
  fresh : c.usedSerialNumbers serialNumber = false
  verified : verify pairing c.vk_phi_on proof
    (unlockInputs serialNumber (c.locks lockId).amount merkleRoot) = .ok true
  funded : (c.locks lockId).amount ≤ c.balance

/-- An unlock is a release in time. -/
theorem unlocks_iff {msg : Msg} {lockId serialNumber merkleRoot : Bytes32} {proof : Proof}
    {c : ExchangeContract} :
    Unlocks pairing msg lockId serialNumber merkleRoot proof c
      ↔ Releasable pairing lockId serialNumber merkleRoot proof c
        ∧ msg.timestamp ≤ (c.locks lockId).timeLock ∧ msg.accepts = true := by
  constructor
  · rintro ⟨hok, haccepts⟩
    obtain ⟨c', hc'⟩ := exists_of_isOk hok
    obtain ⟨hcan, hfunds, -⟩ := unlock_eq_ok.mp hc'
    exact ⟨⟨hcan.eligible.1, hcan.fresh, hcan.verified, hfunds⟩, hcan.eligible.2, haccepts⟩
  · rintro ⟨hrel, htime, haccepts⟩
    have hcan : CanUnlock pairing msg lockId serialNumber merkleRoot proof c :=
      ⟨⟨hrel.live, htime⟩, hrel.fresh, hrel.verified⟩
    exact ⟨isOk_of_eq (unlock_eq_ok.mpr ⟨hcan, hrel.funded, rfl⟩), haccepts⟩

/-- **Who sends the proof never decides**: an unlock is reserved for one account only where
it succeeds for nobody. -/
theorem unlock_exclusive_iff (pairing : PairingCheck) (c : ExchangeContract)
    (lockId serialNumber merkleRoot : Bytes32) (proof : Proof) :
    Exclusive pairing lockId serialNumber merkleRoot proof c
      ↔ ¬ Releasable pairing lockId serialNumber merkleRoot proof c := by
  constructor
  · intro hexclusive hrel
    -- two accounts at time 0, which no time lock excludes
    have hboth : ∀ sender : Address,
        Unlocks pairing ⟨sender, 0, 0, true⟩ lockId serialNumber merkleRoot proof c :=
      fun sender => unlocks_iff.mpr ⟨hrel, Nat.zero_le _, rfl⟩
    have hne : (1 : Address) ≠ 2 := by decide
    exact hexclusive ⟨1, 0, 0, true⟩ ⟨2, 0, 0, true⟩ rfl rfl hne ⟨hboth 1, hboth 2⟩
  · intro hrel X Y _ _ _ hboth
    exact hrel (unlocks_iff.mp hboth.1).1

/-- `0xB0B`'s unlock of `0xCAFE`'s lock, sent by `0xBAD`. -/
theorem unlock_replayed : ¬ ∀ (pairing : PairingCheck) (_ : UnlockWitness pairing)
    (owner : Address) (vkOff vkOn : VerifyingKey) (moves : List (Move Tx))
    (lockId serialNumber merkleRoot : Bytes32) (proof : Proof),
    Exclusive pairing lockId serialNumber merkleRoot proof
      (run (step pairing) ⟨deploy owner vkOff vkOn, []⟩ moves).current := by
  intro hall
  have hexclusive := hall _ sampleWitness 1 (emptyKey 5) (emptyKey 3) [lockOne 0xCAFE 42]
    (firstId 0xCAFE 42) 7 ExchangeUnlock.sampleRoot.toWord emptyProof
  have hrun : run (step (idealPairing UnlockStatement)) ⟨deploy 1 (emptyKey 5) (emptyKey 3), []⟩
      [lockOne 0xCAFE 42] = ⟨oneLock 0xCAFE 42, []⟩ := run_lockOne _ _
  rw [hrun] at hexclusive
  obtain ⟨c', hc', -⟩ := move_call_eq_ok.mp (exec_eq_ok_commit (unlockWith_ok 0xCAFE 42))
  obtain ⟨hcan, hfunds, -⟩ := unlock_eq_ok.mp hc'
  -- the guards mention no sender, so they hold for any
  have hrel : Releasable (idealPairing UnlockStatement) (firstId 0xCAFE 42) 7
      ExchangeUnlock.sampleRoot.toWord emptyProof (oneLock 0xCAFE 42) :=
    ⟨hcan.eligible.1, hcan.fresh, hcan.verified, hfunds⟩
  have hboth : ∀ sender, Unlocks (idealPairing UnlockStatement) (lockerMsg sender)
      (firstId 0xCAFE 42) 7 ExchangeUnlock.sampleRoot.toWord emptyProof (oneLock 0xCAFE 42) :=
    fun sender => unlocks_iff.mpr ⟨hrel, hcan.eligible.2, rfl⟩
  have hne : (lockerMsg 0xB0B).sender ≠ (lockerMsg 0xBAD).sender := by decide
  exact hexclusive (lockerMsg 0xB0B) (lockerMsg 0xBAD) rfl rfl hne ⟨hboth _, hboth _⟩

end HZKA.Phi
