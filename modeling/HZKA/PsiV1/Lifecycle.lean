/-
  HZKA.PsiV1.Lifecycle
  ────────────
  **THE TWO OUTCOMES OF A COMMIT.**

  A recorded commit may be verified, which rewards its committer, or slashed, which takes
  half an ether of their stake.  `isVerified` guards both, but a slash sets no flag: a
  slashed commit can be slashed again as long as the stake lasts, and verified as well.

    • `Recorded`           — a commit is verified as often as its flag says, so at most once;
    • `outcome_once_iff`   — at every point of a run each commit has at most one outcome,
      exactly when no slash and no verification finds its commit slashed before;
    • `outcome_three_times` — a commit slashed twice, then verified and rewarded.
-/
import HZKA.Contracts.AuditV1
import Mathlib.Data.List.Count

namespace HZKA.PsiV1

open Function
open HZKA.Lib HZKA.EVM HZKA.Groth16Verifier HZKA.AuditV1

variable {pairing : PairingCheck}

/-! ## §1. Outcomes. -/

/-- How often a commit was verified and rewarded. -/
def verifications (commitId : Bytes32) (c : AuditContract) : Nat :=
  c.audits.countP (fun a => a.commitId = commitId)

/-- How often its committer was slashed for it. -/
def slashings (commitId : Bytes32) (c : AuditContract) : Nat := c.slashes.count commitId

/-- Each commit was verified or slashed, once, or neither. -/
def OutcomeOnce (c : AuditContract) : Prop :=
  ∀ commitId, verifications commitId c + slashings commitId c ≤ 1

/-- What a call that decides a commit has to find: no slash of it. -/
def NotSlashed (c : AuditContract) (tx : Tx) : Prop :=
  ∀ commitId, (tx.call = .slashCommitter commitId ∨ ∃ proof, tx.call = .verifyCommit commitId proof) →
    commitId ∉ c.slashes

/-! ## §2. Verified once. -/

/-- The flag counts the verifications, and stands on recorded commits only. -/
structure Recorded (c : AuditContract) : Prop where
  verified : ∀ id, verifications id c = (c.commits id).isVerified.toNat
  found : ∀ id, (c.commits id).isVerified = true → 0 < (c.commits id).timestamp

/-- It holds of a fresh contract. -/
theorem recorded_deploy (deployer : Address) : Recorded (deploy deployer) :=
  ⟨fun _ => rfl, fun _ h => absurd h Bool.false_ne_true⟩

theorem commits_markVerified_self (commitId : Bytes32) (proof : Proof) (c : AuditContract) :
    (markVerified commitId proof c).commits commitId
      = { c.commits commitId with isVerified := true } :=
  update_self ..

/-- Verification leaves other commits alone. -/
theorem commits_markVerified_of_ne {id commitId : Bytes32} (h : id ≠ commitId) (proof : Proof)
    (c : AuditContract) : (markVerified commitId proof c).commits id = c.commits id :=
  update_of_ne h _ _

/-- One verification more, of this commit. -/
theorem verifications_afterVerify (msg : Msg) (commitId : Bytes32) (proof : Proof)
    (c : AuditContract) (id : Bytes32) :
    verifications id (afterVerify msg commitId proof c)
      = verifications id c + (decide (commitId = id)).toNat := by
  show List.countP _ (_ :: c.audits) = _
  rw [List.countP_cons]
  unfold verifications
  by_cases hid : commitId = id
  · simp [hid]
  · simp [hid]

/-- A call that leaves commits and audits alone. -/
theorem recorded_of_same {c c' : AuditContract} (hc : Recorded c) (hcommits : c'.commits = c.commits)
    (haudits : c'.audits = c.audits) : Recorded c' := by
  refine ⟨?_, ?_⟩
  · intro id
    unfold verifications
    rw [hcommits, haudits]
    exact hc.verified id
  · intro id
    rw [hcommits]
    exact hc.found id

/-- A submission keeps the record. -/
theorem recorded_submit {c : AuditContract} {msg : Msg} {chainId : AuditV1.ChainId}
    {oldStateRoot newStateRoot : Bytes32} (hc : Recorded c)
    (hcan : CanSubmit msg chainId oldStateRoot newStateRoot c) :
    Recorded (afterSubmit msg chainId oldStateRoot newStateRoot c) := by
  -- a fresh id has no timestamp, hence no flag either
  have hunverified : (c.commits (commitKey msg chainId oldStateRoot newStateRoot)).isVerified
      = false := by
    cases hflag : (c.commits (commitKey msg chainId oldStateRoot newStateRoot)).isVerified with
    | false => rfl
    | true =>
      have hpos := hc.found _ hflag
      have hzero := hcan.fresh
      omega
  refine ⟨?_, ?_⟩
  · intro id
    show verifications id c = _
    by_cases hid : id = commitKey msg chainId oldStateRoot newStateRoot
    · rw [hid, commits_afterSubmit_self, hc.verified, hunverified]
      rfl
    · rw [commits_afterSubmit_of_ne hid, hc.verified]
  · intro id
    by_cases hid : id = commitKey msg chainId oldStateRoot newStateRoot
    · rw [hid, commits_afterSubmit_self]
      exact fun h => absurd h Bool.false_ne_true
    · rw [commits_afterSubmit_of_ne hid]
      exact hc.found id

/-- A verification keeps it. -/
theorem recorded_verify {c : AuditContract} {msg : Msg} {commitId : Bytes32} {proof : Proof}
    (hc : Recorded c) (hcan : CanVerify pairing msg commitId proof c) :
    Recorded (afterVerify msg commitId proof c) := by
  refine ⟨?_, ?_⟩
  · intro id
    rw [verifications_afterVerify, hc.verified]
    show _ = ((markVerified commitId proof c).commits id).isVerified.toNat
    by_cases hid : id = commitId
    · rw [hid, commits_markVerified_self, hcan.unverified, decide_eq_true rfl]
      rfl
    · rw [commits_markVerified_of_ne hid, decide_eq_false (fun he => hid he.symm)]
      rfl
  · intro id
    show ((markVerified commitId proof c).commits id).isVerified = true →
      0 < ((markVerified commitId proof c).commits id).timestamp
    by_cases hid : id = commitId
    · rw [hid, commits_markVerified_self]
      exact fun _ => hcan.found
    · rw [commits_markVerified_of_ne hid]
      exact hc.found id

/-- **Each call** keeps the flags in step with the audits. -/
theorem recorded_step (tx : Tx) (c c' : AuditContract) (hc : Recorded c)
    (h : exec pairing tx c = .ok c') : Recorded c' := by
  cases exec_effect h with
  | submitCommit guards => exact recorded_submit hc guards
  | verifyCommit guards => exact recorded_verify hc guards
  | submitAggregatedCommit _ frame => exact recorded_of_same hc frame.commits frame.audits
  | setVerifyingKey => exact recorded_of_same hc rfl rfl
  | registerChain _ => exact recorded_of_same hc rfl rfl
  | registerAuditor => exact recorded_of_same hc rfl rfl
  | registerCommitter _ => exact recorded_of_same hc rfl rfl
  | slashCommitter _ => exact recorded_of_same hc rfl rfl
  | claimRewards _ => exact recorded_of_same hc rfl rfl
  | createTreeNode _ => exact recorded_of_same hc rfl rfl
  | deposit => exact recorded_of_same hc rfl rfl

theorem committers_afterVerify (msg : Msg) (commitId : Bytes32) (proof : Proof) (c : AuditContract) :
    (afterVerify msg commitId proof c).committers (c.commits commitId).committer
      = { c.committers (c.commits commitId).committer with
          totalCommits := (c.committers (c.commits commitId).committer).totalCommits + 1
          rewards := (c.committers (c.commits commitId).committer).rewards + c.rewardPerCommit } :=
  update_self ..

/-! ## §3. One call and the outcomes. -/

/-- One slash more, of this commit. -/
theorem slashings_afterSlash (commitId : Bytes32) (c : AuditContract) (id : Bytes32) :
    slashings id (afterSlash commitId c) = slashings id c + (decide (commitId = id)).toNat := by
  show (commitId :: c.slashes).count id = _
  rw [List.count_cons]
  unfold slashings
  by_cases hid : commitId = id
  · simp [hid]
  · simp [hid]

/-- One more outcome of a commit that was not verified: allowed iff it was not slashed. -/
theorem outcomeOnce_add_iff {c c' : AuditContract} {commitId : Bytes32} (hc : OutcomeOnce c)
    (hunverified : verifications commitId c = 0)
    (hadd : ∀ id, verifications id c' + slashings id c'
      = verifications id c + slashings id c + (decide (commitId = id)).toNat) :
    OutcomeOnce c' ↔ commitId ∉ c.slashes := by
  have hcount : commitId ∉ c.slashes ↔ slashings commitId c = 0 := List.count_eq_zero.symm
  rw [hcount]
  constructor
  · intro h
    have hself := h commitId
    rw [hadd, decide_eq_true rfl] at hself
    simp only [Bool.toNat_true] at hself
    omega
  · intro hzero id
    rw [hadd]
    by_cases hid : commitId = id
    · subst hid
      simp only [decide_true, Bool.toNat_true]
      omega
    · have hone := hc id
      simp only [hid, decide_false, Bool.toNat_false]
      omega

/-- A call that decides no commit. -/
theorem outcomeOnce_of_same {c c' : AuditContract} {tx : Tx} (hc : OutcomeOnce c)
    (haudits : c'.audits = c.audits) (hslashes : c'.slashes = c.slashes)
    (hslash : ∀ id, tx.call ≠ .slashCommitter id) (hverify : ∀ id proof, tx.call ≠ .verifyCommit id proof) :
    OutcomeOnce c' ↔ NotSlashed c tx := by
  refine iff_of_true ?_ ?_
  · intro id
    unfold verifications slashings
    rw [haudits, hslashes]
    exact hc id
  · intro id h
    rcases h with h | ⟨proof, h⟩
    · exact absurd h (hslash id)
    · exact absurd h (hverify id proof)

/-- **One call** keeps it if it slashes nothing verified. -/
theorem outcomeOnce_step_iff (tx : Tx) (c c' : AuditContract) (hr : Recorded c)
    (hc : OutcomeOnce c) (h : exec pairing tx c = .ok c') : OutcomeOnce c' ↔ NotSlashed c tx := by
  cases exec_effect h with
  | @slashCommitter msg commitId guards =>
    have hnone : verifications commitId c = 0 := by
      rw [hr.verified, guards.unverified]
      rfl
    rw [outcomeOnce_add_iff hc hnone (fun id => by
      rw [slashings_afterSlash]
      show verifications id c + _ = _
      omega)]
    constructor
    · intro hnot id hcall
      rcases hcall with hcall | ⟨proof, hcall⟩
      · rw [← Call.slashCommitter.inj hcall]
        exact hnot
      · cases hcall
    · intro hnot
      exact hnot commitId (Or.inl rfl)
  | @verifyCommit msg commitId proof guards =>
    have hnone : verifications commitId c = 0 := by
      rw [hr.verified, guards.unverified]
      rfl
    rw [outcomeOnce_add_iff hc hnone (fun id => by
      rw [verifications_afterVerify]
      show _ + slashings id c = _
      omega)]
    constructor
    · intro hnot id hcall
      rcases hcall with hcall | ⟨proof, hcall⟩
      · cases hcall
      · rw [← (Call.verifyCommit.inj hcall).1]
        exact hnot
    · intro hnot
      exact hnot commitId (Or.inr ⟨proof, rfl⟩)
  | submitAggregatedCommit _ frame =>
    exact outcomeOnce_of_same hc frame.audits frame.slashes (by simp) (by simp)
  | setVerifyingKey => exact outcomeOnce_of_same hc rfl rfl (by simp) (by simp)
  | registerChain _ => exact outcomeOnce_of_same hc rfl rfl (by simp) (by simp)
  | registerAuditor => exact outcomeOnce_of_same hc rfl rfl (by simp) (by simp)
  | registerCommitter _ => exact outcomeOnce_of_same hc rfl rfl (by simp) (by simp)
  | submitCommit _ => exact outcomeOnce_of_same hc rfl rfl (by simp) (by simp)
  | claimRewards _ => exact outcomeOnce_of_same hc rfl rfl (by simp) (by simp)
  | createTreeNode _ => exact outcomeOnce_of_same hc rfl rfl (by simp) (by simp)
  | deposit => exact outcomeOnce_of_same hc rfl rfl (by simp) (by simp)

/-! ## §4. A contract with one chain and one committer.

The owner `1` registers chain 5 with root 0; `0xB0B` stakes 1 ether and submits commits of
the chain.  The verifier accepts the transitions from root 0. -/

/-- Accepts every transition from the root 0. -/
noncomputable def zeroPairing : PairingCheck := idealPairing (fun inputs => inputs.head? = some 0)

/-- The owner. -/
def ownerMsg : Msg := ⟨1, 10, 100, true⟩
/-- A committer. -/
def bobMsg : Msg := ⟨0xB0B, 11, 110, true⟩

/-- Key, chain 5, auditor and committer. -/
def opening : List (Move Tx) :=
  [.call ⟨ownerMsg, .setVerifyingKey ⟨0, 0⟩ ⟨(0, 0), (0, 0)⟩ ⟨(0, 0), (0, 0)⟩ ⟨(0, 0), (0, 0)⟩
      (List.replicate 3 ⟨0, 0⟩)⟩,
    .call ⟨ownerMsg, .registerChain 5 0⟩,
    .call ⟨bobMsg, .registerCommitter ether [5]⟩]

/-- With the key. -/
def withKey : AuditContract := { deploy 1 with vk_psi := emptyKey 2 }

/-- With chain 5. -/
def withChain : AuditContract :=
  { withKey with
    chains := update withKey.chains 5 ⟨5, 0, 10, 0, true⟩
    chainList := withKey.chainList ++ [5]
    chainStateHistory := update withKey.chainStateHistory 5
      (withKey.chainStateHistory 5 ++ [0]) }

/-- With the committer. -/
def opened : AuditContract := afterRegister bobMsg ether [5] withChain

theorem chains_withChain : withChain.chains 5 = ⟨5, 0, 10, 0, true⟩ := by
  show update withKey.chains 5 (⟨5, 0, 10, 0, true⟩ : AuditV1.ChainInfo) 5 = _
  exact update_self ..

/-- The run that opens it. -/
theorem run_opening (pairing : PairingCheck) :
    run (step pairing) ⟨deploy 1, []⟩ opening = ⟨opened, []⟩ := by
  have hkey : exec pairing ⟨ownerMsg, .setVerifyingKey ⟨0, 0⟩ ⟨(0, 0), (0, 0)⟩ ⟨(0, 0), (0, 0)⟩
      ⟨(0, 0), (0, 0)⟩ (List.replicate 3 ⟨0, 0⟩)⟩ (deploy 1) = .ok withKey := by
    show setVerifyingKey _ _ _ _ _ _ _ = _
    rw [setVerifyingKey, require_bind (show ownerMsg.sender = (deploy 1).owner from rfl)]
    rfl
  have hchain : exec pairing ⟨ownerMsg, .registerChain 5 0⟩ withKey = .ok withChain := by
    show registerChain _ _ _ _ = _
    rw [registerChain, require_bind (show ownerMsg.sender = withKey.owner from rfl),
      require_bind (show (withKey.chains 5).isActive = false from rfl)]
    rfl
  have hcan : CanRegister bobMsg ether [5] withChain := by
    refine ⟨rfl, by simp [MIN_COMMITTER_STAKE], ?_⟩
    intro chainId hmem
    rw [List.mem_singleton.mp hmem, chains_withChain]
  have hregister : exec pairing ⟨bobMsg, .registerCommitter ether [5]⟩ withChain = .ok opened :=
    registerCommitter_eq_ok.mpr ⟨hcan, rfl⟩
  unfold opening
  rw [run_call rfl hkey, run_call rfl hchain, run_call rfl hregister, run_nil]

/-- The id of `0xB0B`'s commit from root 0 to `root`. -/
def bobCommit (root : Bytes32) : Bytes32 := commitKey bobMsg 5 0 root

/-- A commit of `bob` from the root 0. -/
def submitBob (root : Bytes32) : Move Tx := .call ⟨bobMsg, .submitCommit 5 0 root⟩

/-- The contract with the first commit pending. -/
def pending (root : Bytes32) : AuditContract := afterSubmit bobMsg 5 0 root opened

theorem chains_opened : opened.chains 5 = ⟨5, 0, 10, 0, true⟩ := chains_withChain

theorem committers_opened : opened.committers 0xB0B = ⟨0xB0B, [5], 0, 0, true⟩ := by
  show update withChain.committers 0xB0B (⟨0xB0B, [5], 0, 0, true⟩ : CommitterInfo) 0xB0B = _
  exact update_self ..

theorem stakes_opened : opened.committerStakes 0xB0B = ether := by
  show update withChain.committerStakes 0xB0B ether 0xB0B = ether
  exact update_self ..

theorem balance_opened : opened.balance = ether := by
  show withChain.balance + ether = ether
  have hzero : withChain.balance = 0 := rfl
  omega

theorem auditors_opened : opened.auditors 1 = true := by
  show update (fun _ => false) 1 true 1 = true
  exact update_self ..

/-- The submission goes through. -/
theorem submitBob_ok (pairing : PairingCheck) (root : Bytes32) :
    exec pairing ⟨bobMsg, .submitCommit 5 0 root⟩ opened = .ok (pending root) := by
  refine submitCommit_eq_ok.mpr ⟨⟨?_, ?_, ?_, rfl⟩, rfl⟩
  · show (opened.committers 0xB0B).isRegistered = true
    rw [committers_opened]
  · rw [chains_opened]
  · rw [chains_opened]

/-- The run that submits. -/
theorem run_pending (pairing : PairingCheck) (root : Bytes32) :
    run (step pairing) ⟨deploy 1, []⟩ (opening ++ [submitBob root]) = ⟨pending root, []⟩ := by
  rw [run_append, run_opening]
  exact run_call rfl (submitBob_ok pairing root) []

theorem commits_pending (root : Bytes32) :
    (pending root).commits (bobCommit root) = newCommit bobMsg 5 0 root :=
  commits_afterSubmit_self ..

/-- The verifier accepts the first commit, whatever its root below the field. -/
theorem zeroPairing_accepts {root : Bytes32} (hroot : root.toNat < SCALAR_MODULUS) :
    verify zeroPairing (emptyKey 2) emptyProof (auditInputs 0 root) = .ok true := by
  refine verify_eq_true.mpr ⟨rfl, ?_, idealPairing_eq_true.mpr rfl⟩
  intro x hx
  simp only [auditInputs, List.mem_cons, List.not_mem_nil, or_false] at hx
  rcases hx with rfl | rfl
  · unfold SCALAR_MODULUS
    decide
  · exact hroot

theorem eleven_lt_modulus : (11 : Bytes32).toNat < SCALAR_MODULUS := by
  unfold SCALAR_MODULUS
  decide

/-- The reward can be paid. -/
theorem canReward_opened : CanReward 0xB0B opened := by
  refine ⟨?_, ?_⟩
  · rw [committers_opened]
    show 0 + 1 < 2 ^ 256
    omega
  · rw [committers_opened]
    show 0 + 1000000000000000 < 2 ^ 256
    omega

theorem pending_frame (root : Bytes32) : SubmitFrame opened (pending root) :=
  afterSubmit_frame bobMsg 5 0 root opened

/-- The owner can verify a commit of `0xB0B` where only commits were added. -/
theorem canVerify_commit {c : AuditContract} {commitId root : Bytes32}
    (hframe : SubmitFrame opened c)
    (hcommit : c.commits commitId = newCommit bobMsg 5 0 root)
    (hroot : root.toNat < SCALAR_MODULUS) :
    CanVerify zeroPairing ownerMsg commitId emptyProof c := by
  refine ⟨?_, ?_, ?_, ?_, ?_, ?_, ?_⟩
  · rw [hframe.auditors]
    exact auditors_opened
  · rw [hcommit]
    show 0 < 110
    omega
  · rw [hcommit]
    rfl
  · rw [hcommit, hframe.vk_psi]
    exact zeroPairing_accepts hroot
  · rw [hcommit, hframe.chains]
    show (opened.chains 5).totalCommits + 1 < 2 ^ 256
    rw [chains_opened]
    show 0 + 1 < 2 ^ 256
    omega
  · rw [hcommit, hframe.committers]
    exact canReward_opened.commits
  · rw [hcommit, hframe.committers, hframe.rewardPerCommit]
    exact canReward_opened.rewards

/-- The commit can be verified. -/
theorem canVerify_pending {root : Bytes32} (hroot : root.toNat < SCALAR_MODULUS) :
    CanVerify zeroPairing ownerMsg (bobCommit root) emptyProof (pending root) :=
  canVerify_commit (pending_frame root) (commits_pending root) hroot

/-! ## §5. Whole runs. -/

/-- **At most one outcome per commit, exactly in the runs in which no slash and no
verification finds its commit slashed.** -/
theorem outcome_once_iff (pairing : PairingCheck) (deployer : Address) (moves : List (Move Tx)) :
    (∀ k, OutcomeOnce (run (step pairing) ⟨deploy deployer, []⟩ (moves.take k)).current)
      ↔ StepsMeet (step pairing) (OnCalls (exec pairing) NotSlashed) ⟨deploy deployer, []⟩ moves := by
  refine reentrant_invariant_iff recorded_step outcomeOnce_step_iff moves
    (recorded_deploy deployer) ?_
  intro id
  exact Nat.zero_le 1

/-- One slash, accepted by the auditor's code. -/
theorem run_slash {c : AuditContract} {msg : Msg} {commitId : Bytes32}
    (hcan : CanSlash msg commitId c) (pairing : PairingCheck) :
    run (step pairing) ⟨c, []⟩ [.call ⟨msg, .slashCommitter commitId⟩, .accept]
      = ⟨afterSlash commitId c, []⟩ := by
  have hslash : exec pairing ⟨msg, .slashCommitter commitId⟩ c = .ok (afterSlash commitId c) :=
    slashCommitter_eq_ok.mpr ⟨hcan, rfl⟩
  exact run_send rfl hslash []

/-- The run that verifies. -/
theorem run_verify {c : AuditContract} {msg : Msg} {commitId : Bytes32} {proof : Proof}
    (hcan : CanVerify pairing msg commitId proof c) :
    run (step pairing) ⟨c, []⟩ [.call ⟨msg, .verifyCommit commitId proof⟩]
      = ⟨afterVerify msg commitId proof c, []⟩ := by
  have hverify : exec pairing ⟨msg, .verifyCommit commitId proof⟩ c
      = .ok (afterVerify msg commitId proof c) := verifyCommit_eq_ok.mpr ⟨hcan, rfl⟩
  exact run_call rfl hverify []

/-- A slash leaves the commit as it was: with enough stake it can be slashed again, -/
theorem canSlash_again {c : AuditContract} {msg : Msg} {commitId : Bytes32}
    (h : CanSlash msg commitId c)
    (hstake : SLASH_AMOUNT + SLASH_AMOUNT ≤ c.committerStakes (c.commits commitId).committer)
    (hbalance : SLASH_AMOUNT + SLASH_AMOUNT ≤ c.balance) :
    CanSlash msg commitId (afterSlash commitId c) := by
  refine ⟨h.auditor, h.found, h.unverified, ?_, ?_⟩
  · show SLASH_AMOUNT ≤ update c.committerStakes (c.commits commitId).committer
      (c.committerStakes (c.commits commitId).committer - SLASH_AMOUNT)
      (c.commits commitId).committer
    rw [update_self]
    omega
  · show SLASH_AMOUNT ≤ c.balance - SLASH_AMOUNT
    omega

/-- and it can still be verified. -/
theorem canVerify_afterSlash {c : AuditContract} {msg : Msg} {commitId : Bytes32} {proof : Proof}
    (h : CanVerify pairing msg commitId proof c) (id : Bytes32) :
    CanVerify pairing msg commitId proof (afterSlash id c) :=
  ⟨h.auditor, h.found, h.unverified, h.accepted, h.room, ⟨h.rewarded.commits, h.rewarded.rewards⟩⟩

/-- Two slashes and a verification are three outcomes. -/
theorem three_outcomes (msg : Msg) (commitId : Bytes32) (proof : Proof) (c : AuditContract) :
    ¬ OutcomeOnce (afterVerify msg commitId proof (afterSlash commitId (afterSlash commitId c))) := by
  intro hall
  have honce := hall commitId
  have hverified := verifications_afterVerify msg commitId proof
    (afterSlash commitId (afterSlash commitId c)) commitId
  have hslashed : slashings commitId (afterVerify msg commitId proof
      (afterSlash commitId (afterSlash commitId c)))
      = slashings commitId (afterSlash commitId (afterSlash commitId c)) := rfl
  rw [hverified, hslashed, slashings_afterSlash, slashings_afterSlash, decide_eq_true rfl] at honce
  simp only [Bool.toNat_true] at honce
  omega

theorem slash_twice_ether : SLASH_AMOUNT + SLASH_AMOUNT = ether := by
  unfold SLASH_AMOUNT
  decide

theorem stake_pending (root : Bytes32) :
    (pending root).committerStakes ((pending root).commits (bobCommit root)).committer
      = SLASH_AMOUNT + SLASH_AMOUNT := by
  rw [commits_pending, (pending_frame root).committerStakes, slash_twice_ether]
  exact stakes_opened

theorem balance_pending (root : Bytes32) : (pending root).balance = SLASH_AMOUNT + SLASH_AMOUNT := by
  rw [(pending_frame root).balance, balance_opened, slash_twice_ether]

/-- The commit can be slashed. -/
theorem canSlash_pending (root : Bytes32) : CanSlash ownerMsg (bobCommit root) (pending root) := by
  refine ⟨?_, ?_, ?_, ?_, ?_⟩
  · rw [(pending_frame root).auditors]
    exact auditors_opened
  · rw [commits_pending]
    show 0 < 110
    omega
  · rw [commits_pending]
    rfl
  · rw [stake_pending]
    omega
  · rw [balance_pending]
    omega

/-- `0xB0B`'s commit is slashed twice by the owner, who then verifies it. -/
theorem outcome_three_times : ¬ ∀ (pairing : PairingCheck) (deployer : Address)
    (moves : List (Move Tx)),
    OutcomeOnce (run (step pairing) ⟨deploy deployer, []⟩ moves).current := by
  intro hall
  have honce := hall zeroPairing 1
    ((opening ++ [submitBob 11])
      ++ ([.call ⟨ownerMsg, .slashCommitter (bobCommit 11)⟩, .accept]
      ++ ([.call ⟨ownerMsg, .slashCommitter (bobCommit 11)⟩, .accept]
      ++ [.call ⟨ownerMsg, .verifyCommit (bobCommit 11) emptyProof⟩])))
  have hfirst := canSlash_pending 11
  have hsecond := canSlash_again hfirst (le_of_eq (stake_pending 11).symm)
    (le_of_eq (balance_pending 11).symm)
  have hthird := canVerify_afterSlash (canVerify_afterSlash (canVerify_pending eleven_lt_modulus)
    (bobCommit 11)) (bobCommit 11)
  rw [run_append, run_pending, run_append, run_slash hfirst, run_append, run_slash hsecond,
    run_verify hthird] at honce
  exact absurd honce (three_outcomes ownerMsg (bobCommit 11) emptyProof (pending 11))

end HZKA.PsiV1
