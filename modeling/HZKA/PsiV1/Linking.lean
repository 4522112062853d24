/-
  HZKA.PsiV1.Linking
  ────────────
  **DOES A VERIFIED COMMIT EXTEND THE LATEST ROOT?**

  `submitCommit` compares the old root of a commit with the latest root of its chain;
  `verifyCommit`, which moves that root, does not compare again.  Between the two another
  commit of the chain may have been verified.

    • `Filed` — the latest root of a chain is the last entry of its history, always;
    • `verified_in_order` — a verification is in order if no commit that moves the root was
      verified since the submission of its own, and then neighbours in the history are linked
      by an audit;
    • `verified_fork` — two commits from root 0, both verified.
-/
import HZKA.PsiV1.Lifecycle
import Mathlib.Data.List.Chain

namespace HZKA.PsiV1

open Function
open HZKA.Lib HZKA.EVM HZKA.Groth16Verifier HZKA.AuditV1

/-! ## §1. The property and the condition. -/

variable (pairing : PairingCheck)

/-- Some accepted audit of the chain leads from `r` to `r'`. -/
def Linked (c : AuditContract) (chainId : AuditV1.ChainId) (r r' : Bytes32) : Prop :=
  ∃ a ∈ c.audits, a.chainId = chainId ∧ a.oldRoot = r ∧ a.newRoot = r'
    ∧ verify pairing a.vk a.proof (auditInputs r r') = .ok true

/-- Every history is a chain of linked roots. -/
def HistoryLinked (c : AuditContract) : Prop :=
  ∀ chainId, (c.chainStateHistory chainId).IsChain (Linked pairing c chainId)

/-- Each successful verification of the run finds the old root of its commit to be the latest
root of the chain. -/
def VerifiedInOrder (s₀ : CallStack AuditContract) (moves : List (Move Tx)) : Prop :=
  ∀ before msg commitId proof after,
    moves = before ++ .call ⟨msg, .verifyCommit commitId proof⟩ :: after →
    (step pairing (.call ⟨msg, .verifyCommit commitId proof⟩)
      (run (step pairing) s₀ before)).isOk = true →
    ((run (step pairing) s₀ before).current.chains
        ((run (step pairing) s₀ before).current.commits commitId).chainId).latestStateRoot
      = ((run (step pairing) s₀ before).current.commits commitId).oldStateRoot

/-- No call is an aggregated commit. -/
def Direct (tx : Tx) : Prop :=
  ∀ nodeId childRoots aggregatedRoot proof,
    tx.call ≠ .submitAggregatedCommit nodeId childRoots aggregatedRoot proof

/-- After the submission of what the record `commitId` holds, the history of its chain got no
root but the one the commit starts from: no commit that moves the root was verified since. -/
def UnmovedSinceSubmission (s₀ : CallStack AuditContract) (before : List (Move Tx))
    (commitId : Bytes32) : Prop :=
  let c := (run (step pairing) s₀ before).current
  let commit := c.commits commitId
  ∃ start msg rest added,
    before = start ++ .call ⟨msg, .submitCommit commit.chainId commit.oldStateRoot
      commit.newStateRoot⟩ :: rest
    ∧ (step pairing (.call ⟨msg, .submitCommit commit.chainId commit.oldStateRoot
      commit.newStateRoot⟩) (run (step pairing) s₀ start)).isOk = true
    ∧ c.chainStateHistory commit.chainId
      = (run (step pairing) s₀ start).current.chainStateHistory commit.chainId ++ added
    ∧ ∀ root ∈ added, root = commit.oldStateRoot

/-- Each successful verification of the run meets it. -/
structure InOrder (s₀ : CallStack AuditContract) (moves : List (Move Tx)) : Prop where
  direct : ∀ tx, .call tx ∈ moves → Direct tx
  unmoved : ∀ before msg commitId proof after,
    moves = before ++ .call ⟨msg, .verifyCommit commitId proof⟩ :: after →
    (step pairing (.call ⟨msg, .verifyCommit commitId proof⟩)
      (run (step pairing) s₀ before)).isOk = true →
    UnmovedSinceSubmission pairing s₀ before commitId

/-! ## §2. The invariant. -/

/-- A recorded commit is of an active chain, and the history of an active chain ends in its
latest root. -/
structure Filed (c : AuditContract) : Prop where
  active : ∀ id, 0 < (c.commits id).timestamp → (c.chains (c.commits id).chainId).isActive = true
  empty : ∀ chainId, (c.chains chainId).isActive = false → c.chainStateHistory chainId = []
  last : ∀ chainId, (c.chains chainId).isActive = true →
    (c.chainStateHistory chainId).getLast? = some (c.chains chainId).latestStateRoot

variable {pairing}

/-- Nothing is filed. -/
theorem filed_deploy (deployer : Address) : Filed (deploy deployer) where
  active := fun _ h => absurd h (lt_irrefl 0)
  empty := fun _ _ => rfl
  last := fun _ h => absurd h Bool.false_ne_true

/-- Calls that touch neither chains nor commits. -/
theorem filed_of_same {c c' : AuditContract} (hc : Filed c) (hchains : c'.chains = c.chains)
    (hcommits : c'.commits = c.commits) (hhistory : c'.chainStateHistory = c.chainStateHistory) :
    Filed c' := by
  refine ⟨?_, ?_, ?_⟩
  · rw [hchains, hcommits]
    exact hc.active
  · rw [hchains, hhistory]
    exact hc.empty
  · rw [hchains, hhistory]
    exact hc.last

/-- A new chain: no commit is recorded for it yet. -/
theorem filed_registerChain {c : AuditContract} {chainId : AuditV1.ChainId}
    {initialRoot : Bytes32} {number : Nat} (hc : Filed c)
    (hfresh : (c.chains chainId).isActive = false) :
    Filed { c with
      chains := update c.chains chainId ⟨chainId, initialRoot, number, 0, true⟩
      chainList := c.chainList ++ [chainId]
      chainStateHistory := update c.chainStateHistory chainId
        (c.chainStateHistory chainId ++ [initialRoot]) } := by
  refine ⟨?_, ?_, ?_⟩
  · intro id hid
    have hother : (c.commits id).chainId ≠ chainId := by
      intro heq
      have hactive := hc.active id hid
      rw [heq, hfresh] at hactive
      exact Bool.false_ne_true hactive
    dsimp only at hid ⊢
    rw [update_of_ne hother]
    exact hc.active id hid
  · intro x
    dsimp only
    by_cases hx : x = chainId
    · subst hx
      rw [update_self]
      exact fun h => absurd h.symm Bool.false_ne_true
    · rw [update_of_ne hx, update_of_ne hx]
      exact hc.empty x
  · intro x
    dsimp only
    by_cases hx : x = chainId
    · subst hx
      rw [update_self, update_self, List.getLast?_concat]
      exact fun _ => rfl
    · rw [update_of_ne hx, update_of_ne hx]
      exact hc.last x

section

variable {c : AuditContract} {msg : Msg} {commitId : Bytes32} {proof : Proof}

theorem chains_afterVerify_self (msg : Msg) (commitId : Bytes32) (proof : Proof)
    (c : AuditContract) :
    (afterVerify msg commitId proof c).chains (c.commits commitId).chainId
      = { c.chains (c.commits commitId).chainId with
          latestStateRoot := (c.commits commitId).newStateRoot
          lastUpdateBlock := msg.number
          totalCommits := (c.chains (c.commits commitId).chainId).totalCommits + 1 } :=
  update_self ..

/-- Other chains keep their record. -/
theorem chains_afterVerify_of_ne {chainId : AuditV1.ChainId}
    (h : chainId ≠ (c.commits commitId).chainId) :
    (afterVerify msg commitId proof c).chains chainId = c.chains chainId :=
  update_of_ne h _ _

/-- The history gets the new root. -/
theorem history_afterVerify_self :
    (afterVerify msg commitId proof c).chainStateHistory (c.commits commitId).chainId
      = c.chainStateHistory (c.commits commitId).chainId ++ [(c.commits commitId).newStateRoot] :=
  update_self ..

/-- Other chains keep their history. -/
theorem history_afterVerify_of_ne {chainId : AuditV1.ChainId}
    (h : chainId ≠ (c.commits commitId).chainId) :
    (afterVerify msg commitId proof c).chainStateHistory chainId = c.chainStateHistory chainId :=
  update_of_ne h _ _

/-- Verification keeps the activity flag. -/
theorem isActive_afterVerify (msg : Msg) (commitId : Bytes32) (proof : Proof) (c : AuditContract)
    (chainId : AuditV1.ChainId) :
    ((afterVerify msg commitId proof c).chains chainId).isActive = (c.chains chainId).isActive := by
  by_cases h : chainId = (c.commits commitId).chainId
  · subst h
    rw [chains_afterVerify_self]
  · rw [chains_afterVerify_of_ne h]

/-- A verification changes the flag of its commit only. -/
theorem commits_afterVerify_of_ne {id : Bytes32} (h : id ≠ commitId) :
    (afterVerify msg commitId proof c).commits id = c.commits id :=
  commits_markVerified_of_ne h proof c

theorem commits_afterVerify_self :
    (afterVerify msg commitId proof c).commits commitId
      = { c.commits commitId with isVerified := true } :=
  commits_markVerified_self commitId proof c

/-- The chain and the timestamp of a commit stay. -/
theorem commit_afterVerify (msg : Msg) (commitId : Bytes32) (proof : Proof) (c : AuditContract)
    (id : Bytes32) :
    ((afterVerify msg commitId proof c).commits id).chainId = (c.commits id).chainId
      ∧ ((afterVerify msg commitId proof c).commits id).timestamp = (c.commits id).timestamp := by
  by_cases hid : id = commitId
  · subst hid
    rw [commits_afterVerify_self]
    exact ⟨rfl, rfl⟩
  · rw [commits_afterVerify_of_ne hid]
    exact ⟨rfl, rfl⟩

/-- A link stays. -/
theorem linked_afterVerify (msg : Msg) (commitId : Bytes32) (proof : Proof)
    {chainId : AuditV1.ChainId} {r r' : Bytes32} (h : Linked pairing c chainId r r') :
    Linked pairing (afterVerify msg commitId proof c) chainId r r' := by
  obtain ⟨a, ha, hfacts⟩ := h
  exact ⟨a, List.mem_cons_of_mem _ ha, hfacts⟩

/-- A verification moves the latest root and the end of the history together. -/
theorem filed_verify (hc : Filed c) (hcan : CanVerify pairing msg commitId proof c) :
    Filed (afterVerify msg commitId proof c) := by
  refine ⟨?_, ?_, ?_⟩
  · intro id
    obtain ⟨hchain, htime⟩ := commit_afterVerify msg commitId proof c id
    rw [hchain, htime, isActive_afterVerify]
    exact hc.active id
  · intro x hx
    rw [isActive_afterVerify] at hx
    have hne : x ≠ (c.commits commitId).chainId := by
      intro heq
      rw [heq, hc.active commitId hcan.found] at hx
      exact Bool.false_ne_true hx.symm
    rw [history_afterVerify_of_ne hne]
    exact hc.empty x hx
  · intro x hx
    rw [isActive_afterVerify] at hx
    by_cases hchain : x = (c.commits commitId).chainId
    · subst hchain
      rw [history_afterVerify_self, chains_afterVerify_self, List.getLast?_concat]
    · rw [history_afterVerify_of_ne hchain, chains_afterVerify_of_ne hchain]
      exact hc.last x hx

/-- One more entry, linked to the last one by the audit just accepted. -/
theorem linked_verify (hc : Filed c) (hlinked : HistoryLinked pairing c)
    (hcan : CanVerify pairing msg commitId proof c)
    (hlatest : (c.chains (c.commits commitId).chainId).latestStateRoot
      = (c.commits commitId).oldStateRoot) :
    HistoryLinked pairing (afterVerify msg commitId proof c) := by
  intro x
  have hold := (hlinked x).imp (fun r r' h => linked_afterVerify msg commitId proof h)
  by_cases hchain : x = (c.commits commitId).chainId
  · subst hchain
    rw [history_afterVerify_self, List.isChain_append]
    refine ⟨hold, List.isChain_singleton _, ?_⟩
    intro r hr r' hr'
    rw [hc.last _ (hc.active commitId hcan.found), hlatest] at hr
    rw [← Option.mem_some.mp hr, ← Option.mem_some.mp hr']
    exact ⟨_, List.mem_cons_self, rfl, rfl, rfl, hcan.accepted⟩
  · rw [history_afterVerify_of_ne hchain]
    exact hold

end

/-- **Each call but an aggregated commit** keeps the records filed. -/
theorem filed_step (tx : Tx) (c c' : AuditContract) (hdirect : Direct tx) (hc : Filed c)
    (h : exec pairing tx c = .ok c') : Filed c' := by
  cases exec_effect h with
  | registerChain fresh => exact filed_registerChain hc fresh
  | submitCommit guards => exact ⟨active_afterSubmit guards hc.active, hc.empty, hc.last⟩
  | verifyCommit guards => exact filed_verify hc guards
  | submitAggregatedCommit _ _ => exact absurd rfl (hdirect _ _ _ _)
  | setVerifyingKey => exact filed_of_same hc rfl rfl rfl
  | registerAuditor => exact filed_of_same hc rfl rfl rfl
  | registerCommitter _ => exact filed_of_same hc rfl rfl rfl
  | slashCommitter _ => exact filed_of_same hc rfl rfl rfl
  | claimRewards _ => exact filed_of_same hc rfl rfl rfl
  | createTreeNode _ => exact filed_of_same hc rfl rfl rfl
  | deposit => exact filed_of_same hc rfl rfl rfl

/-- A call of the kind, and a verification from the latest root only. -/
def FromLatest (c : AuditContract) (tx : Tx) : Prop :=
  Direct tx ∧ ∀ commitId proof, tx.call = .verifyCommit commitId proof →
    (c.chains (c.commits commitId).chainId).latestStateRoot = (c.commits commitId).oldStateRoot

/-- **Verifications from the latest root** keep the history linked. -/
theorem linked_step (tx : Tx) (c c' : AuditContract) (hlatest : FromLatest c tx)
    (hc : Filed c ∧ HistoryLinked pairing c) (h : exec pairing tx c = .ok c') :
    Filed c' ∧ HistoryLinked pairing c' := by
  refine ⟨filed_step tx c c' hlatest.1 hc.1 h, ?_⟩
  cases exec_effect h with
  | @registerChain _ chainId _ fresh =>
    intro x
    by_cases hx : x = chainId
    · subst hx
      show (update c.chainStateHistory x _ x).IsChain _
      rw [update_self, hc.1.empty x fresh]
      exact List.isChain_singleton _
    · show (update c.chainStateHistory chainId _ x).IsChain _
      rw [update_of_ne hx]
      exact hc.2 x
  | submitCommit _ => exact hc.2
  | verifyCommit guards => exact linked_verify hc.1 hc.2 guards (hlatest.2 _ _ rfl)
  | submitAggregatedCommit _ _ => exact absurd rfl (hlatest.1 _ _ _ _)
  | setVerifyingKey => exact hc.2
  | registerAuditor => exact hc.2
  | registerCommitter _ => exact hc.2
  | slashCommitter _ => exact hc.2
  | claimRewards _ => exact hc.2
  | createTreeNode _ => exact hc.2
  | deposit => exact hc.2

/-! ## §3. Whole runs. -/

/-- What a success went through. -/
theorem canVerify_of_isOk {msg : Msg} {commitId : Bytes32} {proof : Proof}
    {s : CallStack AuditContract}
    (h : (step pairing (.call ⟨msg, .verifyCommit commitId proof⟩) s).isOk = true) :
    CanVerify pairing msg commitId proof s.current := by
  obtain ⟨c', hc', -⟩ := move_call_eq_ok.mp (exec_eq_ok_commit h)
  exact (verifyCommit_eq_ok.mp hc').1

/-- **In every run of direct calls**. -/
theorem filed_run (deployer : Address) {moves : List (Move Tx)}
    (hdirect : ∀ tx, .call tx ∈ moves → Direct tx) :
    Filed (run (step pairing) ⟨deploy deployer, []⟩ moves).current := by
  refine reentrant_invariant_of (C := fun _ tx => Direct tx) filed_step moves
    (filed_deploy deployer) (stepsMeet_of_forall ?_ _)
  intro m hm s tx c' hcall _
  exact hdirect tx (hcall ▸ hm)

/-- The submission compared the old root with the last entry of the history then, and what was
added since is the old root again. -/
theorem latest_of_unmoved {deployer : Address} {before : List (Move Tx)} {commitId : Bytes32}
    (hdirect : ∀ tx, .call tx ∈ before → Direct tx)
    (hunmoved : UnmovedSinceSubmission pairing ⟨deploy deployer, []⟩ before commitId)
    (hfound : 0 < ((run (step pairing) ⟨deploy deployer, []⟩ before).current.commits
      commitId).timestamp) :
    ((run (step pairing) ⟨deploy deployer, []⟩ before).current.chains
        ((run (step pairing) ⟨deploy deployer, []⟩ before).current.commits
          commitId).chainId).latestStateRoot
      = ((run (step pairing) ⟨deploy deployer, []⟩ before).current.commits
          commitId).oldStateRoot := by
  have hfiled : Filed (run (step pairing) ⟨deploy deployer, []⟩ before).current :=
    filed_run deployer hdirect
  obtain ⟨start, msg, rest, added, hbefore, hok, hhistory, hadded⟩ := hunmoved
  have hstart : Filed (run (step pairing) ⟨deploy deployer, []⟩ start).current := filed_run deployer
    (fun tx htx => hdirect tx (hbefore ▸ List.mem_append_left _ htx))
  obtain ⟨c', hsubmit, -⟩ := move_call_eq_ok.mp (exec_eq_ok_commit hok)
  obtain ⟨hcan, -⟩ := submitCommit_eq_ok.mp hsubmit
  have hlast := hfiled.last _ (hfiled.active commitId hfound)
  rw [hhistory, List.getLast?_append, hstart.last _ hcan.active, hcan.chained] at hlast
  -- the last root is that of the submission, or one added since; both are the old root
  cases hend : added.getLast? with
  | none =>
    rw [hend] at hlast
    exact (Option.some.inj hlast).symm
  | some root =>
    rw [hend] at hlast
    rw [← Option.some.inj hlast]
    exact hadded root (List.mem_of_getLast? hend)

/-- **Verified commits extend the latest root**, and the history is linked by accepted proofs,
in every run in which no commit that moves the root is verified between the submission of
another of the chain and its verification. -/
theorem verified_in_order (pairing : PairingCheck) (deployer : Address) (moves : List (Move Tx))
    (horder : InOrder pairing ⟨deploy deployer, []⟩ moves) :
    VerifiedInOrder pairing ⟨deploy deployer, []⟩ moves
      ∧ HistoryLinked pairing (run (step pairing) ⟨deploy deployer, []⟩ moves).current := by
  have hverified : VerifiedInOrder pairing ⟨deploy deployer, []⟩ moves := by
    intro before msg commitId proof after hmoves hok
    refine latest_of_unmoved ?_ (horder.unmoved before msg commitId proof after hmoves hok)
      (canVerify_of_isOk hok).found
    exact fun tx htx => horder.direct tx (hmoves ▸ List.mem_append_left _ htx)
  refine ⟨hverified, ?_⟩
  have hmeet : StepsMeet (step pairing) (OnCalls (exec pairing) FromLatest)
      ⟨deploy deployer, []⟩ moves := by
    refine stepsMeet_of_split fun before m after hmoves tx c' hcall hexec => ⟨?_, ?_⟩
    · exact horder.direct tx (hmoves ▸ hcall ▸ List.mem_append_right _ List.mem_cons_self)
    · intro commitId proof hverify
      obtain ⟨msg, call⟩ := tx
      obtain rfl : call = _ := hverify
      subst hcall
      exact hverified before msg commitId proof after hmoves
        (isOk_of_eq (move_call_eq_ok.mpr ⟨c', hexec, rfl⟩))
  have hnone : HistoryLinked pairing (deploy deployer) := fun _ => List.isChain_nil
  exact (reentrant_invariant_of linked_step moves ⟨filed_deploy deployer, hnone⟩ hmeet).2

/-- In the sample state nothing else is recorded. -/
theorem commits_pending_of_ne {id root : Bytes32} (h : id ≠ bobCommit root) :
    (pending root).commits id = AuditV1.CommitRecord.zero :=
  commits_afterSubmit_of_ne h opened

/-! ## §4. Two commits pending at once. -/

theorem bobCommit_ne : bobCommit 12 ≠ bobCommit 11 := by decide +kernel

/-- `0xB0B`'s commits to roots 11 and 12, both from root 0. -/
def twoPending : AuditContract := afterSubmit bobMsg 5 0 12 (pending 11)

/-- The run that submits both. -/
theorem run_twoPending (pairing : PairingCheck) :
    run (step pairing) ⟨deploy 1, []⟩ ((opening ++ [submitBob 11]) ++ [submitBob 12])
      = ⟨twoPending, []⟩ := by
  have hcan : CanSubmit bobMsg 5 0 12 (pending 11) := by
    refine ⟨?_, ?_, ?_, ?_⟩
    · rw [(pending_frame 11).committers]
      show (opened.committers 0xB0B).isRegistered = true
      rw [committers_opened]
    · rw [(pending_frame 11).chains, chains_opened]
    · rw [(pending_frame 11).chains, chains_opened]
    · show ((pending 11).commits (bobCommit 12)).timestamp = 0
      rw [commits_pending_of_ne bobCommit_ne]
      rfl
  have hsubmit : exec pairing ⟨bobMsg, .submitCommit 5 0 12⟩ (pending 11) = .ok twoPending :=
    submitCommit_eq_ok.mpr ⟨hcan, rfl⟩
  rw [run_append, run_pending]
  exact run_call rfl hsubmit []

/-- Another recorded commit can still be verified after a verification, if the counters have
room. -/
theorem canVerify_afterVerify {c : AuditContract} {msg : Msg} {commitId other : Bytes32}
    {proof proof' : Proof} (hne : other ≠ commitId)
    (h : CanVerify pairing msg other proof' c)
    (hroom : ((afterVerify msg commitId proof c).chains (c.commits other).chainId).totalCommits + 1
      < 2 ^ 256)
    (hreward : CanReward (c.commits other).committer (afterVerify msg commitId proof c)) :
    CanVerify pairing msg other proof' (afterVerify msg commitId proof c) := by
  have hsame : (afterVerify msg commitId proof c).commits other = c.commits other :=
    commits_afterVerify_of_ne hne
  refine ⟨h.auditor, ?_, ?_, ?_, ?_, ?_⟩
  · rw [hsame]
    exact h.found
  · rw [hsame]
    exact h.unverified
  · rw [hsame]
    exact h.accepted
  · rw [hsame]
    exact hroom
  · rw [hsame]
    exact hreward

theorem twelve_lt_modulus : (12 : Bytes32).toNat < SCALAR_MODULUS := by
  unfold SCALAR_MODULUS
  decide

theorem commits_twoPending_self : twoPending.commits (bobCommit 12) = newCommit bobMsg 5 0 12 :=
  commits_afterSubmit_self ..

theorem commits_twoPending_other : twoPending.commits (bobCommit 11) = newCommit bobMsg 5 0 11 := by
  have hsame : twoPending.commits (bobCommit 11) = (pending 11).commits (bobCommit 11) :=
    commits_afterSubmit_of_ne (fun h => bobCommit_ne h.symm) (pending 11)
  rw [hsame, commits_pending]

theorem twoPending_frame : SubmitFrame opened twoPending :=
  (pending_frame 11).trans (afterSubmit_frame bobMsg 5 0 12 (pending 11))

/-- Either of the two can be verified first. -/
theorem canVerify_eleven :
    CanVerify zeroPairing ownerMsg (bobCommit 11) emptyProof twoPending :=
  canVerify_commit twoPending_frame commits_twoPending_other eleven_lt_modulus

/-- The second can be verified. -/
theorem canVerify_twelve :
    CanVerify zeroPairing ownerMsg (bobCommit 12) emptyProof twoPending :=
  canVerify_commit twoPending_frame commits_twoPending_self twelve_lt_modulus

/-- The two submissions and the verification of the first. -/
def firstMoves : List (Move Tx) :=
  ((opening ++ [submitBob 11]) ++ [submitBob 12])
    ++ [.call ⟨ownerMsg, .verifyCommit (bobCommit 11) emptyProof⟩]

theorem submissions_only {msg : Msg} {commitId : Bytes32} {proof : Proof} :
    .call ⟨msg, .verifyCommit commitId proof⟩
      ∉ ((opening ++ [submitBob 11]) ++ [submitBob 12] : List (Move Tx)) := by
  simp [opening, submitBob]

/-- Nothing moved the root in between. -/
theorem unmoved_eleven : UnmovedSinceSubmission zeroPairing ⟨deploy 1, []⟩
    ((opening ++ [submitBob 11]) ++ [submitBob 12]) (bobCommit 11) := by
  unfold UnmovedSinceSubmission
  rw [run_twoPending]
  dsimp only
  rw [commits_twoPending_other]
  refine ⟨opening, bobMsg, [submitBob 12], [], ?_, ?_, ?_, fun _ h => absurd h List.not_mem_nil⟩
  · rw [List.append_assoc]
    rfl
  · rw [run_opening]
    exact isOk_of_eq (move_call_eq_ok.mpr ⟨_, submitBob_ok zeroPairing 11, rfl⟩)
  · rw [run_opening, List.append_nil]
    rfl

/-- A list with one more entry splits at a new entry in one way. -/
theorem last_split {l before after : List (Move Tx)} {x y : Move Tx} (hnot : y ∉ l)
    (h : l ++ [x] = before ++ y :: after) : before = l ∧ y = x := by
  rcases List.append_eq_append_iff.mp h with ⟨rest, rfl, hrest⟩ | ⟨rest, rfl, hrest⟩
  · cases rest with
    | nil => exact ⟨List.append_nil l, (List.cons.inj hrest).1.symm⟩
    | cons m rest => simp at hrest
  · cases rest with
    | nil => exact ⟨(List.append_nil before).symm, (List.cons.inj hrest).1⟩
    | cons m rest =>
      rw [← (List.cons.inj hrest).1] at hnot
      exact absurd (List.mem_append_right _ List.mem_cons_self) hnot

/-- With both pending, the first verification is in order. -/
theorem first_verified_in_order :
    VerifiedInOrder zeroPairing ⟨deploy 1, []⟩ firstMoves
      ∧ HistoryLinked zeroPairing (run (step zeroPairing) ⟨deploy 1, []⟩ firstMoves).current
      ∧ CanVerify zeroPairing ownerMsg (bobCommit 11) emptyProof twoPending := by
  have horder : InOrder zeroPairing ⟨deploy 1, []⟩ firstMoves := by
    refine ⟨?_, ?_⟩
    · intro tx htx
      simp only [firstMoves, opening, submitBob, List.cons_append, List.nil_append,
        List.mem_cons, List.not_mem_nil, or_false, Move.call.injEq] at htx
      rcases htx with rfl | rfl | rfl | rfl | rfl | rfl
      all_goals simp [Direct]
    · intro before msg commitId proof after hmoves _
      obtain ⟨rfl, hcall⟩ := last_split submissions_only hmoves
      simp only [Move.call.injEq, Tx.mk.injEq, Call.verifyCommit.injEq] at hcall
      rw [hcall.2.1]
      exact unmoved_eleven
  obtain ⟨hverified, hlinked⟩ := verified_in_order zeroPairing 1 firstMoves horder
  exact ⟨hverified, hlinked, canVerify_eleven⟩

/-- The chain after the first of them: its root is 11. -/
theorem chains_afterEleven :
    (afterVerify ownerMsg (bobCommit 11) emptyProof twoPending).chains 5 = ⟨5, 11, 10, 1, true⟩ := by
  have hself := chains_afterVerify_self ownerMsg (bobCommit 11) emptyProof twoPending
  have hchain : twoPending.chains 5 = ⟨5, 0, 10, 0, true⟩ := by
    rw [twoPending_frame.chains, chains_opened]
  have hid : (twoPending.commits (bobCommit 11)).chainId = 5 := by
    rw [commits_twoPending_other]
    rfl
  have hroot : (twoPending.commits (bobCommit 11)).newStateRoot = 11 := by
    rw [commits_twoPending_other]
    rfl
  rw [hid, hroot, hchain] at hself
  exact hself

/-- A second reward can be paid. -/
theorem canReward_afterEleven :
    CanReward 0xB0B (afterVerify ownerMsg (bobCommit 11) emptyProof twoPending) := by
  have hself := committers_afterVerify ownerMsg (bobCommit 11) emptyProof twoPending
  have haccount : twoPending.committers 0xB0B = ⟨0xB0B, [5], 0, 0, true⟩ := by
    rw [twoPending_frame.committers, committers_opened]
  have hcommitter : (twoPending.commits (bobCommit 11)).committer = 0xB0B := by
    rw [commits_twoPending_other]
    rfl
  rw [hcommitter, haccount] at hself
  refine ⟨?_, ?_⟩
  · rw [hself]
    show 0 + 1 + 1 < 2 ^ 256
    omega
  · rw [hself]
    show 0 + 1000000000000000 + 1000000000000000 < 2 ^ 256
    omega

theorem commits_afterEleven :
    (afterVerify ownerMsg (bobCommit 11) emptyProof twoPending).commits (bobCommit 12)
      = newCommit bobMsg 5 0 12 := by
  rw [commits_afterVerify_of_ne bobCommit_ne, commits_twoPending_self]

/-- The second commit can still be verified. -/
theorem canVerify_afterEleven : CanVerify zeroPairing ownerMsg (bobCommit 12) emptyProof
    (afterVerify ownerMsg (bobCommit 11) emptyProof twoPending) := by
  have hid : (newCommit bobMsg 5 0 12).chainId = 5 := rfl
  refine canVerify_afterVerify bobCommit_ne canVerify_twelve ?_ ?_
  · rw [commits_twoPending_self, hid, chains_afterEleven]
    show 1 + 1 < 2 ^ 256
    omega
  · rw [commits_twoPending_self]
    exact canReward_afterEleven

/-- Then the second is verified too. -/
def forkMoves : List (Move Tx) :=
  firstMoves ++ .call ⟨ownerMsg, .verifyCommit (bobCommit 12) emptyProof⟩ :: []

theorem forkMoves_direct : ∀ tx, .call tx ∈ forkMoves → Direct tx := by
  intro tx htx
  simp only [forkMoves, firstMoves, opening, submitBob, List.cons_append, List.nil_append, List.mem_cons,
    List.not_mem_nil, or_false, Move.call.injEq] at htx
  rcases htx with rfl | rfl | rfl | rfl | rfl | rfl | rfl
  all_goals simp [Direct]

/-- A verification of a commit that does not start at the latest root. -/
theorem not_in_order {s : CallStack AuditContract} {moves : List (Move Tx)} {c : AuditContract}
    {before : List (Move Tx)} {msg : Msg} {commitId : Bytes32} {proof : Proof}
    (hmoves : moves = before ++ [.call ⟨msg, .verifyCommit commitId proof⟩])
    (hrun : run (step pairing) s before = ⟨c, []⟩)
    (hcan : CanVerify pairing msg commitId proof c)
    (hroot : (c.chains (c.commits commitId).chainId).latestStateRoot
      ≠ (c.commits commitId).oldStateRoot) : ¬ VerifiedInOrder pairing s moves := by
  intro horder
  have hfound := horder before msg commitId proof [] hmoves
  rw [hrun] at hfound
  have hexec : exec pairing ⟨msg, .verifyCommit commitId proof⟩ c = .ok _ :=
    verifyCommit_eq_ok.mpr ⟨hcan, rfl⟩
  exact hroot (hfound (isOk_of_eq (move_call_eq_ok.mpr ⟨_, hexec, rfl⟩)))

/-- Both commits from root 0 are verified, the second when the latest root is 11. -/
theorem verified_fork : ¬ ∀ (pairing : PairingCheck) (deployer : Address) (moves : List (Move Tx)),
    (∀ tx, .call tx ∈ moves → Direct tx) →
    VerifiedInOrder pairing ⟨deploy deployer, []⟩ moves
      ∧ HistoryLinked pairing (run (step pairing) ⟨deploy deployer, []⟩ moves).current := by
  intro hall
  have horder := (hall zeroPairing 1 forkMoves forkMoves_direct).1
  refine not_in_order rfl ?_ canVerify_afterEleven ?_ horder
  · rw [firstMoves, run_append, run_twoPending, run_verify canVerify_eleven]
  · rw [commits_afterEleven]
    show ((afterVerify ownerMsg (bobCommit 11) emptyProof twoPending).chains 5).latestStateRoot ≠ 0
    rw [chains_afterEleven]
    show (11 : Bytes32) ≠ 0
    decide

end HZKA.PsiV1
