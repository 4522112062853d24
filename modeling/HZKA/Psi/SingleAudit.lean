/-
  HZKA.Psi.SingleAudit
  ────────────
  **THE SINGLE-COMMITTER PATH AND THE QUORUM.**

  `submitCommit` stores a commit twice: as a record of its own, which `verifyCommit` reads,
  and as an entry of the group of its block range, which `weightedAuditAccept` reads.
  `verifyCommit` never looks at the group, so it also accepts a commit that the other
  committers of the range contradict.

    • `OneVoice` — the invariant: the group has one committer, or one root;
    • `single_audit_backed` — where the submissions to a group never contradict those of
      somebody else, a verified commit has its group to itself or two thirds of it;
    • `single_audit_bypass` — bob's root is accepted against the larger weight of genesis.
-/
import HZKA.Psi.Quorum
import HZKA.Psi.RootHistory

namespace HZKA.Psi

open Function
open HZKA.Lib HZKA.EVM HZKA.Groth16Verifier HZKA.AuditContractV2
open HZKA.ReputationRegistry (genesis bob genesisMsg bobMsg)
open HZKA.Clusters (setting)

/-! ## §1. The property. -/

/-- Nobody else has submitted to the group. -/
def Solo (group : List WeightedSubmission) (committer : Address) : Prop :=
  ∀ e ∈ group, e.committer = committer

/-- All entries have the same root. -/
def Unanimous (group : List WeightedSubmission) (root : Bytes32) : Prop :=
  ∀ e ∈ group, e.submittedRoot = root

/-- What stands behind a commit: its committer alone, or two thirds of the group. -/
def Backed (group : List WeightedSubmission) (committer : Address) (root : Bytes32) : Prop :=
  Solo group committer ∨ 2 * weightOf group ≤ 3 * weightOf (votesFor group root)

/-- The verification of a commit that `msg.sender` submitted. -/
def verifyTx (msg : Msg) (chainId : ChainId) (oldRoot newRoot : Bytes32) (auditor : Msg)
    (proof : Proof) (accepts : Bool) : System.Tx :=
  .audit auditor (.verifyCommit (commitKey msg.sender chainId oldRoot newRoot msg.timestamp) proof
    accepts)

/-- After the run, whoever submitted a commit to the group and gets it verified is backed. -/
def QuorumKept (pairing : PairingCheck) (S : Setting) (groupId : Bytes32) (s₀ : System)
    (txs : List System.Tx) : Prop :=
  ∀ before msg range oldRoot newRoot after auditor proof accepts,
    txs = before ++ .audit msg (.submitCommit range oldRoot newRoot) :: after →
    groupKey range = groupId →
    (System.exec pairing S (.audit msg (.submitCommit range oldRoot newRoot))
      (run (System.exec pairing S) s₀ before)).isOk = true →
    (System.exec pairing S (verifyTx msg range.chainId oldRoot newRoot auditor proof accepts)
      (run (System.exec pairing S) s₀ txs)).isOk = true →
    Backed ((run (System.exec pairing S) s₀ txs).audit.commitGroups groupId) msg.sender newRoot

/-! ## §2. Groups with one voice. -/

/-- The group has one committer, or one root. -/
def OneVoice (groupId : Bytes32) (s : System) : Prop :=
  (∃ committer, Solo (s.audit.commitGroups groupId) committer)
    ∨ ∃ root, Unanimous (s.audit.commitGroups groupId) root

/-- All votes are for the one root. -/
theorem votesFor_of_unanimous {group : List WeightedSubmission} {root : Bytes32}
    (h : Unanimous group root) : votesFor group root = group := by
  unfold votesFor
  apply List.filter_eq_self.mpr
  intro e he
  exact decide_eq_true (h e he)

/-- Every entry of such a group is backed. -/
theorem backed_of_oneVoice {s : System} {g : Bytes32} (hs : OneVoice g s) {e : WeightedSubmission}
    (he : e ∈ s.audit.commitGroups g) :
    Backed (s.audit.commitGroups g) e.committer e.submittedRoot := by
  rcases hs with ⟨committer, hsolo⟩ | ⟨root, hroot⟩
  · left
    rw [hsolo e he]
    exact hsolo
  · right
    rw [hroot e he, votesFor_of_unanimous hroot]
    omega

/-- A submission to the group that succeeds finds it empty, or to itself, or of its own
opinion. -/
def Unopposed (pairing : PairingCheck) (S : Setting) (groupId : Bytes32) (s : System)
    (tx : System.Tx) : Prop :=
  ∀ msg range oldRoot newRoot, tx = .audit msg (.submitCommit range oldRoot newRoot) →
    (System.exec pairing S tx s).isOk = true → groupKey range = groupId →
    Solo (s.audit.commitGroups groupId) msg.sender
      ∨ Unanimous (s.audit.commitGroups groupId) newRoot

variable {pairing : PairingCheck} {S : Setting}

theorem solo_append {group : List WeightedSubmission} {committer : Address} (root : Bytes32)
    (weight : Nat) (h : Solo group committer) : Solo (group ++ [⟨committer, root, weight⟩]) committer := by
  intro e he
  rcases List.mem_append.mp he with hold | hnew
  · exact h e hold
  · rw [List.mem_singleton.mp hnew]

theorem unanimous_append {group : List WeightedSubmission} {root : Bytes32} (committer : Address)
    (weight : Nat) (h : Unanimous group root) :
    Unanimous (group ++ [⟨committer, root, weight⟩]) root := by
  intro e he
  rcases List.mem_append.mp he with hold | hnew
  · exact h e hold
  · rw [List.mem_singleton.mp hnew]

/-- One step keeps the one voice of the group. -/
theorem oneVoice_step {g : Bytes32} {s s' : System} {tx : System.Tx}
    (hmeet : Unopposed pairing S g s tx) (hs : OneVoice g s)
    (h : System.exec pairing S tx s = .ok s') : OneVoice g s' := by
  unfold OneVoice
  rcases groups_step h with ⟨msg, range, oldRoot, newRoot, weight, rfl, hgroups, -⟩ | ⟨hgroups, -⟩
  · rw [hgroups]
    by_cases hg : g = groupKey range
    · subst hg
      rw [update_self]
      rcases hmeet msg range oldRoot newRoot rfl (isOk_of_eq h) rfl with hsolo | hroot
      · exact Or.inl ⟨msg.sender, solo_append newRoot weight hsolo⟩
      · exact Or.inr ⟨newRoot, unanimous_append msg.sender weight hroot⟩
    · rw [update_of_ne hg]
      exact hs
  · rw [hgroups]
    exact hs

/-- No group yet. -/
theorem oneVoice_deploy (g : Bytes32) (deployers : Deployers) :
    OneVoice g (System.deploy deployers) := by
  left
  refine ⟨0, ?_⟩
  intro e he
  exact absurd he List.not_mem_nil

/-- The entry of a submission, -/
theorem entry_step {s s' : System} {msg : Msg} {range : BlockRange} {oldRoot newRoot : Bytes32}
    (h : System.exec pairing S (.audit msg (.submitCommit range oldRoot newRoot)) s = .ok s') :
    ∃ weight, ⟨msg.sender, newRoot, weight⟩ ∈ s'.audit.commitGroups (groupKey range) := by
  obtain ⟨-, h⟩ := System.exec_eq_ok.mp h
  obtain ⟨weight, reputation, -, rfl⟩ := submitCommit_eq_ok.mp h
  refine ⟨weight, ?_⟩
  have hgroup := commitGroups_addCommit msg range oldRoot newRoot weight reputation
    (s.manager.chainToCluster range.chainId) s.audit
  show _ ∈ (addCommit ..).commitGroups (groupKey range)
  rw [hgroup]
  exact List.mem_append_right _ (List.mem_singleton_self _)

/-- and that it stays for the rest of the run. -/
theorem entry_run {e : WeightedSubmission} {g : Bytes32} (txs : List System.Tx) (s : System)
    (he : e ∈ s.audit.commitGroups g) :
    e ∈ (run (System.exec pairing S) s txs).audit.commitGroups g := by
  refine run_invariant (P := fun s : System => e ∈ s.audit.commitGroups g) ?_ txs he
  intro s tx s' hs h
  rcases groups_step h with ⟨msg, range, oldRoot, newRoot, weight, rfl, hgroups, -⟩ | ⟨hgroups, -⟩
  · rw [hgroups]
    by_cases hg : g = groupKey range
    · rw [hg, update_self]
      rw [hg] at hs
      exact List.mem_append_left _ hs
    · rw [update_of_ne hg]
      exact hs
  · rw [hgroups]
    exact hs

/-! ## §3. Genesis and bob on one block range.

Genesis submits `root`, then bob submits 11; the verifier accepts the transitions from
root 7, the chain's first. -/

/-- Accepts every transition from the root 7. -/
noncomputable def fromSeven : PairingCheck := idealPairing (fun inputs => inputs.head? = some 7)

/-- Two entries, `bob`'s for the root 11. -/
def genesisThenBob (root : Bytes32) : List (Msg × Bytes32) := [(genesisMsg, root), (bobMsg, 11)]

/-- Genesis, an auditor, verifies bob's commit. -/
def verifyBob : System.Tx := verifyTx bobMsg 5 7 11 genesisMsg emptyProof true

theorem sender_genesisThenBob (root : Bytes32) :
    ∀ p ∈ genesisThenBob root, p.1.sender = genesis ∨ p.1.sender = bob := by
  intro p hp
  simp only [genesisThenBob, List.mem_cons, List.not_mem_nil, or_false] at hp
  rcases hp with rfl | rfl
  · left
    rfl
  · right
    rfl

theorem grown_genesisThenBob (pairing : PairingCheck) (root : Bytes32) :
    Grown range ((genesisThenBob root).map openEntry) (openChain 5 7)
      (run (System.exec pairing setting) (System.deploy (.all genesis))
        (submissions (genesisThenBob root))) :=
  run_submissions pairing (genesisThenBob root) (sender_genesisThenBob root) (by
    show 2 < 2 ^ 256
    omega)

/-- The state in which bob submits, -/
theorem grown_genesis (pairing : PairingCheck) (root : Bytes32) :
    Grown range [openEntry (genesisMsg, root)] (openChain 5 7)
      (run (System.exec pairing setting) (System.deploy (.all genesis))
        (submissions [(genesisMsg, root)])) :=
  run_submissions pairing [(genesisMsg, root)] (by simp [genesisMsg]) (by simp)

/-- and the state that leaves. -/
theorem exec_bobSubmits (pairing : PairingCheck) {root : Bytes32} {s : System}
    (hgrown : Grown range [openEntry (genesisMsg, root)] (openChain 5 7) s) :
    System.exec pairing setting (submit range 7 (bobMsg, 11)) s
      = .ok (afterCommit bobMsg range 7 11 (openWeight bob)
        (ReputationRegistry.effective (s.registry.states bob)) s) := by
  have hmay : MaySubmit setting (openWeight bob) bob s := by
    have hopen := maySubmit_open 5 7 (Or.inr rfl : bob = genesis ∨ bob = bob)
    rw [hgrown.shape]
    exact ⟨hopen.external, hopen.staked, hopen.registered, hopen.weight⟩
  have hinv : ReputationRegistry.RegistryInv s.registry := by
    rw [hgrown.shape]
    exact openRegistry_serves.inv
  have hrep := ReputationRegistry.getEffectiveReputation_ok hinv bob
  have hcan : CanCommit bobMsg range (openWeight bob)
      (ReputationRegistry.effective (s.registry.states bob)) s := by
    refine ⟨?_, hmay.staked, hmay.registered, hmay.weight, hrep, ?_⟩
    · rw [hgrown.active]
      show ((openChain 5 7).audit.chains 5).isActive = true
      rw [chains_openChain]
    · rw [hgrown.count]
      show ((openChain 5 7).audit.chains 5).totalCommits + 1 + 1 < 2 ^ 256
      rw [chains_openChain]
      show 0 + 1 + 1 < 2 ^ 256
      omega
  exact System.exec_eq_ok.mpr ⟨hmay.external, submitCommit_eq_ok.mpr ⟨_, _, hcan, rfl⟩⟩

theorem commits_afterCommit_self (msg : Msg) (range : BlockRange) (oldRoot newRoot : Bytes32)
    (weight reputation : Nat) (s : System) :
    (afterCommit msg range oldRoot newRoot weight reputation s).audit.commits
        (commitKey msg.sender range.chainId oldRoot newRoot msg.timestamp)
      = ⟨msg.sender, range.chainId, s.manager.chainToCluster range.chainId, oldRoot, newRoot,
        msg.timestamp, false, reputation⟩ :=
  update_self ..

theorem submissions_genesisThenBob (root : Bytes32) :
    submissions (genesisThenBob root)
      = submissions [(genesisMsg, root)] ++ [submit range 7 (bobMsg, 11)] :=
  submissions_snoc [(genesisMsg, root)] (bobMsg, 11)

/-- Bob's record, the last one written. -/
theorem commit_genesisThenBob (pairing : PairingCheck) (root : Bytes32) :
    ∃ clusterId reputation, (run (System.exec pairing setting) (System.deploy (.all genesis))
      (submissions (genesisThenBob root))).audit.commits (commitKey bob 5 7 11 bobMsg.timestamp)
      = ⟨bob, 5, clusterId, 7, 11, bobMsg.timestamp, false, reputation⟩ := by
  rw [submissions_genesisThenBob, run_snoc, commit_of_ok (exec_bobSubmits pairing (grown_genesis pairing root))]
  exact ⟨_, _, commits_afterCommit_self bobMsg range 7 11 _ _ _⟩

/-- Whatever genesis submitted, bob's commit can be verified. -/
theorem verifyBob_ok (root : Bytes32) :
    (System.exec fromSeven setting verifyBob (run (System.exec fromSeven setting)
      (System.deploy (.all genesis)) (submissions (genesisThenBob root)))).isOk = true := by
  have hgrown := grown_genesisThenBob fromSeven root
  obtain ⟨clusterId, reputation, hcommit⟩ := commit_genesisThenBob fromSeven root
  generalize run (System.exec fromSeven setting) (System.deploy (.all genesis))
    (submissions (genesisThenBob root)) = s at hgrown hcommit ⊢
  have hregistry : s.registry = openRegistry := by
    rw [hgrown.shape]
    rfl
  have hchain : (s.audit.chains 5).latestStateRoot = 7 := by
    rw [hgrown.root, chains_openChain]
  have hproof : proofAccepted fromSeven emptyProof 7 11 s.audit = .ok true := by
    have hreal : s.audit.useMockVerifier = false := by
      rw [hgrown.shape]
      rfl
    have hkey : s.audit.vk_psi = emptyKey 2 := by
      rw [hgrown.shape]
      rfl
    have hmodulus : 1000 < SCALAR_MODULUS := by norm_num [SCALAR_MODULUS]
    unfold proofAccepted
    rw [hreal, if_neg (by decide), hkey]
    refine verify_eq_true.mpr ⟨rfl, ?_, idealPairing_eq_true.mpr rfl⟩
    intro x hx
    simp only [List.mem_cons, List.not_mem_nil, or_false] at hx
    rcases hx with rfl | rfl
    · show 7 < SCALAR_MODULUS
      omega
    · show 11 < SCALAR_MODULUS
      omega
  have hregistered := (maySubmit_open 5 7 (Or.inr rfl : bob = genesis ∨ bob = bob)).registered
  have hcredit : ∃ reg', openRegistry.updateState (asAudit setting genesisMsg) bob .VALID 11
      = .ok reg' :=
    ReputationRegistry.updateState_ok _ 11 openRegistry_serves.authorized hregistered
      (openRegistry_serves.inv.records _ hregistered)
      (fun _ => openRegistry_serves.stakes.records bob) (fun h => by cases h)
  obtain ⟨reg', hcredit⟩ := hcredit
  have hcan : CanVerify fromSeven setting genesisMsg (commitKey bob 5 7 11 bobMsg.timestamp)
      emptyProof reg' s := by
    refine ⟨?_, ?_, ?_, ?_, ?_, ?_⟩
    · rw [hgrown.shape]
      rfl
    · rw [hcommit]
    · rw [hcommit, hgrown.active]
      show ((openChain 5 7).audit.chains 5).isActive = true
      rw [chains_openChain]
    · rw [hcommit, hchain]
    · rw [hcommit]
      exact hproof
    · rw [hcommit, hregistry]
      exact hcredit
  obtain ⟨balance, hverify⟩ := verifyCommit_ok hcan
  exact isOk_of_eq (System.exec_eq_ok.mpr
    ⟨(show System.External setting 1 by decide), hverify⟩)

/-! ## §4. The law. -/

/-- **A verified commit is backed** in every run whose submissions to its group contradict
nobody. -/
theorem single_audit_backed (pairing : PairingCheck) (S : Setting)
    (deployers : Deployers) (txs : List System.Tx) (groupId : Bytes32)
    (hmeet : StepsMeet (System.exec pairing S) (Unopposed pairing S groupId)
      (System.deploy deployers) txs) :
    QuorumKept pairing S groupId (System.deploy deployers) txs := by
  have hvoice : OneVoice groupId
      (run (System.exec pairing S) (System.deploy deployers) txs) :=
    run_invariant_of (fun _ _ _ hmeet hs h => oneVoice_step hmeet hs h) txs _
      (oneVoice_deploy groupId deployers) hmeet
  intro before msg range oldRoot newRoot after auditor proof accepts htxs hgroup hsubmit _
  subst hgroup
  -- the entry of the submission is still in the group
  obtain ⟨s', hs'⟩ := exists_of_isOk hsubmit
  obtain ⟨weight, hentry⟩ := entry_step hs'
  have hkept : ⟨msg.sender, newRoot, weight⟩
      ∈ (run (System.exec pairing S) s' after).audit.commitGroups (groupKey range) :=
    entry_run after s' hentry
  have hrun : run (System.exec pairing S) (System.deploy deployers) txs
      = run (System.exec pairing S) s' after := by
    rw [htxs, run_append, run_cons, commit_of_ok hs']
  rw [← hrun] at hkept
  exact backed_of_oneVoice hvoice hkept

/-- Both submit root 11, and bob's commit is verified. -/
theorem genesisThenBob_backed :
    QuorumKept fromSeven setting (groupKey range) (System.deploy (.all genesis))
        (submissions (genesisThenBob 11))
      ∧ (System.exec fromSeven setting verifyBob (run (System.exec fromSeven setting)
        (System.deploy (.all genesis)) (submissions (genesisThenBob 11)))).isOk = true := by
  refine ⟨single_audit_backed fromSeven setting (.all genesis) _ (groupKey range) ?_,
    verifyBob_ok 11⟩
  rw [submissions_genesisThenBob, stepsMeet_append]
  refine ⟨(stepsMeet_append _ (setup 5 7) _).mpr ⟨?_, ?_, trivial⟩, ?_, trivial⟩
  · exact stepsMeet_setup (fun s tx hnone msg range oldRoot newRoot hsubmit =>
      absurd hsubmit (hnone msg range oldRoot newRoot)) _
  · -- the first entry of the group
    intro msg range' oldRoot newRoot hsubmit _ _
    obtain ⟨rfl, hcall⟩ := System.Tx.audit.inj hsubmit
    obtain ⟨rfl, -, -⟩ := Call.submitCommit.inj hcall
    left
    rw [run_setup fromSeven (fun _ h => h)]
    intro e he
    exact absurd he List.not_mem_nil
  · -- the second, with the root of the first
    intro msg range' oldRoot newRoot hsubmit _ _
    obtain ⟨rfl, hcall⟩ := System.Tx.audit.inj hsubmit
    obtain ⟨rfl, -, rfl⟩ := Call.submitCommit.inj hcall
    right
    rw [(grown_genesis fromSeven 11).group]
    intro e he
    rw [List.mem_singleton.mp he]
    rfl

/-- Genesis, with more weight than bob, submits another root: bob's is accepted. -/
theorem single_audit_bypass : ¬ ∀ (pairing : PairingCheck) (S : Setting)
    (deployers : Deployers) (txs : List System.Tx) (groupId : Bytes32),
    RealVerifier pairing S (System.deploy deployers) txs →
    QuorumKept pairing S groupId (System.deploy deployers) txs := by
  intro hall
  have hreal : RealVerifier fromSeven setting (System.deploy (.all genesis))
      (submissions (genesisThenBob 12)) := by
    refine realVerifier_of_not_enabled rfl ?_
    intro msg hmem
    simp [submissions, setup, genesisThenBob, submit] at hmem
  have hsubmit : (System.exec fromSeven setting (submit range 7 (bobMsg, 11))
      (run (System.exec fromSeven setting) (System.deploy (.all genesis))
        (submissions [(genesisMsg, 12)]))).isOk = true :=
    isOk_of_eq (exec_bobSubmits fromSeven (grown_genesis fromSeven 12))
  have hbacked := hall fromSeven setting (.all genesis) (submissions (genesisThenBob 12))
    (groupKey range) hreal (submissions [(genesisMsg, 12)]) bobMsg range 7 11 [] genesisMsg
    emptyProof true rfl rfl hsubmit (verifyBob_ok 12)
  rw [group_submissions (grown_genesisThenBob fromSeven 12)] at hbacked
  rcases hbacked with hsolo | hvotes
  · have hother := hsolo (openEntry (genesisMsg, 12)) (by simp [genesisThenBob])
    exact absurd hother (by decide)
  · have hlight : ¬ 2 * (ReputationRegistry.R_MAX + ReputationRegistry.R_INITIAL)
        ≤ 3 * ReputationRegistry.R_INITIAL := by
      norm_num [ReputationRegistry.R_MAX, ReputationRegistry.R_INITIAL]
    exact absurd hvotes hlight

end HZKA.Psi
