/-
  HZKA.Psi.WriteOnce
  ────────────
  **COMMIT RECORDS UNDER IDS THAT MAY REPEAT.**

  A commit id is the hash of caller-chosen data and the block timestamp, and neither
  `submitCommit` nor `submitClusterCommit` looks whether it is in use.  The same cluster
  commit submitted again in the same block replaces its verified record by a fresh one
  (`record_reset`), which can be verified — and credited — again.

    • `FreshIds` — a submission finds nothing under its id;
    • `keptRecords_step` — the step lemma: then every record is kept, or verified now;
    • `credited_step` — a credited commit stays verified, so there is no second credit;
    • `records_write_once` — the run lemma.
-/
import HZKA.Psi.ClusterPath
import HZKA.Lib.RecordStore

namespace HZKA.Psi

open Function
open HZKA.Lib HZKA.EVM HZKA.Groth16Verifier HZKA.AuditContractV2
open HZKA.ReputationRegistry (RegistryInv genesis bob genesisMsg bobMsg)
open HZKA.Clusters (setting owner clusterOf withCluster)
open HZKA.ClusterManager (CanSubmit afterSubmit newCommitKey newClusterCommit mayVerify)

variable {pairing : PairingCheck} {S : Setting}

/-! ## §1. The two stores. -/

/-- A commit record is the same, or verified now. -/
abbrev CommitKept : CommitRecord → CommitRecord → Prop :=
  Kept CommitRecord.isVerified (fun r => { r with isVerified := true })

/-- A cluster commit record is the same, or verified now. -/
abbrev ClusterCommitKept : ClusterCommit → ClusterCommit → Prop :=
  Kept ClusterCommit.isVerified (fun r => { r with isVerified := true })

/-- What a transaction does to the records of the audit contract. -/
theorem records_step {tx : System.Tx} {s s' : System} (h : System.exec pairing S tx s = .ok s') :
    (∃ msg range oldRoot newRoot record,
        tx = .audit msg (.submitCommit range oldRoot newRoot) ∧ record.committer = msg.sender
        ∧ s'.audit.commits = update s.audit.commits
          (commitKey msg.sender range.chainId oldRoot newRoot msg.timestamp) record
        ∧ s'.audit.commitIds = s.audit.commitIds
          ++ [commitKey msg.sender range.chainId oldRoot newRoot msg.timestamp])
      ∨ (∃ commitId, (s.audit.commits commitId).isVerified = false
        ∧ s'.audit.commits = update s.audit.commits commitId
          { s.audit.commits commitId with isVerified := true }
        ∧ s'.audit.commitIds = s.audit.commitIds)
      ∨ s'.audit.commits = s.audit.commits ∧ s'.audit.commitIds = s.audit.commitIds := by
  cases System.exec_effect h with
  | submitCommit _ => exact Or.inl ⟨_, _, _, _, _, rfl, rfl, rfl, rfl⟩
  | singleAudit guards => exact Or.inr (Or.inl ⟨_, guards.unverified, rfl, rfl⟩)
  | legacyAudit guards _ =>
    have hshape := setRoots_shape guards.loop
    exact Or.inr (Or.inr ⟨by rw [hshape], by rw [hshape]⟩)
  | admin frame => exact Or.inr (Or.inr ⟨frame.commits, frame.commitIds⟩)
  | registry _ => exact Or.inr (Or.inr ⟨rfl, rfl⟩)
  | manager _ => exact Or.inr (Or.inr ⟨rfl, rfl⟩)
  | registerChain _ _ => exact Or.inr (Or.inr ⟨rfl, rfl⟩)
  | weightedAudit _ => exact Or.inr (Or.inr ⟨rfl, rfl⟩)
  | clusterAudit _ _ => exact Or.inr (Or.inr ⟨rfl, rfl⟩)

/-! ## §2. Fresh ids. -/

/-- A submission that succeeds finds nothing under its id. -/
structure FreshIds (pairing : PairingCheck) (S : Setting) (s : System) (tx : System.Tx) : Prop where
  commit : ∀ msg range oldRoot newRoot, tx = .audit msg (.submitCommit range oldRoot newRoot) →
    (System.exec pairing S tx s).isOk = true →
    s.audit.commits (commitKey msg.sender range.chainId oldRoot newRoot msg.timestamp)
      = CommitRecord.zero
  cluster : ∀ ctx clusterId chainRoots,
    tx = .manager ctx (.submitClusterCommit clusterId chainRoots) →
    (System.exec pairing S tx s).isOk = true →
    s.manager.clusterCommits (newCommitKey ctx clusterId chainRoots s.manager) = ClusterCommit.zero

/-- Recorded commits have a committer. -/
def Authored (s : System) : Prop := ∀ id ∈ s.audit.commitIds, (s.audit.commits id).committer ≠ 0

/-- **One transaction** keeps the authors. -/
theorem authored_step (s : System) (tx : System.Tx) (s' : System) (hs : Authored s)
    (h : System.exec pairing S tx s = .ok s') : Authored s' := by
  intro id hid
  rcases records_step h with ⟨msg, range, oldRoot, newRoot, record, rfl, hcommitter, hcommits, hids⟩
    | ⟨commitId, -, hcommits, hids⟩ | ⟨hcommits, hids⟩
  · rw [hcommits]
    rw [hids] at hid
    by_cases hkey : id = commitKey msg.sender range.chainId oldRoot newRoot msg.timestamp
    · rw [hkey, update_self, hcommitter]
      exact (System.exec_eq_ok.mp h).1.1
    · rw [update_of_ne hkey]
      rcases List.mem_append.mp hid with hold | hnew
      · exact hs id hold
      · exact absurd (List.mem_singleton.mp hnew) hkey
  · rw [hids] at hid
    rw [hcommits]
    by_cases hkey : id = commitId
    · rw [hkey, update_self]
      rw [hkey] at hid
      exact hs commitId hid
    · rw [update_of_ne hkey]
      exact hs id hid
  · rw [hids] at hid
    rw [hcommits]
    exact hs id hid

/-- **Every run** keeps the authors. -/
theorem authored_run (pairing : PairingCheck) (S : Setting) (deployers : Deployers)
    (txs : List System.Tx) :
    Authored (run (System.exec pairing S) (System.deploy deployers) txs) := by
  refine run_invariant authored_step txs ?_
  intro id hid
  exact absurd hid List.not_mem_nil

/-! ## §3. One transaction. -/

/-- Every record there was is still there, and is kept. -/
structure KeptRecords (s s' : System) : Prop where
  commitIds : s.audit.commitIds ⊆ s'.audit.commitIds
  commits : ∀ id ∈ s.audit.commitIds, CommitKept (s.audit.commits id) (s'.audit.commits id)
  commitHistory : s.manager.commitHistory ⊆ s'.manager.commitHistory
  clusterCommits : ∀ id ∈ s.manager.commitHistory,
    ClusterCommitKept (s.manager.clusterCommits id) (s'.manager.clusterCommits id)

theorem KeptRecords.refl (s : System) : KeptRecords s s :=
  ⟨fun _ h => h, fun _ _ => Or.inl rfl, fun _ h => h, fun _ _ => Or.inl rfl⟩

/-- Keeping records composes. -/
theorem KeptRecords.trans {s₁ s₂ s₃ : System} (h₁₂ : KeptRecords s₁ s₂) (h₂₃ : KeptRecords s₂ s₃) :
    KeptRecords s₁ s₃ := by
  refine ⟨List.Subset.trans h₁₂.commitIds h₂₃.commitIds, ?_,
    List.Subset.trans h₁₂.commitHistory h₂₃.commitHistory, ?_⟩
  · intro id hid
    exact (h₁₂.commits id hid).trans (fun _ => rfl) (h₂₃.commits id (h₁₂.commitIds hid))
  · intro id hid
    exact (h₁₂.clusterCommits id hid).trans (fun _ => rfl)
      (h₂₃.clusterCommits id (h₁₂.commitHistory hid))

/-- The audit contract's half. -/
theorem commits_kept {tx : System.Tx} {s s' : System} (hauthored : Authored s)
    (hfresh : FreshIds pairing S s tx) (h : System.exec pairing S tx s = .ok s') :
    s.audit.commitIds ⊆ s'.audit.commitIds
      ∧ ∀ id ∈ s.audit.commitIds, CommitKept (s.audit.commits id) (s'.audit.commits id) := by
  rcases records_step h with ⟨msg, range, oldRoot, newRoot, record, htx, -, hcommits, hids⟩
    | ⟨commitId, hopen, hcommits, hids⟩ | ⟨hcommits, hids⟩
  · -- the id is not in use: a recorded commit has a committer
    have hzero := hfresh.commit msg range oldRoot newRoot htx (isOk_of_eq h)
    have hunused : commitKey msg.sender range.chainId oldRoot newRoot msg.timestamp
        ∉ s.audit.commitIds := by
      intro hused
      refine hauthored _ hused ?_
      rw [hzero]
      rfl
    rw [hcommits, hids]
    exact ⟨List.subset_append_left _ _, fun id hid => kept_create hunused record hid⟩
  · rw [hcommits, hids]
    exact ⟨fun _ hid => hid, fun id _ => kept_mark hopen id⟩
  · rw [hcommits, hids]
    exact ⟨fun _ hid => hid, fun id _ => Or.inl rfl⟩

/-- The manager's half. -/
theorem clusterCommits_kept {tx : System.Tx} {s s' : System} (hbind : RecordsBind s)
    (hfresh : FreshIds pairing S s tx) (h : System.exec pairing S tx s = .ok s') :
    s.manager.commitHistory ⊆ s'.manager.commitHistory
      ∧ ∀ id ∈ s.manager.commitHistory,
        ClusterCommitKept (s.manager.clusterCommits id) (s'.manager.clusterCommits id) := by
  rcases (System.commits_step h).2 with ⟨ctx, clusterId, chainRoots, htx, -, hs'⟩
    | ⟨commitId, hopen, hs'⟩ | hsame
  · -- the id is not in use: a recorded commit has a head
    have hzero := hfresh.cluster ctx clusterId chainRoots htx (isOk_of_eq h)
    have hunused : newCommitKey ctx clusterId chainRoots s.manager ∉ s.manager.commitHistory := by
      intro hused
      refine hbind.head _ hused ?_
      rw [hzero]
      rfl
    rw [hs']
    exact ⟨List.subset_append_left _ _, fun id hid => kept_create hunused _ hid⟩
  · rw [hs']
    exact ⟨fun _ hid => hid, fun id _ => kept_mark hopen id⟩
  · rw [hsame.clusterCommits, hsame.commitHistory]
    exact ⟨fun _ hid => hid, fun id _ => Or.inl rfl⟩

/-- **One transaction** keeps the records. -/
theorem keptRecords_step {tx : System.Tx} {s s' : System} (hauthored : Authored s)
    (hbind : RecordsBind s) (hfresh : FreshIds pairing S s tx)
    (h : System.exec pairing S tx s = .ok s') : KeptRecords s s' := by
  obtain ⟨hids, hcommits⟩ := commits_kept hauthored hfresh h
  obtain ⟨hhistory, hclusterCommits⟩ := clusterCommits_kept hbind hfresh h
  exact ⟨hids, hcommits, hhistory, hclusterCommits⟩

/-- A credited commit is verified, and credited once. -/
structure Credited (s : System) : Prop where
  verified : ∀ id ∈ s.manager.credits, (s.manager.clusterCommits id).isVerified = true
  once : ∀ id, s.manager.credits.count id ≤ 1

/-- **One transaction** keeps the credits. -/
theorem credited_step {tx : System.Tx} {s s' : System} (hs : Credited s)
    (hfresh : FreshIds pairing S s tx) (h : System.exec pairing S tx s = .ok s') : Credited s' := by
  rcases (System.commits_step h).2 with ⟨ctx, clusterId, chainRoots, htx, -, hs'⟩
    | ⟨commitId, hopen, hs'⟩ | hsame
  · -- an id without a record was not credited
    have hzero := hfresh.cluster ctx clusterId chainRoots htx (isOk_of_eq h)
    refine ⟨?_, by rw [hs']; exact hs.once⟩
    intro id hid
    rw [hs'] at hid ⊢
    have hverified := hs.verified id hid
    have hne : id ≠ newCommitKey ctx clusterId chainRoots s.manager := by
      intro heq
      rw [heq, hzero] at hverified
      exact Bool.noConfusion hverified
    rw [(ClusterManager.commits_afterSubmit_of_ne s.manager hne).1]
    exact hverified
  · -- a commit that is verified now was not credited before
    have hnew : commitId ∉ s.manager.credits := by
      intro hid
      rw [hs.verified commitId hid] at hopen
      exact Bool.noConfusion hopen
    refine ⟨?_, ?_⟩
    · intro id hid
      rw [hs'] at hid ⊢
      by_cases hkey : id = commitId
      · rw [hkey]
        exact ClusterManager.isVerified_markVerified commitId s.manager
      · rcases List.mem_cons.mp hid with heq | hold
        · exact absurd heq hkey
        · show (update s.manager.clusterCommits commitId _ id).isVerified = true
          rw [update_of_ne hkey]
          exact hs.verified id hold
    · intro id
      rw [hs']
      show (commitId :: s.manager.credits).count id ≤ 1
      by_cases hkey : commitId = id
      · rw [hkey] at hnew
        rw [hkey, List.count_cons_self, List.count_eq_zero_of_not_mem hnew]
      · rw [List.count_cons_of_ne hkey]
        exact hs.once id
  · refine ⟨?_, ?_⟩
    · intro id hid
      rw [hsame.credits] at hid
      rw [hsame.clusterCommits]
      exact hs.verified id hid
    · rw [hsame.credits]
      exact hs.once

/-! ## §4. Whole runs. -/

/-- Between any two moments of the run every record is kept, and no commit is credited
twice. -/
def WriteOnce (pairing : PairingCheck) (S : Setting) (s : System) (txs : List System.Tx) : Prop :=
  (∀ before between after, txs = before ++ between ++ after →
      KeptRecords (run (System.exec pairing S) s before)
        (run (System.exec pairing S) s (before ++ between)))
    ∧ ∀ id, (run (System.exec pairing S) s txs).manager.credits.count id ≤ 1

/-- From a state of the system on, the records of that state are kept. -/
theorem keptRecords_run {s : System} (hauthored : Authored s) (hbind : RecordsBind s)
    (txs : List System.Tx) (hfresh : StepsMeet (System.exec pairing S) (FreshIds pairing S) s txs) :
    KeptRecords s (run (System.exec pairing S) s txs) := by
  -- the state reached is authored and bound as well, which is what a step needs
  suffices hrun : Authored (run (System.exec pairing S) s txs)
      ∧ RecordsBind (run (System.exec pairing S) s txs)
      ∧ KeptRecords s (run (System.exec pairing S) s txs) from hrun.2.2
  refine run_invariant_of (P := fun s' => Authored s' ∧ RecordsBind s' ∧ KeptRecords s s')
    ?_ txs s ⟨hauthored, hbind, KeptRecords.refl s⟩ hfresh
  intro s₁ tx s₂ hfresh₁ hs₁ h
  obtain ⟨hauthored₁, hbind₁, hkept⟩ := hs₁
  exact ⟨authored_step s₁ tx s₂ hauthored₁ h, recordsBind_step s₁ tx s₂ hbind₁ h,
    hkept.trans (keptRecords_step hauthored₁ hbind₁ hfresh₁ h)⟩

/-- **Every run** with fresh ids keeps the credits. -/
theorem credited_run (deployers : Deployers) (txs : List System.Tx)
    (hfresh : StepsMeet (System.exec pairing S) (FreshIds pairing S)
      (System.deploy deployers) txs) :
    Credited (run (System.exec pairing S) (System.deploy deployers) txs) := by
  refine run_invariant_of (fun _ _ _ hC hs h => credited_step hs hC h) txs _ ⟨?_, ?_⟩ hfresh
  · intro id hid
    exact absurd hid List.not_mem_nil
  · intro id
    show List.count id [] ≤ 1
    rw [List.count_nil]
    exact Nat.zero_le 1

/-! ## §5. The commit for chain 5, submitted again. -/

/-- The owner verifies a commit. -/
def verifies (id : Bytes32) : System.Tx := .manager owner (.verifyClusterCommit id)

/-- Other transactions need no fresh id. -/
theorem freshIds_of_not_submit {tx : System.Tx}
    (hcommit : ∀ msg range oldRoot newRoot, tx ≠ .audit msg (.submitCommit range oldRoot newRoot))
    (hcluster : ∀ ctx clusterId chainRoots,
      tx ≠ .manager ctx (.submitClusterCommit clusterId chainRoots)) (s : System) :
    FreshIds pairing S s tx :=
  ⟨fun msg range oldRoot newRoot htx => absurd htx (hcommit msg range oldRoot newRoot),
    fun ctx clusterId chainRoots htx => absurd htx (hcluster ctx clusterId chainRoots)⟩

theorem freshIds_setup : ∀ tx ∈ setup 5 7 ++ [clusterOf [5]], ∀ s, FreshIds pairing S s tx := by
  intro tx htx s
  refine freshIds_of_not_submit ?_ ?_ s
  · rintro msg range oldRoot newRoot rfl
    simp [setup, clusterOf] at htx
  · rintro ctx clusterId chainRoots rfl
    simp [setup, clusterOf] at htx

/-- The commit for chain 5 finds its id unused, and its verification needs none. -/
theorem freshIds_commitFive (pairing : PairingCheck) (S : Setting)
    (hS : ∀ a, System.External setting a → System.External S a) :
    StepsMeet (System.exec pairing S) (FreshIds pairing S) (System.deploy (.all genesis))
      (commitFive ++ [verifies (commitId [5] [11])]) := by
  have hlist : commitFive ++ [verifies (commitId [5] [11])]
      = (setup 5 7 ++ [clusterOf [5]]) ++ [commitOf [11], verifies (commitId [5] [11])] := rfl
  have hcluster : System.exec pairing S (clusterOf [5])
      ⟨openRegistry, ClusterManager.deploy genesis, (openChain 5 7).audit⟩
      = .ok ⟨openRegistry, withCluster [5] (ClusterManager.deploy genesis), _⟩ :=
    Clusters.exec_clusterOf pairing (hS 1 (by decide)) (by decide) openRegistry_serves.inv rfl rfl
      (by show 1 + 1 < 2 ^ 256; decide)
  rw [hlist, stepsMeet_append, run_snoc, run_setup pairing hS]
  refine ⟨stepsMeet_of_forall freshIds_setup _, ⟨?_, ?_⟩, ?_, trivial⟩
  · intro msg range oldRoot newRoot htx
    cases htx
  · intro ctx clusterId chainRoots htx _
    rw [show commit (System.exec pairing S) (openChain 5 7) (clusterOf [5]) = _ from
      commit_of_ok hcluster]
    rfl
  · refine freshIds_of_not_submit ?_ ?_ _
    · intro msg range oldRoot newRoot htx
      cases htx
    · intro ctx clusterId chainRoots htx
      cases htx

/-- The manager after the commit is verified. -/
def verifiedFive : ClusterManager := ClusterManager.markVerified (commitId [5] [11])
  (afterSubmit owner 1 [11] (withCluster [5] (ClusterManager.deploy genesis)))

/-- The owner's verification goes through as deployed. -/
theorem exec_verifies (pairing : PairingCheck) {id : Bytes32} {reg : ReputationRegistry}
    {cm : ClusterManager} (a : AuditContractV2) (hinv : RegistryInv reg)
    (hauth : reg.authorizedAuditors 2 = true) (howner : cm.owner = genesis)
    (hopen : (cm.clusterCommits id).isVerified = false)
    (hregistered : (reg.states (cm.clusterCommits id).clusterHead).isRegistered = true) :
    ∃ reg', System.exec pairing (.asDeployed 2 3) (verifies id) ⟨reg, cm, a⟩
        = .ok ⟨reg', ClusterManager.markVerified id cm, a⟩
      ∧ RegistryInv reg' ∧ reg'.authorizedAuditors = reg.authorizedAuditors
      ∧ ∀ a, (reg'.states a).isRegistered = (reg.states a).isRegistered := by
  have hadmitted : mayVerify (.asDeployed 2 3) owner.msg.sender cm := Or.inl howner.symm
  obtain ⟨reg', hverify, hframe⟩ := verify_ok owner.msg hinv hauth hadmitted hopen hregistered
  exact ⟨reg', System.exec_manager_ok (by decide) hverify, hframe⟩

/-- After the first verification the same commit goes in again, under the id it had. -/
theorem exec_resubmit (pairing : PairingCheck) (reg : ReputationRegistry) (a : AuditContractV2) :
    System.exec pairing (.asDeployed 2 3) (commitOf [11]) ⟨reg, verifiedFive, a⟩
        = .ok ⟨reg, afterSubmit owner 1 [11] verifiedFive, a⟩
      ∧ (afterSubmit owner 1 [11] verifiedFive).clusterCommits (commitId [5] [11])
        = newClusterCommit owner 1 [11] verifiedFive := by
  have hguards : CanSubmit owner 1 [11] verifiedFive :=
    ⟨rfl, rfl, rfl, by show 0 + 1 + 1 < 2 ^ 256; decide⟩
  refine ⟨System.exec_manager_ok (by decide) (map_eq_ok.mpr
    ⟨_, ClusterManager.submitClusterCommit_eq_ok.mpr ⟨hguards, rfl⟩, rfl⟩), ?_⟩
  exact (ClusterManager.commits_afterSubmit_self owner 1 [11] verifiedFive).1

/-- The same roots submitted and verified again. -/
def resubmitted : List System.Tx :=
  commitFive ++ [verifies (commitId [5] [11]), commitOf [11], verifies (commitId [5] [11])]

theorem credits_resubmitted (pairing : PairingCheck) :
    (run (System.exec pairing (.asDeployed 2 3)) (System.deploy (.all genesis))
      resubmitted).manager.credits = [commitId [5] [11], commitId [5] [11]] := by
  have hpending : Pending (.asDeployed 2 3) (commitId [5] [11]) genesisMsg
      (committed [5] [11] (openChain 5 7).audit) :=
    pending_committed rfl rfl (by decide) [5] [11] rfl
  have hfirst : ∃ reg₁, System.exec pairing (.asDeployed 2 3) (verifies (commitId [5] [11]))
      (committed [5] [11] (openChain 5 7).audit) = .ok ⟨reg₁, verifiedFive, (openChain 5 7).audit⟩
      ∧ RegistryInv reg₁ ∧ reg₁.authorizedAuditors = openRegistry.authorizedAuditors
      ∧ ∀ a, (reg₁.states a).isRegistered = (openRegistry.states a).isRegistered :=
    exec_verifies pairing _ openRegistry_serves.inv hpending.manager rfl hpending.unverified
      hpending.registered
  obtain ⟨reg₁, hfirst, hinv₁, hauth₁, hregistered₁⟩ := hfirst
  -- the second submission puts a fresh record in the place of the verified one
  obtain ⟨hagain, hrecord⟩ := exec_resubmit pairing reg₁ (openChain 5 7).audit
  have hhead : (reg₁.states ((afterSubmit owner 1 [11] verifiedFive).clusterCommits
      (commitId [5] [11])).clusterHead).isRegistered = true := by
    rw [hrecord, hregistered₁]
    show (openRegistry.states genesis).isRegistered = true
    rw [openRegistry_genesis]
    rfl
  obtain ⟨reg₂, hsecond, -⟩ := exec_verifies pairing (openChain 5 7).audit hinv₁
    (by rw [hauth₁]; exact hpending.manager) rfl (by rw [hrecord]; rfl) hhead
  rw [resubmitted, run_append, run_commitFive pairing (.asDeployed 2 3) (fun _ h => h), run_cons,
    commit_of_ok hfirst, run_cons, commit_of_ok hagain, run_cons, commit_of_ok hsecond, run_nil]
  rfl

/-! ## §6. The law of records. -/

/-- **Commit records are write-once** on every run whose submissions find their id unused. -/
theorem records_write_once (pairing : PairingCheck) (S : Setting)
    (deployers : Deployers) (txs : List System.Tx)
    (hfresh : StepsMeet (System.exec pairing S) (FreshIds pairing S)
      (System.deploy deployers) txs) :
    WriteOnce pairing S (System.deploy deployers) txs := by
  refine ⟨?_, (credited_run deployers txs hfresh).once⟩
  intro before between after htxs
  rw [htxs, stepsMeet_append, stepsMeet_append] at hfresh
  rw [run_append]
  exact keptRecords_run (authored_run pairing S deployers before)
    (recordsBind_run pairing S deployers before) between hfresh.1.2

theorem commitFive_write_once :
    WriteOnce acceptAll (.asDeployed 2 3) (System.deploy (.all genesis))
      (commitFive ++ [verifies (commitId [5] [11])]) :=
  records_write_once acceptAll (.asDeployed 2 3) (.all genesis) _
    (freshIds_commitFive acceptAll (.asDeployed 2 3) (fun _ h => h))

/-- Submitted, verified, submitted again in the same block and verified again: two credits. -/
theorem record_reset : ¬ ∀ (pairing : PairingCheck) (clusterManager auditContract : Address) (deployers : Deployers) (txs : List System.Tx),
    WriteOnce pairing (.asDeployed clusterManager auditContract)
      (System.deploy deployers) txs := by
  intro hall
  have honce := (hall acceptAll 2 3 (.all genesis) resubmitted).2 (commitId [5] [11])
  rw [credits_resubmitted, List.count_cons_self, List.count_cons_self] at honce
  omega

end HZKA.Psi
