/-
  HZKA.Psi.ClusterPath
  ────────────
  **CAN A CLUSTER COMMIT BE ACCEPTED, AND WHAT DOES ACCEPTANCE WRITE?**

  Both functions that accept a cluster commit end in `verifyClusterCommit` of the
  manager, where the caller is the audit contract.

    • `completes_iff_admitted` — a pending commit can be accepted EXACTLY when the manager
      admits the audit contract; the source admits its owner only, an external account
      (`commit_stuck`);
    • past that check, `acceptClusterCommitLegacy` compares the chain ids with the list of
      the cluster as SETS and the roots by their Merkle root.  `legacy_writes_own_roots` —
      named in the order of submission, each chain gets the root submitted for it;
      `legacy_swaps_roots` names two chains in the other order.
-/
import HZKA.Psi.RootHistory

namespace HZKA.Psi

open HZKA.Lib HZKA.EVM HZKA.Groth16Verifier HZKA.AuditContractV2
open HZKA.ReputationRegistry (RegistryInv genesis bob genesisMsg bobMsg)
open HZKA.Clusters (setting owner clusterOf withCluster)
open HZKA.ClusterManager (CanSubmit afterSubmit newCommitKey newClusterCommit mayVerify merkleRoot
  pairHash)

variable {pairing : PairingCheck} {S : Setting}

/-! ## §1. What the records say. -/

/-- A recorded commit has a head, and its aggregated root is that of its roots, one for
each chain of the cluster at submission. -/
structure RecordsBind (s : System) : Prop where
  head : ∀ id ∈ s.manager.commitHistory, (s.manager.clusterCommits id).clusterHead ≠ 0
  root : ∀ id, (s.manager.clusterCommits id).clusterHead ≠ 0 →
    (s.manager.clusterCommits id).aggregatedRoot
      = merkleRoot (s.manager.clusterCommits id).chainRoots
  count : ∀ id, (s.manager.clusterCommits id).clusterHead ≠ 0 →
    (s.manager.clusterCommits id).chainRoots.length = (s.manager.submittedChains id).length

/-- A submission keeps it. -/
theorem recordsBind_submit {s s' : System} {ctx : Ctx} {clusterId : Nat}
    {chainRoots : List Bytes32} (hs : RecordsBind s) (hsender : ctx.msg.sender ≠ 0)
    (hguards : CanSubmit ctx clusterId chainRoots s.manager)
    (hs' : s'.manager = afterSubmit ctx clusterId chainRoots s.manager) : RecordsBind s' := by
  obtain ⟨hrecord, hchains⟩ := ClusterManager.commits_afterSubmit_self ctx clusterId chainRoots
    s.manager
  have hother : ∀ id, id ≠ newCommitKey ctx clusterId chainRoots s.manager →
      (afterSubmit ctx clusterId chainRoots s.manager).clusterCommits id
          = s.manager.clusterCommits id
        ∧ (afterSubmit ctx clusterId chainRoots s.manager).submittedChains id
          = s.manager.submittedChains id :=
    fun id hid => ClusterManager.commits_afterSubmit_of_ne s.manager hid
  refine ⟨?_, ?_, ?_⟩
  · intro id hid
    rw [hs'] at hid ⊢
    by_cases h : id = newCommitKey ctx clusterId chainRoots s.manager
    · rw [h, hrecord]
      exact hsender
    · rw [(hother id h).1]
      rcases List.mem_append.mp hid with hold | hnew
      · exact hs.head id hold
      · exact absurd (List.mem_singleton.mp hnew) h
  · intro id hhead
    rw [hs'] at hhead ⊢
    by_cases h : id = newCommitKey ctx clusterId chainRoots s.manager
    · rw [h, hrecord]
      rfl
    · rw [(hother id h).1] at hhead ⊢
      exact hs.root id hhead
  · intro id hhead
    rw [hs'] at hhead ⊢
    by_cases h : id = newCommitKey ctx clusterId chainRoots s.manager
    · rw [h, hrecord, hchains]
      exact hguards.count
    · rw [(hother id h).1] at hhead ⊢
      rw [(hother id h).2]
      exact hs.count id hhead

/-- Only the flag changed: the records bind as before. -/
theorem recordsBind_of_same {s s' : System} (hs : RecordsBind s)
    (hhistory : s'.manager.commitHistory = s.manager.commitHistory)
    (hchains : s'.manager.submittedChains = s.manager.submittedChains)
    (hrecords : ∀ id, s'.manager.clusterCommits id
      = { s.manager.clusterCommits id with
          isVerified := (s'.manager.clusterCommits id).isVerified }) : RecordsBind s' := by
  refine ⟨?_, ?_, ?_⟩
  · intro id hid
    rw [hhistory] at hid
    rw [hrecords id]
    exact hs.head id hid
  · intro id hhead
    rw [hrecords id] at hhead ⊢
    exact hs.root id hhead
  · intro id hhead
    rw [hrecords id] at hhead ⊢
    rw [hchains]
    exact hs.count id hhead

/-- **One transaction** keeps it. -/
theorem recordsBind_step (s : System) (tx : System.Tx) (s' : System) (hs : RecordsBind s)
    (h : System.exec pairing S tx s = .ok s') : RecordsBind s' := by
  obtain ⟨-, hstep⟩ := System.commits_step h
  rcases hstep with ⟨ctx, clusterId, chainRoots, rfl, hguards, hs'⟩ | ⟨commitId, -, hs'⟩ | hsame
  · -- a transaction is not sent from the zero address
    exact recordsBind_submit hs (System.exec_eq_ok.mp h).1.1 hguards hs'
  · refine recordsBind_of_same hs (by rw [hs']; rfl) (by rw [hs']; rfl) ?_
    intro id
    rw [hs']
    exact ClusterManager.commits_markVerified commitId id s.manager
  · refine recordsBind_of_same hs hsame.commitHistory hsame.submittedChains ?_
    intro id
    rw [hsame.clusterCommits]

/-- **Every run** keeps it. -/
theorem recordsBind_run (pairing : PairingCheck) (S : Setting) (deployers : Deployers)
    (txs : List System.Tx) :
    RecordsBind (run (System.exec pairing S) (System.deploy deployers) txs) := by
  refine run_invariant recordsBind_step txs ⟨?_, ?_, ?_⟩
  · intro id hid
    exact absurd hid List.not_mem_nil
  · intro id hhead
    exact absurd rfl hhead
  · intro id hhead
    exact absurd rfl hhead

/-! ## §2. Accepting a pending commit. -/

/-- An auditor is about to accept a recorded commit, with both contracts authorized in the
registry. -/
structure Pending (S : Setting) (id : Bytes32) (msg : Msg) (s : System) : Prop where
  manager : s.registry.authorizedAuditors S.clusterManager = true
  audit : s.registry.authorizedAuditors S.auditContract = true
  recorded : id ∈ s.manager.commitHistory
  unverified : (s.manager.clusterCommits id).isVerified = false
  registered : (s.registry.states (s.manager.clusterCommits id).clusterHead).isRegistered = true
  auditor : s.audit.auditors msg.sender = true
  external : System.External S msg.sender

/-- The call with the recorded values. -/
def accepts (id : Bytes32) (msg : Msg) (s : System) : System.Tx :=
  .audit msg (.acceptClusterCommit id (s.manager.clusterCommits id).aggregatedRoot
    (s.manager.clusterCommits id).clusterId (s.manager.clusterCommits id).round)

/-- It succeeds and leaves the commit verified. -/
def Completes (pairing : PairingCheck) (S : Setting) (id : Bytes32) (msg : Msg) (s : System) :
    Prop :=
  ∃ s', System.exec pairing S (accepts id msg s) s = .ok s'
    ∧ (s'.manager.clusterCommits id).isVerified = true

/-- Only an admitted caller completes. -/
theorem admitted_of_completes {id : Bytes32} {msg : Msg} {s : System}
    (h : Completes pairing S id msg s) : mayVerify S S.auditContract s.manager := by
  obtain ⟨s', hexec, -⟩ := h
  obtain ⟨-, hcall⟩ := System.exec_eq_ok.mp hexec
  obtain ⟨-, reg', cm', hverify, -⟩ := (acceptClusterCommit_eq_ok (s.manager.clusterCommits id).round).mp hcall
  exact (ClusterManager.verifyClusterCommit_eq_ok.mp hverify).1

/-- The manager's part: the credit of the head goes through, since a VALID event needs no
stake. -/
theorem verify_ok (msg : Msg) {id : Bytes32} {reg : ReputationRegistry} {cm : ClusterManager}
    (hinv : RegistryInv reg) (hauth : reg.authorizedAuditors S.clusterManager = true)
    (hadmitted : mayVerify S msg.sender cm) (hopen : (cm.clusterCommits id).isVerified = false)
    (hregistered : (reg.states (cm.clusterCommits id).clusterHead).isRegistered = true) :
    ∃ reg', cm.verifyClusterCommit S msg id reg = .ok (reg', ClusterManager.markVerified id cm)
      ∧ RegistryInv reg' ∧ reg'.authorizedAuditors = reg.authorizedAuditors
      ∧ ∀ a, (reg'.states a).isRegistered = (reg.states a).isRegistered := by
  have hcredit : ∃ reg', reg.updateState (ClusterManager.asManager S msg)
      (cm.clusterCommits id).clusterHead .VALID (cm.clusterCommits id).aggregatedRoot
      = .ok reg' :=
    ReputationRegistry.updateState_ok .VALID _ hauth hregistered (hinv.records _ hregistered)
      (fun h => nomatch h) (fun h => nomatch h)
  obtain ⟨reg', hcredit⟩ := hcredit
  obtain ⟨-, hafter⟩ := ReputationRegistry.updateState_eq_ok hcredit
  obtain ⟨hauditors, hstates, -⟩ := afterUpdate_frame (cm.clusterCommits id).clusterHead .VALID
    (cm.clusterCommits id).aggregatedRoot reg
  rw [← hafter] at hauditors hstates
  have hexec : ReputationRegistry.exec ⟨ClusterManager.asManager S msg,
      .updateState (cm.clusterCommits id).clusterHead .VALID (cm.clusterCommits id).aggregatedRoot⟩
      reg = .ok reg' := hcredit
  exact ⟨reg', ClusterManager.verifyClusterCommit_eq_ok.mpr ⟨hadmitted, hopen, hcredit, rfl⟩,
    ReputationRegistry.registryInv_step hinv hexec, hauditors, hstates⟩

/-- An admitted caller completes. -/
theorem completes_of_admitted {id : Bytes32} {msg : Msg} {s : System} (hbind : RecordsBind s)
    (hinv : RegistryInv s.registry) (hpending : Pending S id msg s)
    (hadmitted : mayVerify S S.auditContract s.manager) : Completes pairing S id msg s := by
  obtain ⟨reg', hverify, -⟩ := verify_ok (asAudit S msg) hinv hpending.manager hadmitted
    hpending.unverified hpending.registered
  refine ⟨{ s with registry := reg', manager := ClusterManager.markVerified id s.manager }, ?_, ?_⟩
  · refine System.exec_eq_ok.mpr ⟨hpending.external, ?_⟩
    exact (acceptClusterCommit_eq_ok (s.manager.clusterCommits id).round).mpr
      ⟨⟨hpending.auditor, hbind.head id hpending.recorded, hpending.unverified, rfl, rfl⟩,
        reg', _, hverify, rfl⟩
  · exact ClusterManager.isVerified_markVerified id s.manager

/-- The manager's owner is an external account once there is a cluster or a commit: only the
owner founds clusters, and only their heads commit. -/
structure OwnerExternal (S : Setting) (s : System) : Prop where
  founded : ∀ c, (s.manager.clusters c).isActive = true → System.External S s.manager.owner
  recorded : ∀ id ∈ s.manager.commitHistory, System.External S s.manager.owner

theorem founded_step {s s' : System} {tx : System.Tx} (hs : OwnerExternal S s)
    (h : System.exec pairing S tx s = .ok s') :
    ∀ c, (s'.manager.clusters c).isActive = true → System.External S s.manager.owner := by
  intro c hc
  have hsender := (System.exec_eq_ok.mp h).1
  cases System.exec_effect h with
  | manager effect =>
    -- the owner's own calls show it; the others need an active cluster or touch none
    cases effect with
    | createCluster owner _ _ _ => exact owner ▸ hsender
    | addMember owner _ => exact owner ▸ hsender
    | elect active _ => exact hs.founded _ active
    | submit guards => exact hs.founded _ guards.active
    | verify _ _ _ => exact hs.founded c hc
    | crossReference _ => exact hs.founded c hc
    | reshuffle owner _ _ _ => exact owner ▸ hsender
    | file _ => exact hs.founded c hc
    | uphold guards => exact guards.owner ▸ hsender
    | dismiss owner _ => exact owner ▸ hsender
    | advance owner _ => exact owner ▸ hsender
  | clusterAudit _ call =>
    obtain ⟨-, -, -, rfl⟩ := ClusterManager.verifyClusterCommit_eq_ok.mp call
    exact hs.founded c hc
  | legacyAudit _ call =>
    obtain ⟨-, -, -, rfl⟩ := ClusterManager.verifyClusterCommit_eq_ok.mp call
    exact hs.founded c hc
  | registry _ => exact hs.founded c hc
  | registerChain _ _ => exact hs.founded c hc
  | submitCommit _ => exact hs.founded c hc
  | weightedAudit _ => exact hs.founded c hc
  | singleAudit _ => exact hs.founded c hc
  | admin _ => exact hs.founded c hc

/-- **One transaction** keeps the owner external. -/
theorem ownerExternal_step (s : System) (tx : System.Tx) (s' : System) (hs : OwnerExternal S s)
    (h : System.exec pairing S tx s = .ok s') : OwnerExternal S s' := by
  obtain ⟨howner, hstep⟩ := System.commits_step h
  refine ⟨fun c hc => howner ▸ founded_step hs h c hc, fun id hid => ?_⟩
  rw [howner]
  rcases hstep with ⟨_, _, _, _, hguards, _⟩ | ⟨_, _, hs'⟩ | hsame
  · exact hs.founded _ hguards.active
  · rw [hs'] at hid
    exact hs.recorded id hid
  · rw [hsame.commitHistory] at hid
    exact hs.recorded id hid

/-- **Every run** keeps the owner external. -/
theorem ownerExternal_run (pairing : PairingCheck) (S : Setting) (deployers : Deployers)
    (txs : List System.Tx) :
    OwnerExternal S (run (System.exec pairing S) (System.deploy deployers) txs) := by
  refine run_invariant ownerExternal_step txs ⟨fun c hc => ?_, fun id hid => ?_⟩
  · exact absurd hc Bool.false_ne_true
  · exact absurd hid List.not_mem_nil

/-! ## §3. A cluster with a pending commit.

Genesis owns the manager and heads the cluster; it submits one root for each chain. -/

/-- A cluster commit of the owner. -/
def commitOf (roots : List Bytes32) : System.Tx := .manager owner (.submitClusterCommit 1 roots)

/-- The system with that commit. -/
def committed (chains : List ChainId) (roots : List Bytes32) (a : AuditContractV2) : System :=
  ⟨openRegistry, afterSubmit owner 1 roots (withCluster chains (ClusterManager.deploy genesis)), a⟩

/-- The commit's id. -/
def commitId (chains : List ChainId) (roots : List Bytes32) : Bytes32 :=
  newCommitKey owner 1 roots (withCluster chains (ClusterManager.deploy genesis))

theorem exec_commitOf (pairing : PairingCheck) {S : Setting} (hext : System.External S 1)
    {chains : List ChainId} {roots : List Bytes32} (hlen : roots.length = chains.length)
    (a : AuditContractV2) :
    System.exec pairing S (commitOf roots)
      ⟨openRegistry, withCluster chains (ClusterManager.deploy genesis), a⟩
      = .ok (committed chains roots a) := by
  have hguards : CanSubmit owner 1 roots (withCluster chains (ClusterManager.deploy genesis)) :=
    ⟨rfl, rfl, hlen, by show 0 + 1 < 2 ^ 256; decide⟩
  exact System.exec_manager_ok hext (map_eq_ok.mpr
    ⟨_, ClusterManager.submitClusterCommit_eq_ok.mpr ⟨hguards, rfl⟩, rfl⟩)

theorem run_clusterOf (pairing : PairingCheck) {S : Setting} (hext : System.External S 1)
    {chains : List ChainId} (hpos : chains.length > 0) (a : AuditContractV2) :
    run (System.exec pairing S) ⟨openRegistry, ClusterManager.deploy genesis, a⟩ [clusterOf chains]
      = ⟨openRegistry, withCluster chains (ClusterManager.deploy genesis), a⟩ := by
  have hcluster : System.exec pairing S (clusterOf chains)
      ⟨openRegistry, ClusterManager.deploy genesis, a⟩
      = .ok ⟨openRegistry, withCluster chains (ClusterManager.deploy genesis), a⟩ :=
    Clusters.exec_clusterOf pairing hext hpos openRegistry_serves.inv rfl rfl
      (by show 1 + 1 < 2 ^ 256; decide)
  rw [run_cons, commit_of_ok hcluster, run_nil]

theorem run_committed (pairing : PairingCheck) {S : Setting} (hext : System.External S 1)
    {chains : List ChainId} {roots : List Bytes32} (hpos : chains.length > 0)
    (hlen : roots.length = chains.length) (a : AuditContractV2) :
    run (System.exec pairing S) ⟨openRegistry, ClusterManager.deploy genesis, a⟩
      [clusterOf chains, commitOf roots] = committed chains roots a := by
  show run (System.exec pairing S) _ ([clusterOf chains] ++ [commitOf roots]) = _
  rw [run_append, run_clusterOf pairing hext hpos, run_cons,
    commit_of_ok (exec_commitOf pairing hext hlen a), run_nil]

theorem record_committed (chains : List ChainId) (roots : List Bytes32) (a : AuditContractV2) :
    (committed chains roots a).manager.clusterCommits (commitId chains roots)
        = newClusterCommit owner 1 roots (withCluster chains (ClusterManager.deploy genesis))
      ∧ (committed chains roots a).manager.submittedChains (commitId chains roots) = chains :=
  ClusterManager.commits_afterSubmit_self owner 1 roots _

theorem pending_committed {S : Setting} (hmanager : S.clusterManager = 2)
    (haudit : S.auditContract = 3) (hext : System.External S 1) (chains : List ChainId)
    (roots : List Bytes32) {a : AuditContractV2} (hauditor : a.auditors genesis = true) :
    Pending S (commitId chains roots) genesisMsg (committed chains roots a) := by
  obtain ⟨hrecord, -⟩ := record_committed chains roots a
  refine ⟨?_, ?_, ?_, ?_, ?_, hauditor, hext⟩
  · rw [hmanager]
    rfl
  · rw [haudit]
    rfl
  · exact List.mem_append.mpr (Or.inr (List.mem_singleton.mpr rfl))
  · rw [hrecord]
    rfl
  · rw [hrecord]
    show (openRegistry.states genesis).isRegistered = true
    rw [openRegistry_genesis]
    rfl

/-- Set-up, a cluster for chain 5 and a commit for it. -/
def commitFive : List System.Tx := setup 5 7 ++ [clusterOf [5], commitOf [11]]

theorem run_commitFive (pairing : PairingCheck) (S : Setting)
    (hS : ∀ a, System.External setting a → System.External S a) :
    run (System.exec pairing S) (System.deploy (.all genesis)) commitFive
      = committed [5] [11] (openChain 5 7).audit := by
  have hcommit : run (System.exec pairing S)
      ⟨openRegistry, ClusterManager.deploy genesis, (openChain 5 7).audit⟩
      [clusterOf [5], commitOf [11]] = committed [5] [11] (openChain 5 7).audit :=
    run_committed pairing (hS 1 (by decide)) (by decide) (by decide) _
  rw [commitFive, run_append, run_setup pairing hS]
  exact hcommit

/-! ## §4. The law of acceptance. -/

/-- **A pending commit can be accepted** exactly when the manager admits the audit contract; as
the source deploys it, never. -/
theorem completes_iff_admitted (pairing : PairingCheck) (S : Setting)
    (deployers : Deployers) (txs : List System.Tx) (id : Bytes32) (msg : Msg)
    (hpending : Pending S id msg
      (run (System.exec pairing S) (System.deploy deployers) txs)) :
    (Completes pairing S id msg
        (run (System.exec pairing S) (System.deploy deployers) txs)
      ↔ mayVerify S S.auditContract
        (run (System.exec pairing S) (System.deploy deployers) txs).manager)
    ∧ (S = .asDeployed S.clusterManager S.auditContract → ¬ Completes pairing S id msg
        (run (System.exec pairing S) (System.deploy deployers) txs)) := by
  refine ⟨⟨admitted_of_completes, fun hadmitted => ?_⟩, fun hdeployed hcompletes => ?_⟩
  · exact completes_of_admitted (recordsBind_run pairing S deployers txs)
      (System.registryInv_run pairing S deployers txs) hpending hadmitted
  · -- the owner is an external account, and nobody else is admitted
    have hexternal := (ownerExternal_run pairing S deployers txs).recorded id hpending.recorded
    have hadmitted := admitted_of_completes hcompletes
    rw [hdeployed] at hexternal hadmitted
    exact not_admitted hexternal.2.2 hadmitted

/-- The audit contract (3) is admitted besides the owner. -/
def admitting : Setting := ⟨2, 3, fun a => a = 3⟩

/-- One commit, accepted in that setting and stuck in the source's. -/
theorem commitFive_completes :
    Completes acceptAll admitting (commitId [5] [11]) genesisMsg
        (run (System.exec acceptAll admitting) (System.deploy (.all genesis)) commitFive)
      ∧ ¬ Completes acceptAll (.asDeployed 2 3) (commitId [5] [11]) genesisMsg
        (run (System.exec acceptAll (.asDeployed 2 3)) (System.deploy (.all genesis))
          commitFive) := by
  constructor
  · refine (completes_iff_admitted acceptAll admitting (.all genesis) commitFive
      (commitId [5] [11]) genesisMsg ?_).1.mpr (Or.inr rfl)
    rw [run_commitFive acceptAll admitting (fun _ h => h)]
    exact pending_committed rfl rfl (by decide) [5] [11] rfl
  · refine (completes_iff_admitted acceptAll (.asDeployed 2 3) (.all genesis) commitFive
      (commitId [5] [11]) genesisMsg ?_).2 rfl
    rw [run_commitFive acceptAll (.asDeployed 2 3) (fun _ h => h)]
    exact pending_committed rfl rfl (by decide) [5] [11] rfl

/-- As deployed by account 1, the commit for chain 5 is never accepted. -/
theorem commit_stuck : ¬ ∀ (pairing : PairingCheck) (clusterManager auditContract deployer : Address)
    (txs : List System.Tx) (id : Bytes32) (msg : Msg),
    System.External (.asDeployed clusterManager auditContract) deployer →
    Pending (.asDeployed clusterManager auditContract) id msg
      (run (System.exec pairing (.asDeployed clusterManager auditContract))
        (System.deploy (.all deployer)) txs) →
    Completes pairing (.asDeployed clusterManager auditContract) id msg
      (run (System.exec pairing (.asDeployed clusterManager auditContract))
        (System.deploy (.all deployer)) txs) := by
  intro hall
  have hrun : run (System.exec acceptAll (.asDeployed 2 3)) (System.deploy (.all genesis)) commitFive
      = committed [5] [11] (openChain 5 7).audit :=
    run_commitFive acceptAll (.asDeployed 2 3) (fun _ h => h)
  have hcompletes := hall acceptAll 2 3 genesis commitFive (commitId [5] [11]) genesisMsg (by decide)
  rw [hrun] at hcompletes
  have hadmitted := admitted_of_completes
    (hcompletes (pending_committed rfl rfl (by decide) [5] [11] rfl))
  exact not_admitted (show genesis ≠ 3 by decide) hadmitted

/-! ## §5. The loop that writes the roots. -/

/-- One entry, then the others. -/
theorem setRoots_cons {number : Nat} {entry : ChainId × Bytes32}
    {rest : List (ChainId × Bytes32)} {a a' : AuditContractV2} :
    setRoots number (entry :: rest) a = .ok a'
      ↔ (a.chains entry.1).isActive = true
        ∧ setRoots number rest (setRoot number entry.1 entry.2 a) = .ok a' := by
  unfold setRoots
  rw [List.foldlM_cons, bind_eq_ok]
  constructor
  · rintro ⟨b, hstep, hrest⟩
    obtain ⟨_, hactive, hstep⟩ := bind_eq_ok.mp hstep
    obtain rfl := pure_eq_ok.mp hstep
    exact ⟨require_eq_ok.mp hactive, hrest⟩
  · rintro ⟨hactive, hrest⟩
    exact ⟨_, bind_eq_ok.mpr ⟨(), require_eq_ok.mpr hactive, rfl⟩, hrest⟩

/-- Registered chains only: the loop goes through. -/
theorem setRoots_ok {number : Nat} {entries : List (ChainId × Bytes32)} {a : AuditContractV2}
    (hactive : ∀ entry ∈ entries, (a.chains entry.1).isActive = true) :
    ∃ a', setRoots number entries a = .ok a' := by
  induction entries generalizing a with
  | nil => exact ⟨a, rfl⟩
  | cons entry rest ih =>
    have hrest : ∃ a', setRoots number rest (setRoot number entry.1 entry.2 a) = .ok a' := by
      refine ih ?_
      intro other hother
      have hbefore := hactive other (List.mem_cons_of_mem _ hother)
      by_cases hc : other.1 = entry.1
      · rw [hc] at hbefore ⊢
        rw [chains_setRoot_self]
        exact hbefore
      · rw [chains_setRoot_of_ne a hc]
        exact hbefore
    obtain ⟨a', ha'⟩ := hrest
    exact ⟨a', setRoots_cons.mpr ⟨hactive entry List.mem_cons_self, ha'⟩⟩

/-- Chains not listed keep their roots. -/
theorem setRoots_of_not_mem {number : Nat} {entries : List (ChainId × Bytes32)}
    {a a' : AuditContractV2} {c : ChainId} (h : setRoots number entries a = .ok a')
    (hc : c ∉ entries.map (·.1)) : a'.chains c = a.chains c := by
  induction entries generalizing a with
  | nil =>
    obtain rfl := Except.ok.inj h
    rfl
  | cons entry rest ih =>
    rw [List.map_cons, List.mem_cons, not_or] at hc
    rw [ih (setRoots_cons.mp h).2 hc.2, chains_setRoot_of_ne a hc.1]

/-- **The loop writes each root to its chain**, if no chain is named twice. -/
theorem setRoots_mem {number : Nat} {entries : List (ChainId × Bytes32)} {a a' : AuditContractV2}
    {c : ChainId} {root : Bytes32} (h : setRoots number entries a = .ok a')
    (hnodup : (entries.map (·.1)).Nodup) (hmem : (c, root) ∈ entries) :
    (a'.chains c).latestStateRoot = root := by
  induction entries generalizing a with
  | nil => exact absurd hmem List.not_mem_nil
  | cons entry rest ih =>
    rw [List.map_cons, List.nodup_cons] at hnodup
    have hrest := (setRoots_cons.mp h).2
    rcases List.mem_cons.mp hmem with rfl | hmem
    · -- written now, and not again
      rw [setRoots_of_not_mem hrest hnodup.1, chains_setRoot_self]
    · exact ih hrest hnodup.2 hmem

/-! ## §6. Roots and their chains. -/

/-- The chain at each position of the list at submission has the root submitted at that
position. -/
def OwnRoots (id : Bytes32) (s s' : System) : Prop :=
  ∀ (i : Nat) (c : ChainId), (s.manager.submittedChains id)[i]? = some c →
    ∃ root, (s.manager.clusterCommits id).chainRoots[i]? = some root ∧ rootOf c s' = root

/-- Two different pairs hashed on the way to the two Merkle roots collide. -/
def RootCollision (id : Bytes32) (newRoots : List Bytes32) (s : System) : Prop :=
  PairCollision pairHash (rootPairs pairHash (s.manager.clusterCommits id).chainRoots)
    (rootPairs pairHash newRoots)

/-- The legacy call. -/
def acceptsLegacy (id : Bytes32) (chainIds : List ChainId) (newRoots : List Bytes32) (msg : Msg) :
    System.Tx :=
  .audit msg (.acceptClusterCommitLegacy id chainIds newRoots)

/-- Chains 5 and 6 are registered, in one cluster, and the roots 11 and 12 submitted. -/
def commitBoth : List System.Tx := setup 5 7 ++ [registerSix, clusterOf [5, 6], commitOf [11, 12]]

/-- With chain 6 beside chain 5. -/
def bothAudit : AuditContractV2 := afterRegister genesisMsg 6 8 (openChain 5 7).audit

theorem run_commitBoth :
    run (System.exec acceptAll admitting) (System.deploy (.all genesis)) commitBoth
      = committed [5, 6] [11, 12] bothAudit := by
  have hregister : System.exec acceptAll admitting registerSix (openChain 5 7)
      = .ok ⟨openRegistry, ClusterManager.deploy genesis, bothAudit⟩ :=
    exec_audit_ok (by decide) rfl (registerChain_eq_ok.mpr ⟨rfl, rfl, rfl⟩)
  have hcommit : run (System.exec acceptAll admitting)
      ⟨openRegistry, ClusterManager.deploy genesis, bothAudit⟩
      [clusterOf [5, 6], commitOf [11, 12]] = committed [5, 6] [11, 12] bothAudit :=
    run_committed acceptAll (by decide) (by decide) (by decide) _
  rw [commitBoth, run_append, run_setup acceptAll (S := admitting) (fun _ h => h), run_cons,
    commit_of_ok hregister]
  exact hcommit

theorem bothAudit_active {c : ChainId} (hc : c ∈ [5, 6]) : (bothAudit.chains c).isActive = true := by
  rcases List.mem_cons.mp hc with rfl | hc
  · rfl
  · rw [List.mem_singleton.mp hc]
    rfl

/-- The auditor names the two chains in either order. -/
theorem exec_legacy (chainIds : List ChainId) (hlen : chainIds.length = 2)
    (hmember : ∀ c ∈ chainIds, c ∈ [5, 6]) :
    ∃ s', System.exec acceptAll admitting
        (acceptsLegacy (commitId [5, 6] [11, 12]) chainIds [11, 12] genesisMsg)
        (committed [5, 6] [11, 12] bothAudit) = .ok s'
      ∧ setRoots 1 (chainIds.zip [11, 12]) bothAudit = .ok s'.audit := by
  obtain ⟨hrecord, -⟩ := record_committed [5, 6] [11, 12] bothAudit
  have hpending : Pending admitting (commitId [5, 6] [11, 12]) genesisMsg
      (committed [5, 6] [11, 12] bothAudit) :=
    pending_committed rfl rfl (by decide) [5, 6] [11, 12] rfl
  have hactive : ∀ entry ∈ chainIds.zip ([11, 12] : List Bytes32), (bothAudit.chains entry.1).isActive = true := by
    intro entry hentry
    exact bothAudit_active (hmember _ (List.of_mem_zip hentry).1)
  have hloop : ∃ a', setRoots 1 (chainIds.zip [11, 12]) bothAudit = .ok a' := setRoots_ok hactive
  obtain ⟨a', hloop⟩ := hloop
  obtain ⟨reg', hverify, -⟩ := verify_ok (asAudit admitting genesisMsg) openRegistry_serves.inv
    hpending.manager (Or.inr rfl) hpending.unverified hpending.registered
  have hguards : CanAcceptLegacy genesisMsg (commitId [5, 6] [11, 12]) chainIds [11, 12] a'
      (committed [5, 6] [11, 12] bothAudit) := by
    refine ⟨hpending.auditor, hlen, by omega, ?_, hpending.unverified, ?_, ?_, ?_, hloop⟩
    · rw [hrecord]
      exact (by decide : (1 : Address) ≠ 0)
    · rw [hrecord, hlen]
      rfl
    · rw [hrecord]
      exact hmember
    · rw [hrecord]
      rfl
  exact ⟨_, System.exec_eq_ok.mpr ⟨hpending.external, acceptClusterCommitLegacy_eq_ok.mpr
    ⟨a', reg', _, hguards, hverify, rfl⟩⟩, hloop⟩

/-! ## §7. The law of legacy acceptance. -/

/-- **Each chain gets the root submitted for it** when the auditor names the chains in the
order they had at submission, each once; else two hashed pairs collide. -/
theorem legacy_writes_own_roots (pairing : PairingCheck) (S : Setting)
    (deployers : Deployers) (txs : List System.Tx) (msg : Msg) (id : Bytes32)
    (chainIds : List ChainId) (newRoots : List Bytes32) (s' : System)
    (h : System.exec pairing S (acceptsLegacy id chainIds newRoots msg)
      (run (System.exec pairing S) (System.deploy deployers) txs) = .ok s')
    (horder : chainIds = (run (System.exec pairing S) (System.deploy deployers)
      txs).manager.submittedChains id)
    (honce : chainIds.Nodup) :
    OwnRoots id (run (System.exec pairing S) (System.deploy deployers) txs) s'
      ∨ RootCollision id newRoots
        (run (System.exec pairing S) (System.deploy deployers) txs) := by
  have hbind := recordsBind_run pairing S deployers txs
  generalize run (System.exec pairing S) (System.deploy deployers) txs = s at *
  obtain ⟨-, hcall⟩ := System.exec_eq_ok.mp h
  obtain ⟨a', reg', cm', hguards, -, rfl⟩ := acceptClusterCommitLegacy_eq_ok.mp hcall
  have hcount := hbind.count id hguards.recorded
  have hlen : (s.manager.clusterCommits id).chainRoots.length = newRoots.length := by
    rw [hcount, ← horder, hguards.lengths]
  have hroots : merkleRoot (s.manager.clusterCommits id).chainRoots = merkleRoot newRoots := by
    rw [hguards.root, hbind.root id hguards.recorded]
  rcases layerRoot_inj 0 _ newRoots hlen hroots with hsame | hcollision
  · left
    intro i c hc
    -- position `i` of the list at submission is position `i` of the loop
    rw [← horder] at hc
    obtain ⟨hi, hci⟩ := List.getElem?_eq_some_iff.mp hc
    have hi' : i < newRoots.length := by
      rw [← hguards.lengths]
      exact hi
    refine ⟨newRoots[i], ?_, ?_⟩
    · rw [hsame, List.getElem?_eq_getElem hi']
    · have hkeys : (chainIds.zip newRoots).map (·.1) = chainIds :=
        List.map_fst_zip (le_of_eq hguards.lengths)
      refine setRoots_mem hguards.loop (by rw [hkeys]; exact honce) ?_
      refine List.mem_iff_getElem.mpr ⟨i, ?_, ?_⟩
      · rw [List.length_zip]
        omega
      · rw [List.getElem_zip, hci]
  · exact Or.inr hcollision

/-- In order, chain 5 gets root 11 and chain 6 root 12. -/
theorem legacy_in_order :
    ∃ s', System.exec acceptAll admitting
        (acceptsLegacy (commitId [5, 6] [11, 12]) [5, 6] [11, 12] genesisMsg)
        (run (System.exec acceptAll admitting) (System.deploy (.all genesis)) commitBoth) = .ok s'
      ∧ (OwnRoots (commitId [5, 6] [11, 12]) (run (System.exec acceptAll admitting)
          (System.deploy (.all genesis)) commitBoth) s'
        ∨ RootCollision (commitId [5, 6] [11, 12]) [11, 12] (run (System.exec acceptAll admitting)
          (System.deploy (.all genesis)) commitBoth)) := by
  obtain ⟨s', hexec, -⟩ := exec_legacy [5, 6] rfl (fun _ h => h)
  rw [← run_commitBoth] at hexec
  refine ⟨s', hexec, legacy_writes_own_roots acceptAll admitting (.all genesis) commitBoth genesisMsg
    (commitId [5, 6] [11, 12]) [5, 6] [11, 12] s' hexec ?_ (by decide)⟩
  rw [run_commitBoth]
  exact (record_committed [5, 6] [11, 12] bothAudit).2.symm

/-- In the other order, chain 5 gets root 12. -/
theorem legacy_swaps_roots : ¬ ∀ (pairing : PairingCheck) (S : Setting)
    (deployers : Deployers) (txs : List System.Tx) (msg : Msg) (id : Bytes32)
    (chainIds : List ChainId) (newRoots : List Bytes32) (s' : System),
    System.exec pairing S (acceptsLegacy id chainIds newRoots msg)
      (run (System.exec pairing S) (System.deploy deployers) txs) = .ok s' →
    OwnRoots id (run (System.exec pairing S) (System.deploy deployers) txs) s'
      ∨ RootCollision id newRoots
        (run (System.exec pairing S) (System.deploy deployers) txs) := by
  intro hall
  obtain ⟨s', hexec, hloop⟩ := exec_legacy [6, 5] rfl (by simp)
  obtain ⟨hrecord, hchains⟩ := record_committed [5, 6] [11, 12] bothAudit
  have howns := hall acceptAll admitting (.all genesis) commitBoth genesisMsg
    (commitId [5, 6] [11, 12]) [6, 5] [11, 12] s'
  rw [run_commitBoth] at howns
  rcases howns hexec with howns | hcollision
  · obtain ⟨root, hroot, hfive⟩ := howns 0 5 (by rw [hchains]; rfl)
    rw [hrecord] at hroot
    have hwritten : rootOf 5 s' = 12 := setRoots_mem hloop (by simp) (by simp)
    obtain rfl := Option.some.inj hroot
    rw [hwritten] at hfive
    exact absurd hfive (by decide)
  · -- both Merkle roots are of the same two roots: one pair is hashed
    have hpairs : rootPairs pairHash [11, 12] = [((11 : Bytes32), (12 : Bytes32))] := by
      simp [rootPairs, layerPairs, nextLayer]
    unfold RootCollision at hcollision
    rw [hrecord] at hcollision
    obtain ⟨p, hp, q, hq, hne, -⟩ := hcollision
    rw [show (newClusterCommit owner 1 [11, 12] _).chainRoots = [11, 12] from rfl, hpairs,
      List.mem_singleton] at hp
    rw [hpairs, List.mem_singleton] at hq
    exact hne (hp.trans hq.symm)

end HZKA.Psi
