/-
  HZKA.Psi.Transition
  ────────────
  **WHAT ONE TRANSACTION OF THE AUDIT CHAIN DOES.**

  The functions of `AuditContractV2` are opened here once, with the calls they make into
  the other two contracts.

    • `submitCommit_eq_ok`, `weightedAuditAccept_eq_ok`, `verifyCommit_eq_ok`,
      `acceptClusterCommit_eq_ok`, `acceptClusterCommitLegacy_eq_ok` — the guards and
      the state left;
    • `Effect`, `exec_effect` — one line per transaction; the calls that touch neither
      chains nor commits (stakes, auditors, keys, deposits) share one line.
-/
import HZKA.Clusters.Transition
import HZKA.Contracts.AuditV2
import HZKA.Reputation.Invariant

namespace HZKA

open Function
open HZKA.Lib HZKA.EVM HZKA.Groth16Verifier

namespace AuditContractV2

variable {pairing : PairingCheck} {S : Setting} {msg : Msg} {s s' : System}

/-! ## §1. Chains and commits. -/

/-- The state a registration leaves. -/
def afterRegister (msg : Msg) (chainId : ChainId) (initialRoot : Bytes32) (a : AuditContractV2) :
    AuditContractV2 :=
  { a with
    chains := update a.chains chainId ⟨chainId, initialRoot, msg.number, 0, true⟩
    chainList := a.chainList ++ [chainId] }

theorem chains_afterRegister_self (msg : Msg) (chainId : ChainId) (initialRoot : Bytes32)
    (a : AuditContractV2) :
    (afterRegister msg chainId initialRoot a).chains chainId
      = ⟨chainId, initialRoot, msg.number, 0, true⟩ :=
  update_self ..

/-- When a chain is registered. -/
theorem registerChain_eq_ok {chainId : ChainId} {initialRoot : Bytes32} {a a' : AuditContractV2} :
    registerChain msg chainId initialRoot a = .ok a'
      ↔ msg.sender = a.owner ∧ (a.chains chainId).isActive = false
        ∧ a' = afterRegister msg chainId initialRoot a := by
  constructor
  · intro h
    obtain ⟨_, howner, h⟩ := bind_eq_ok.mp h
    obtain ⟨_, hnew, h⟩ := bind_eq_ok.mp h
    exact ⟨require_eq_ok.mp howner, require_eq_ok.mp hnew, (pure_eq_ok.mp h).symm⟩
  · rintro ⟨howner, hnew, rfl⟩
    rw [registerChain, require_bind howner, require_bind hnew]
    rfl

/-- The guards of `submitCommit`, with the weight and the reputation it reads. -/
structure CanCommit (msg : Msg) (range : BlockRange) (weight reputation : Nat) (s : System) :
    Prop where
  active : (s.audit.chains range.chainId).isActive = true
  staked : MIN_STAKE ≤ s.audit.committerStakes msg.sender
  registered : s.registry.isCommitterRegistered msg.sender = true
  weight : s.registry.getElectionWeight msg.sender = .ok weight
  reputation : s.registry.getEffectiveReputation msg.sender = .ok reputation
  room : (s.audit.chains range.chainId).totalCommits + 1 < 2 ^ 256

/-- The state a commit leaves. -/
def afterCommit (msg : Msg) (range : BlockRange) (oldRoot newRoot : Bytes32)
    (weight reputation : Nat) (s : System) : System :=
  { s with
    audit := addCommit msg range oldRoot newRoot weight reputation
      (s.manager.chainToCluster range.chainId) s.audit }

/-- When a commit is submitted. -/
theorem submitCommit_eq_ok {range : BlockRange} {oldRoot newRoot : Bytes32} :
    submitCommit msg range oldRoot newRoot s = .ok s'
      ↔ ∃ weight reputation, CanCommit msg range weight reputation s
        ∧ s' = afterCommit msg range oldRoot newRoot weight reputation s := by
  constructor
  · intro h
    obtain ⟨_, hactive, h⟩ := bind_eq_ok.mp h
    obtain ⟨_, hstaked, h⟩ := bind_eq_ok.mp h
    obtain ⟨_, hregistered, h⟩ := bind_eq_ok.mp h
    obtain ⟨weight, hweight, h⟩ := bind_eq_ok.mp h
    obtain ⟨reputation, hrep, h⟩ := bind_eq_ok.mp h
    obtain ⟨total, htotal, h⟩ := bind_eq_ok.mp h
    rw [require_eq_ok] at hactive hstaked hregistered
    exact ⟨weight, reputation, ⟨hactive, hstaked, hregistered, hweight, hrep,
      (addU256_eq_ok.mp htotal).1⟩, (pure_eq_ok.mp h).symm⟩
  · rintro ⟨weight, reputation, ⟨hactive, hstaked, hregistered, hweight, hrep, hroom⟩, rfl⟩
    rw [submitCommit, require_bind hactive, require_bind hstaked, require_bind hregistered,
      hweight, ok_bind, hrep, ok_bind, addU256_eq_ok.mpr ⟨hroom, rfl⟩]
    rfl

/-! ## §2. Audits. -/

/-- The guards of `weightedAuditAccept`, with the root it accepts and the registry after
its updates. -/
structure CanAccept (pairing : PairingCheck) (S : Setting) (msg : Msg) (groupId : Bytes32)
    (chainId : ChainId) (proof : Proof) (root : Bytes32) (reg' : ReputationRegistry)
    (s : System) : Prop where
  auditor : s.audit.auditors msg.sender = true
  active : (s.audit.chains chainId).isActive = true
  selected : acceptedRoot (s.audit.commitGroups groupId) = .ok root
  proven : proofAccepted pairing proof (s.audit.chains chainId).latestStateRoot root s.audit
    = .ok true
  update : updateGroup S msg root (s.audit.commitGroups groupId) s.registry = .ok reg'

/-- The state an accepted group leaves. -/
def afterAccept (msg : Msg) (groupId : Bytes32) (chainId : ChainId) (root : Bytes32)
    (reg' : ReputationRegistry) (s : System) : System :=
  { s with
    registry := reg'
    audit := setRoot msg.number chainId root (noteUpdates groupId s.audit) }

theorem chains_setRoot_self (number : Nat) (chainId : ChainId) (root : Bytes32)
    (a : AuditContractV2) :
    (setRoot number chainId root a).chains chainId
      = { a.chains chainId with latestStateRoot := root, lastUpdateBlock := number } :=
  update_self ..

theorem chains_setRoot_of_ne {number : Nat} {chainId c : ChainId} {root : Bytes32}
    (a : AuditContractV2) (h : c ≠ chainId) : (setRoot number chainId root a).chains c = a.chains c :=
  update_of_ne h ..

/-- When a group is accepted. -/
theorem weightedAuditAccept_eq_ok {groupId : Bytes32} {chainId : ChainId} {proof : Proof} :
    weightedAuditAccept pairing S msg groupId chainId proof s = .ok s'
      ↔ ∃ root reg', CanAccept pairing S msg groupId chainId proof root reg' s
        ∧ s' = afterAccept msg groupId chainId root reg' s := by
  constructor
  · intro h
    obtain ⟨_, hauditor, h⟩ := bind_eq_ok.mp h
    obtain ⟨_, hactive, h⟩ := bind_eq_ok.mp h
    obtain ⟨root, hroot, h⟩ := bind_eq_ok.mp h
    obtain ⟨ok, hproof, h⟩ := bind_eq_ok.mp h
    obtain ⟨_, hok, h⟩ := bind_eq_ok.mp h
    obtain ⟨reg', hupdate, h⟩ := bind_eq_ok.mp h
    rw [require_eq_ok] at hauditor hactive hok
    rw [hok] at hproof
    exact ⟨root, reg', ⟨hauditor, hactive, hroot, hproof, hupdate⟩, (pure_eq_ok.mp h).symm⟩
  · rintro ⟨root, reg', ⟨hauditor, hactive, hroot, hproof, hupdate⟩, rfl⟩
    rw [weightedAuditAccept, require_bind hauditor, require_bind hactive]
    show (acceptedRoot (s.audit.commitGroups groupId) >>= _) = _
    rw [hroot, ok_bind, hproof, ok_bind, require_bind rfl, hupdate]
    rfl

/-- The guards of `verifyCommit`, with the registry after its update. -/
structure CanVerify (pairing : PairingCheck) (S : Setting) (msg : Msg) (commitId : Bytes32)
    (proof : Proof) (reg' : ReputationRegistry) (s : System) : Prop where
  auditor : s.audit.auditors msg.sender = true
  unverified : (s.audit.commits commitId).isVerified = false
  active : (s.audit.chains (s.audit.commits commitId).chainId).isActive = true
  oldRoot : (s.audit.commits commitId).oldStateRoot
    = (s.audit.chains (s.audit.commits commitId).chainId).latestStateRoot
  proven : proofAccepted pairing proof (s.audit.commits commitId).oldStateRoot
    (s.audit.commits commitId).newStateRoot s.audit = .ok true
  credit : s.registry.updateState (asAudit S msg) (s.audit.commits commitId).committer .VALID
    (s.audit.commits commitId).newStateRoot = .ok reg'

/-- The reward only touches the balance. -/
theorem payReward_eq_ok {accepts : Bool} {a a' : AuditContractV2}
    (h : payReward accepts a = .ok a') : ∃ balance, a' = { a with balance := balance } := by
  unfold payReward at h
  split at h
  next =>
    obtain ⟨_, -, h⟩ := bind_eq_ok.mp h
    exact ⟨_, (pure_eq_ok.mp h).symm⟩
  next => exact ⟨a.balance, (pure_eq_ok.mp h).symm⟩

/-- The state a verified commit leaves. -/
def afterVerify (msg : Msg) (commitId : Bytes32) (reg' : ReputationRegistry) (balance : Nat)
    (s : System) : System :=
  { s with
    registry := reg'
    audit := { markVerified msg commitId s.audit with balance := balance } }

/-- What a verified commit went through. -/
theorem verifyCommit_eq_ok {commitId : Bytes32} {proof : Proof} {accepts : Bool}
    (h : verifyCommit pairing S msg commitId proof accepts s = .ok s') :
    ∃ reg' balance, CanVerify pairing S msg commitId proof reg' s
      ∧ s' = afterVerify msg commitId reg' balance s := by
  obtain ⟨_, hauditor, h⟩ := bind_eq_ok.mp h
  obtain ⟨_, hopen, h⟩ := bind_eq_ok.mp h
  obtain ⟨_, hactive, h⟩ := bind_eq_ok.mp h
  obtain ⟨_, hold, h⟩ := bind_eq_ok.mp h
  obtain ⟨ok, hproof, h⟩ := bind_eq_ok.mp h
  obtain ⟨_, hok, h⟩ := bind_eq_ok.mp h
  obtain ⟨reg', hcredit, h⟩ := bind_eq_ok.mp h
  obtain ⟨a', hpay, h⟩ := bind_eq_ok.mp h
  obtain ⟨balance, rfl⟩ := payReward_eq_ok hpay
  rw [require_eq_ok] at hauditor hopen hactive hold hok
  rw [hok] at hproof
  exact ⟨reg', balance, ⟨hauditor, hopen, hactive, hold, hproof, hcredit⟩, (pure_eq_ok.mp h).symm⟩

/-- A committer whose code takes the reward never makes the audit fail. -/
theorem verifyCommit_ok {commitId : Bytes32} {proof : Proof} {reg' : ReputationRegistry}
    (h : CanVerify pairing S msg commitId proof reg' s) :
    ∃ balance, verifyCommit pairing S msg commitId proof true s
      = .ok (afterVerify msg commitId reg' balance s) := by
  have hpay : ∃ balance, payReward true (markVerified msg commitId s.audit)
      = .ok { markVerified msg commitId s.audit with balance := balance } := by
    unfold payReward
    split
    next => exact ⟨_, by rw [require_bind rfl]; rfl⟩
    next => exact ⟨_, rfl⟩
  obtain ⟨balance, hpay⟩ := hpay
  refine ⟨balance, ?_⟩
  rw [verifyCommit, require_bind h.auditor, require_bind h.unverified, require_bind h.active,
    require_bind h.oldRoot, h.proven, ok_bind, require_bind rfl]
  show (s.registry.updateState _ _ _ _ >>= _) = _
  rw [h.credit, ok_bind]
  show (payReward true (markVerified msg commitId s.audit) >>= _) = _
  rw [hpay]
  rfl

/-! ## §3. Cluster commits. -/

/-- The guards of `acceptClusterCommit` before its call of the manager. -/
structure CanAcceptCluster (msg : Msg) (clusterCommitId clusterCommitment : Bytes32)
    (clusterId : Nat) (s : System) : Prop where
  auditor : s.audit.auditors msg.sender = true
  recorded : (s.manager.clusterCommits clusterCommitId).clusterHead ≠ 0
  unverified : (s.manager.clusterCommits clusterCommitId).isVerified = false
  cluster : (s.manager.clusterCommits clusterCommitId).clusterId = clusterId
  commitment : clusterCommitment = (s.manager.clusterCommits clusterCommitId).aggregatedRoot

/-- When a cluster commit is accepted. -/
theorem acceptClusterCommit_eq_ok {clusterCommitId clusterCommitment : Bytes32}
    {clusterId : Nat} (round : Nat) :
    acceptClusterCommit S msg clusterCommitId clusterCommitment clusterId round s = .ok s'
      ↔ CanAcceptCluster msg clusterCommitId clusterCommitment clusterId s
        ∧ ∃ reg' cm', s.manager.verifyClusterCommit S (asAudit S msg) clusterCommitId s.registry
            = .ok (reg', cm') ∧ s' = { s with registry := reg', manager := cm' } := by
  constructor
  · intro h
    obtain ⟨_, hauditor, h⟩ := bind_eq_ok.mp h
    obtain ⟨_, hhead, h⟩ := bind_eq_ok.mp h
    obtain ⟨_, hopen, h⟩ := bind_eq_ok.mp h
    obtain ⟨_, hcluster, h⟩ := bind_eq_ok.mp h
    obtain ⟨_, hcommit, h⟩ := bind_eq_ok.mp h
    obtain ⟨⟨reg', cm'⟩, hverify, h⟩ := bind_eq_ok.mp h
    rw [require_eq_ok] at hauditor hhead hopen hcluster hcommit
    exact ⟨⟨hauditor, hhead, hopen, hcluster, hcommit⟩, reg', cm', hverify, (pure_eq_ok.mp h).symm⟩
  · rintro ⟨⟨hauditor, hhead, hopen, hcluster, hcommit⟩, reg', cm', hverify, rfl⟩
    rw [acceptClusterCommit, require_bind hauditor, require_bind hhead, require_bind hopen,
      require_bind hcluster, require_bind hcommit, hverify]
    rfl

/-- The guards of `acceptClusterCommitLegacy`, with the storage after its loop. -/
structure CanAcceptLegacy (msg : Msg) (clusterCommitId : Bytes32) (chainIds : List ChainId)
    (newRoots : List Bytes32) (a' : AuditContractV2) (s : System) : Prop where
  auditor : s.audit.auditors msg.sender = true
  lengths : chainIds.length = newRoots.length
  nonempty : chainIds.length > 0
  recorded : (s.manager.clusterCommits clusterCommitId).clusterHead ≠ 0
  unverified : (s.manager.clusterCommits clusterCommitId).isVerified = false
  count : chainIds.length = (s.manager.clusters
    (s.manager.clusterCommits clusterCommitId).clusterId).assignedChainIds.length
  member : ∀ x ∈ chainIds, x ∈ (s.manager.clusters
    (s.manager.clusterCommits clusterCommitId).clusterId).assignedChainIds
  root : ClusterManager.merkleRoot newRoots
    = (s.manager.clusterCommits clusterCommitId).aggregatedRoot
  loop : setRoots msg.number (chainIds.zip newRoots) s.audit = .ok a'

/-- When the older form is accepted. -/
theorem acceptClusterCommitLegacy_eq_ok {clusterCommitId : Bytes32} {chainIds : List ChainId}
    {newRoots : List Bytes32} :
    acceptClusterCommitLegacy S msg clusterCommitId chainIds newRoots s = .ok s'
      ↔ ∃ a' reg' cm', CanAcceptLegacy msg clusterCommitId chainIds newRoots a' s
        ∧ s.manager.verifyClusterCommit S (asAudit S msg) clusterCommitId s.registry
            = .ok (reg', cm') ∧ s' = ⟨reg', cm', a'⟩ := by
  constructor
  · intro h
    obtain ⟨_, hauditor, h⟩ := bind_eq_ok.mp h
    obtain ⟨_, hlen, h⟩ := bind_eq_ok.mp h
    obtain ⟨_, hpos, h⟩ := bind_eq_ok.mp h
    obtain ⟨_, hhead, h⟩ := bind_eq_ok.mp h
    obtain ⟨_, hopen, h⟩ := bind_eq_ok.mp h
    obtain ⟨_, hcount, h⟩ := bind_eq_ok.mp h
    obtain ⟨_, hmember, h⟩ := bind_eq_ok.mp h
    obtain ⟨_, hroot, h⟩ := bind_eq_ok.mp h
    obtain ⟨a', hloop, h⟩ := bind_eq_ok.mp h
    obtain ⟨⟨reg', cm'⟩, hverify, h⟩ := bind_eq_ok.mp h
    rw [require_eq_ok] at hauditor hlen hpos hhead hopen hcount hmember hroot
    exact ⟨a', reg', cm', ⟨hauditor, hlen, hpos, hhead, hopen, hcount, hmember, hroot, hloop⟩,
      hverify, (pure_eq_ok.mp h).symm⟩
  · rintro ⟨a', reg', cm', ⟨hauditor, hlen, hpos, hhead, hopen, hcount, hmember, hroot, hloop⟩,
      hverify, rfl⟩
    rw [acceptClusterCommitLegacy, require_bind hauditor, require_bind hlen, require_bind hpos,
      require_bind hhead, require_bind hopen, require_bind hcount, require_bind hmember,
      require_bind hroot, hloop, ok_bind, hverify]
    rfl

/-- The loop writes to the chain records only. -/
theorem setRoots_shape {number : Nat} {entries : List (ChainId × Bytes32)} {a a' : AuditContractV2}
    (h : setRoots number entries a = .ok a') : a' = { a with chains := a'.chains } := by
  refine foldlM_invariant (fun b => b = { a with chains := b.chains }) ?_ entries a a' rfl h
  intro b entry b' hb hstep
  obtain ⟨_, -, hstep⟩ := bind_eq_ok.mp hstep
  rw [← pure_eq_ok.mp hstep, hb]
  rfl

/-! ## §4. The other calls. -/

/-- A call of the audit contract that is none of the six above leaves this much alone. -/
structure Admin (call : Call) (a a' : AuditContractV2) : Prop where
  chains : a'.chains = a.chains
  commits : a'.commits = a.commits
  commitIds : a'.commitIds = a.commitIds
  commitGroups : a'.commitGroups = a.commitGroups
  ranges : a'.ranges = a.ranges
  updates : a'.updates = a.updates
  mock : call = .enableMockVerifier ∨ a'.useMockVerifier = a.useMockVerifier

theorem stake_admin {value : Nat} {a a' : AuditContractV2} (h : stake msg value a = .ok a') :
    Admin (.stake value) a a' := by
  obtain ⟨_, -, h⟩ := bind_eq_ok.mp h
  obtain ⟨_, -, h⟩ := bind_eq_ok.mp h
  rw [← pure_eq_ok.mp h]
  exact ⟨rfl, rfl, rfl, rfl, rfl, rfl, Or.inr rfl⟩

theorem addAuditor_admin {auditor : Address} {a a' : AuditContractV2}
    (h : addAuditor msg auditor a = .ok a') : Admin (.addAuditor auditor) a a' := by
  obtain ⟨_, -, h⟩ := bind_eq_ok.mp h
  split at h
  next =>
    rw [← pure_eq_ok.mp h]
    exact ⟨rfl, rfl, rfl, rfl, rfl, rfl, Or.inr rfl⟩
  next =>
    obtain ⟨_, -, h⟩ := bind_eq_ok.mp h
    rw [← pure_eq_ok.mp h]
    exact ⟨rfl, rfl, rfl, rfl, rfl, rfl, Or.inr rfl⟩

theorem enableMockVerifier_admin {a a' : AuditContractV2}
    (h : enableMockVerifier msg a = .ok a') : Admin .enableMockVerifier a a' := by
  obtain ⟨_, -, h⟩ := bind_eq_ok.mp h
  rw [← pure_eq_ok.mp h]
  exact ⟨rfl, rfl, rfl, rfl, rfl, rfl, Or.inl rfl⟩

theorem setVerifyingKey_admin {alpha : G1Point} {beta gamma delta : G2Point}
    {ic : List (List Nat)} {a a' : AuditContractV2}
    (h : setVerifyingKey msg alpha beta gamma delta ic a = .ok a') :
    Admin (.setVerifyingKey alpha beta gamma delta ic) a a' := by
  obtain ⟨_, -, h⟩ := bind_eq_ok.mp h
  obtain ⟨_, -, h⟩ := bind_eq_ok.mp h
  rw [← pure_eq_ok.mp h]
  exact ⟨rfl, rfl, rfl, rfl, rfl, rfl, Or.inr rfl⟩

theorem deposit_admin {value : Nat} {a a' : AuditContractV2} (h : deposit value a = .ok a') :
    Admin (.deposit value) a a' := by
  cases h
  exact ⟨rfl, rfl, rfl, rfl, rfl, rfl, Or.inr rfl⟩

end AuditContractV2

/-! ## §5. The effect of a transaction. -/

namespace System

open AuditContractV2

/-- **The effect of a successful transaction.** -/
inductive Effect (pairing : PairingCheck) (S : Setting) (s : System) : Tx → System → Prop
  | registry {tx : ReputationRegistry.Tx} {reg' : ReputationRegistry}
      (call : ReputationRegistry.exec tx s.registry = .ok reg') :
      Effect pairing S s (.registry tx) { s with registry := reg' }
  | manager {ctx : Ctx} {call : ClusterManager.Call} {reg' : ReputationRegistry}
      {cm' : ClusterManager}
      (effect : ClusterManager.Effect S ctx s.registry s.manager call reg' cm') :
      Effect pairing S s (.manager ctx call) { s with registry := reg', manager := cm' }
  | registerChain {msg : Msg} {chainId : ChainId} {initialRoot : Bytes32}
      (owner : msg.sender = s.audit.owner)
      (inactive : (s.audit.chains chainId).isActive = false) :
      Effect pairing S s (.audit msg (.registerChain chainId initialRoot))
        { s with audit := afterRegister msg chainId initialRoot s.audit }
  | submitCommit {msg : Msg} {range : BlockRange} {oldRoot newRoot : Bytes32}
      {weight reputation : Nat} (guards : CanCommit msg range weight reputation s) :
      Effect pairing S s (.audit msg (.submitCommit range oldRoot newRoot))
        (afterCommit msg range oldRoot newRoot weight reputation s)
  | weightedAudit {msg : Msg} {groupId : Bytes32} {chainId : ChainId} {proof : Proof}
      {root : Bytes32} {reg' : ReputationRegistry}
      (guards : CanAccept pairing S msg groupId chainId proof root reg' s) :
      Effect pairing S s (.audit msg (.weightedAuditAccept groupId chainId proof))
        (afterAccept msg groupId chainId root reg' s)
  | singleAudit {msg : Msg} {commitId : Bytes32} {proof : Proof} {accepts : Bool}
      {reg' : ReputationRegistry} {balance : Nat}
      (guards : CanVerify pairing S msg commitId proof reg' s) :
      Effect pairing S s (.audit msg (.verifyCommit commitId proof accepts))
        (afterVerify msg commitId reg' balance s)
  | clusterAudit {msg : Msg} {clusterCommitId clusterCommitment : Bytes32}
      {clusterId round : Nat} {reg' : ReputationRegistry} {cm' : ClusterManager}
      (guards : CanAcceptCluster msg clusterCommitId clusterCommitment clusterId s)
      (call : s.manager.verifyClusterCommit S (asAudit S msg) clusterCommitId s.registry
        = .ok (reg', cm')) :
      Effect pairing S s
        (.audit msg (.acceptClusterCommit clusterCommitId clusterCommitment clusterId round))
        { s with registry := reg', manager := cm' }
  | legacyAudit {msg : Msg} {clusterCommitId : Bytes32} {chainIds : List ChainId}
      {newRoots : List Bytes32} {a' : AuditContractV2} {reg' : ReputationRegistry}
      {cm' : ClusterManager}
      (guards : CanAcceptLegacy msg clusterCommitId chainIds newRoots a' s)
      (call : s.manager.verifyClusterCommit S (asAudit S msg) clusterCommitId s.registry
        = .ok (reg', cm')) :
      Effect pairing S s (.audit msg (.acceptClusterCommitLegacy clusterCommitId chainIds newRoots))
        ⟨reg', cm', a'⟩
  | admin {msg : Msg} {call : AuditContractV2.Call} {a' : AuditContractV2}
      (frame : Admin call s.audit a') :
      Effect pairing S s (.audit msg call) { s with audit := a' }

variable {pairing : PairingCheck} {S : Setting} {s s' : System}

/-- The audit alone moves. -/
theorem onAudit_eq_ok {f : AuditContractV2 → Except Revert AuditContractV2} :
    onAudit f s = .ok s' ↔ ∃ a', f s.audit = .ok a' ∧ s' = { s with audit := a' } := by
  unfold onAudit
  rw [map_eq_ok]
  exact exists_congr (fun a' => and_congr_right (fun _ => eq_comm))

/-- What an audit call does. -/
theorem audit_effect {msg : Msg} {call : AuditContractV2.Call}
    (h : AuditContractV2.exec pairing S msg call s = .ok s') :
    Effect pairing S s (.audit msg call) s' := by
  cases call with
  | registerChain chainId initialRoot =>
    obtain ⟨a', ha, rfl⟩ := onAudit_eq_ok.mp h
    obtain ⟨howner, hnew, rfl⟩ := registerChain_eq_ok.mp ha
    exact .registerChain howner hnew
  | stake value =>
    obtain ⟨a', ha, rfl⟩ := onAudit_eq_ok.mp h
    exact .admin (stake_admin ha)
  | addAuditor auditor =>
    obtain ⟨a', ha, rfl⟩ := onAudit_eq_ok.mp h
    exact .admin (addAuditor_admin ha)
  | submitCommit range oldRoot newRoot =>
    obtain ⟨weight, reputation, hguards, rfl⟩ := submitCommit_eq_ok.mp h
    exact .submitCommit hguards
  | weightedAuditAccept groupId chainId proof =>
    obtain ⟨root, reg', hguards, rfl⟩ := weightedAuditAccept_eq_ok.mp h
    exact .weightedAudit hguards
  | verifyCommit commitId proof accepts =>
    obtain ⟨reg', balance, hguards, rfl⟩ := verifyCommit_eq_ok h
    exact .singleAudit hguards
  | acceptClusterCommit clusterCommitId clusterCommitment clusterId round =>
    obtain ⟨hguards, reg', cm', hcall, rfl⟩ := (acceptClusterCommit_eq_ok round).mp h
    exact .clusterAudit hguards hcall
  | acceptClusterCommitLegacy clusterCommitId chainIds newRoots =>
    obtain ⟨a', reg', cm', hguards, hcall, rfl⟩ := acceptClusterCommitLegacy_eq_ok.mp h
    exact .legacyAudit hguards hcall
  | enableMockVerifier =>
    obtain ⟨a', ha, rfl⟩ := onAudit_eq_ok.mp h
    exact .admin (enableMockVerifier_admin ha)
  | setVerifyingKey alpha beta gamma delta ic =>
    obtain ⟨a', ha, rfl⟩ := onAudit_eq_ok.mp h
    exact .admin (setVerifyingKey_admin ha)
  | deposit value =>
    obtain ⟨a', ha, rfl⟩ := onAudit_eq_ok.mp h
    exact .admin (deposit_admin ha)

/-- A transaction goes through when its sender is external and the called function
returns. -/
theorem exec_eq_ok {tx : Tx} :
    exec pairing S tx s = .ok s' ↔ External S tx.sender ∧ dispatch pairing S tx s = .ok s' := by
  unfold exec
  rw [bind_eq_ok]
  constructor
  · rintro ⟨_, hext, h⟩
    exact ⟨require_eq_ok.mp hext, h⟩
  · rintro ⟨hext, h⟩
    exact ⟨(), require_eq_ok.mpr hext, h⟩

theorem exec_registry_ok {tx : ReputationRegistry.Tx} {reg' : ReputationRegistry}
    (hext : External S tx.msg.sender) (h : ReputationRegistry.exec tx s.registry = .ok reg') :
    exec pairing S (.registry tx) s = .ok { s with registry := reg' } :=
  exec_eq_ok.mpr ⟨hext, map_eq_ok.mpr ⟨reg', h, rfl⟩⟩

theorem exec_manager_ok {ctx : Ctx} {call : ClusterManager.Call}
    {reg' : ReputationRegistry} {cm' : ClusterManager} (hext : External S ctx.msg.sender)
    (h : ClusterManager.exec S ctx call s.registry s.manager = .ok (reg', cm')) :
    exec pairing S (.manager ctx call) s = .ok { s with registry := reg', manager := cm' } :=
  exec_eq_ok.mpr ⟨hext, map_eq_ok.mpr ⟨(reg', cm'), h, rfl⟩⟩

/-- **Inversion of a transaction.** -/
theorem exec_effect {tx : Tx} (h : exec pairing S tx s = .ok s') : Effect pairing S s tx s' := by
  obtain ⟨-, h⟩ := exec_eq_ok.mp h
  cases tx with
  | registry tx =>
    obtain ⟨reg', hreg, rfl⟩ := map_eq_ok.mp h
    exact .registry hreg
  | manager ctx call =>
    obtain ⟨⟨reg', cm'⟩, hcm, rfl⟩ := map_eq_ok.mp h
    exact .manager (ClusterManager.exec_effect hcm)
  | audit msg call => exact audit_effect h

/-! ## §6. Lifting invariants of one contract. -/

/-- What every call of the manager keeps, and `verifyClusterCommit` by the audit contract
keeps, every transaction keeps. -/
theorem manager_step {P : ClusterManager → Prop}
    (hcall : ∀ ctx call reg reg' cm cm', P cm →
      ClusterManager.Effect S ctx reg cm call reg' cm' → P cm')
    (hverify : ∀ commitId cm, P cm → P (ClusterManager.markVerified commitId cm))
    {tx : Tx} (hs : P s.manager) (h : exec pairing S tx s = .ok s') : P s'.manager := by
  cases exec_effect h with
  | manager effect => exact hcall _ _ _ _ _ _ hs effect
  | clusterAudit _ call =>
    obtain ⟨-, -, -, rfl⟩ := ClusterManager.verifyClusterCommit_eq_ok.mp call
    exact hverify _ _ hs
  | legacyAudit _ call =>
    obtain ⟨-, -, -, rfl⟩ := ClusterManager.verifyClusterCommit_eq_ok.mp call
    exact hverify _ _ hs
  | registry _ => exact hs
  | registerChain _ _ => exact hs
  | submitCommit _ => exact hs
  | weightedAudit _ => exact hs
  | singleAudit _ => exact hs
  | admin _ => exact hs

/-- What every call of the registry keeps, every transaction keeps. -/
theorem registry_step {P : ReputationRegistry → Prop}
    (hcall : ∀ tx reg reg', P reg → ReputationRegistry.exec tx reg = .ok reg' → P reg')
    {tx : Tx} (hs : P s.registry) (h : exec pairing S tx s = .ok s') : P s'.registry := by
  have hupdate : ∀ msg ct e p reg reg', P reg →
      ReputationRegistry.updateState msg ct e p reg = .ok reg' → P reg' :=
    fun msg ct e p => hcall ⟨msg, .updateState ct e p⟩
  cases exec_effect h with
  | registry call => exact hcall _ _ _ hs call
  | manager effect =>
    cases effect with
    | verify _ _ credit => exact hupdate _ _ _ _ _ _ hs credit
    | crossReference update =>
      -- one event for each listed committer
      obtain ⟨_, -, update⟩ := bind_eq_ok.mp update
      obtain ⟨_, -, update⟩ := bind_eq_ok.mp update
      obtain ⟨_, -, update⟩ := bind_eq_ok.mp update
      exact foldlM_invariant P (fun _ _ _ hreg => hupdate _ _ _ _ _ _ hreg) _ _ _ hs update
    | uphold guards => exact hupdate _ _ _ _ _ _ hs guards.penalty
    | advance _ rounds => exact hcall ⟨_, .advanceRound⟩ _ _ hs rounds
    | createCluster _ _ _ _ => exact hs
    | addMember _ _ => exact hs
    | elect _ _ => exact hs
    | submit _ => exact hs
    | reshuffle _ _ _ _ => exact hs
    | file _ => exact hs
    | dismiss _ _ => exact hs
  | weightedAudit guards =>
    exact foldlM_invariant P (fun _ _ _ hreg => hupdate _ _ _ _ _ _ hreg) _ _ _ hs guards.update
  | singleAudit guards => exact hupdate _ _ _ _ _ _ hs guards.credit
  | clusterAudit _ call =>
    obtain ⟨-, -, credit, -⟩ := ClusterManager.verifyClusterCommit_eq_ok.mp call
    exact hupdate _ _ _ _ _ _ hs credit
  | legacyAudit _ call =>
    obtain ⟨-, -, credit, -⟩ := ClusterManager.verifyClusterCommit_eq_ok.mp call
    exact hupdate _ _ _ _ _ _ hs credit
  | registerChain _ _ => exact hs
  | submitCommit _ => exact hs
  | admin _ => exact hs

/-- The invariant of the registry holds in every run of the system. -/
theorem registryInv_run (pairing : PairingCheck) (S : Setting)
    (deployers : Deployers) (txs : List Tx) :
    ReputationRegistry.RegistryInv
      (run (exec pairing S) (deploy deployers) txs).registry :=
  run_invariant (P := fun s : System => ReputationRegistry.RegistryInv s.registry)
    (fun _ _ _ hs h => registry_step
      (fun _ _ _ hreg hcall => ReputationRegistry.registryInv_step hreg hcall) hs h) txs
    (ReputationRegistry.registryInv_deploy deployers.registry)

/-- What a transaction does to the cluster commits, and that the manager keeps its owner. -/
theorem commits_step {tx : Tx} (h : exec pairing S tx s = .ok s') :
    s'.manager.owner = s.manager.owner
      ∧ ((∃ ctx clusterId chainRoots,
            tx = .manager ctx (.submitClusterCommit clusterId chainRoots)
            ∧ ClusterManager.CanSubmit ctx clusterId chainRoots s.manager
            ∧ s'.manager = ClusterManager.afterSubmit ctx clusterId chainRoots s.manager)
        ∨ (∃ commitId, (s.manager.clusterCommits commitId).isVerified = false
            ∧ s'.manager = ClusterManager.markVerified commitId s.manager)
        ∨ ClusterManager.SameCommits s.manager s'.manager) := by
  have hsame : ClusterManager.SameCommits s.manager s.manager := ⟨rfl, rfl, rfl, rfl⟩
  cases exec_effect h with
  | @manager ctx call reg' cm' effect =>
    obtain ⟨hcommits, howner⟩ := effect.commits
    refine ⟨howner, ?_⟩
    cases hcommits with
    | submit what guards =>
      left
      rw [what]
      exact ⟨_, _, _, rfl, guards, rfl⟩
    | verify unverified => exact Or.inr (Or.inl ⟨_, unverified, rfl⟩)
    | same commits => exact Or.inr (Or.inr commits)
  | clusterAudit _ call =>
    obtain ⟨-, hopen, -, rfl⟩ := ClusterManager.verifyClusterCommit_eq_ok.mp call
    exact ⟨rfl, Or.inr (Or.inl ⟨_, hopen, rfl⟩)⟩
  | legacyAudit _ call =>
    obtain ⟨-, hopen, -, rfl⟩ := ClusterManager.verifyClusterCommit_eq_ok.mp call
    exact ⟨rfl, Or.inr (Or.inl ⟨_, hopen, rfl⟩)⟩
  | registry _ => exact ⟨rfl, Or.inr (Or.inr hsame)⟩
  | registerChain _ _ => exact ⟨rfl, Or.inr (Or.inr hsame)⟩
  | submitCommit _ => exact ⟨rfl, Or.inr (Or.inr hsame)⟩
  | weightedAudit _ => exact ⟨rfl, Or.inr (Or.inr hsame)⟩
  | singleAudit _ => exact ⟨rfl, Or.inr (Or.inr hsame)⟩
  | admin _ => exact ⟨rfl, Or.inr (Or.inr hsame)⟩

end System

end HZKA
