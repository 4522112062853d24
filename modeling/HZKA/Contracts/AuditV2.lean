/-
  HZKA.Contracts.AuditV2
  ────────────
  **THE AUDIT CONTRACT OF PROTOCOL Ψ** (`AuditContractV2.sol`) and the audit chain as a
  whole: registry, cluster manager and audit contract, with the calls between them.

  A function of the audit contract takes and returns the whole `System`, since it may
  call `updateState` of the registry and `verifyClusterCommit` of the manager; to both
  the caller is the audit contract's own address.

  Two history variables, read by no function: the block range each group entry was
  submitted for, and the group entries an `updateState` call was made for.  Left out:
  events and views.
-/
import HZKA.Contracts.ClusterManager
import HZKA.Contracts.Groth16Verifier
import HZKA.Lib.Run

namespace HZKA

open Function
open HZKA.Lib HZKA.EVM HZKA.Groth16Verifier

/-! ## §1. Storage. -/

/-- What the contract stores of a registered chain. -/
structure ChainInfo where
  chainId : ChainId
  latestStateRoot : Bytes32
  lastUpdateBlock : Nat
  totalCommits : Nat
  isActive : Bool
  deriving DecidableEq, Repr

/-- An unset chain. -/
def ChainInfo.zero : ChainInfo := ⟨0, 0, 0, 0, false⟩

/-- A submitted commit, with its weight. -/
structure CommitRecord where
  committer : Address
  chainId : ChainId
  clusterId : Nat
  oldStateRoot : Bytes32
  newStateRoot : Bytes32
  timestamp : Nat
  isVerified : Bool
  reputationAtSubmit : Nat
  deriving DecidableEq, Repr

/-- An unset commit. -/
def CommitRecord.zero : CommitRecord := ⟨0, 0, 0, 0, 0, 0, false, 0⟩

/-- An entry of a group. -/
structure WeightedSubmission where
  committer : Address
  submittedRoot : Bytes32
  weight : Nat
  deriving DecidableEq, Repr

/-- A chain and a block range of it. -/
structure BlockRange where
  chainId : ChainId
  blockStart : BitVec 256
  blockEnd : BitVec 256
  deriving DecidableEq, Repr

/-- The storage, with the ether balance. -/
structure AuditContractV2 where
  vk_psi : VerifyingKey
  useMockVerifier : Bool
  chains : ChainId → ChainInfo
  chainList : List ChainId
  commits : Bytes32 → CommitRecord
  commitIds : List Bytes32
  commitGroups : Bytes32 → List WeightedSubmission
  rewardPerCommit : Nat
  committerStakes : Address → Nat
  auditors : Address → Bool
  auditorCount : Nat
  owner : Address
  /-- `address(this).balance` -/
  balance : Nat
  /-- history: the range each entry of a group was submitted for -/
  ranges : Bytes32 → List BlockRange
  /-- history: the group entries (by group and position) `updateState` was called for -/
  updates : List (Bytes32 × Nat)

/-- The three contracts of the audit chain. -/
structure System where
  registry : ReputationRegistry
  manager : ClusterManager
  audit : AuditContractV2

namespace AuditContractV2

/-- The least stake. -/
@[irreducible] def MIN_STAKE : Nat := ether

/-- The key storage holds before `setVerifyingKey`. -/
def unsetKey : VerifyingKey :=
  ⟨⟨0, 0⟩, ⟨(0, 0), (0, 0)⟩, ⟨(0, 0), (0, 0)⟩, ⟨(0, 0), (0, 0)⟩, []⟩

/-- The constructor. -/
def deploy (deployer : Address) : AuditContractV2 where
  vk_psi := unsetKey
  useMockVerifier := false
  chains := fun _ => ChainInfo.zero
  chainList := []
  commits := fun _ => CommitRecord.zero
  commitIds := []
  commitGroups := fun _ => []
  rewardPerCommit := 1000000000000000
  committerStakes := fun _ => 0
  auditors := update (fun _ => false) deployer true
  auditorCount := 1
  owner := deployer
  balance := 0
  ranges := fun _ => []
  updates := []

/-! ## §2. Chains, stakes, administration. -/

/-- The owner adds a chain. -/
def registerChain (msg : Msg) (chainId : ChainId) (initialRoot : Bytes32) (a : AuditContractV2) :
    Except Revert AuditContractV2 := do
  require (msg.sender = a.owner) "Not owner"
  require ((a.chains chainId).isActive = false) "Already registered"
  return { a with
    chains := update a.chains chainId ⟨chainId, initialRoot, msg.number, 0, true⟩
    chainList := a.chainList ++ [chainId] }

/-- A committer adds to its stake. -/
def stake (msg : Msg) (value : Nat) (a : AuditContractV2) : Except Revert AuditContractV2 := do
  require (value ≥ MIN_STAKE) "Insufficient stake"
  let staked ← addU256 (a.committerStakes msg.sender) value
  return { a with
    committerStakes := update a.committerStakes msg.sender staked
    balance := a.balance + value }

/-- The owner adds an auditor. -/
def addAuditor (msg : Msg) (auditor : Address) (a : AuditContractV2) :
    Except Revert AuditContractV2 := do
  require (msg.sender = a.owner) "Not owner"
  if a.auditors auditor then
    return a
  else
    let count ← addU256 a.auditorCount 1
    return { a with
      auditors := update a.auditors auditor true
      auditorCount := count }

/-- The owner turns verification off, for good. -/
def enableMockVerifier (msg : Msg) (a : AuditContractV2) : Except Revert AuditContractV2 := do
  require (msg.sender = a.owner) "Not owner"
  return { a with useMockVerifier := true }

/-- One row of `ic`; a row of fewer than two words is out of bounds. -/
def icPoint : List Nat → Except Revert G1Point
  | x :: y :: _ => .ok ⟨x, y⟩
  | _ => .error .panic

/-- The owner sets the key; points of `ic` are lists of words. -/
def setVerifyingKey (msg : Msg) (alpha : G1Point) (beta gamma delta : G2Point)
    (ic : List (List Nat)) (a : AuditContractV2) : Except Revert AuditContractV2 := do
  require (msg.sender = a.owner) "Not owner"
  let points ← ic.mapM icPoint
  return { a with vk_psi := ⟨alpha, beta, gamma, delta, points⟩ }

/-- `receive` and `fallback`. -/
def deposit (value : Nat) (a : AuditContractV2) : Except Revert AuditContractV2 :=
  .ok { a with balance := a.balance + value }

/-! ## §3. Commits. -/

/-- The id of a commit. -/
def commitKey (committer : Address) (chainId : ChainId) (oldRoot newRoot : Bytes32)
    (timestamp : Nat) : Bytes32 :=
  keccak256 (abiEncode [.address committer, .bytes32 chainId, .bytes32 oldRoot, .bytes32 newRoot,
    .uint256 timestamp])

/-- `abi.encode(chainId, blockStart, blockEnd)`. -/
def rangeBytes (range : BlockRange) : List Byte :=
  abiEncode [.bytes32 range.chainId, .bytes32 range.blockStart, .bytes32 range.blockEnd]

/-- The id of the group of a block range. -/
def groupKey (range : BlockRange) : Bytes32 := keccak256 (rangeBytes range)

/-- What `submitCommit` stores, given the weights it read. -/
def addCommit (msg : Msg) (range : BlockRange) (oldRoot newRoot : Bytes32)
    (linearWeight repSnap clusterID : Nat) (a : AuditContractV2) : AuditContractV2 :=
  let commitId := commitKey msg.sender range.chainId oldRoot newRoot msg.timestamp
  let groupId := groupKey range
  { a with
    commits := update a.commits commitId
      { committer := msg.sender
        chainId := range.chainId
        clusterId := clusterID
        oldStateRoot := oldRoot
        newStateRoot := newRoot
        timestamp := msg.timestamp
        isVerified := false
        reputationAtSubmit := repSnap }
    commitIds := a.commitIds ++ [commitId]
    commitGroups := update a.commitGroups groupId
      (a.commitGroups groupId ++ [⟨msg.sender, newRoot, linearWeight⟩])
    ranges := update a.ranges groupId (a.ranges groupId ++ [range])
    chains := update a.chains range.chainId
      { a.chains range.chainId with totalCommits := (a.chains range.chainId).totalCommits + 1 } }

/-- A committer files a commit with its weight. -/
def submitCommit (msg : Msg) (range : BlockRange) (oldRoot newRoot : Bytes32) (s : System) :
    Except Revert System := do
  require ((s.audit.chains range.chainId).isActive = true) "Chain not registered"
  require (s.audit.committerStakes msg.sender ≥ MIN_STAKE) "Insufficient stake"
  require (s.registry.isCommitterRegistered msg.sender = true) "Not a registered committer"
  let linearWeight ← s.registry.getElectionWeight msg.sender
  let repSnap ← s.registry.getEffectiveReputation msg.sender
  let clusterID := s.manager.chainToCluster range.chainId
  let _ ← addU256 (s.audit.chains range.chainId).totalCommits 1
  return { s with
    audit := addCommit msg range oldRoot newRoot linearWeight repSnap clusterID s.audit }

/-! ## §4. Weighted audit. -/

/-- Step 1, the loop over the group. -/
def groupWeight (group : List WeightedSubmission) : Except Revert Nat :=
  group.foldlM (fun totalWeight e => addU256 totalWeight e.weight) 0

/-- The inner loop of step 2: the weight of the entries with root `candidate`. -/
def candidateWeight (group : List WeightedSubmission) (candidate : Bytes32) : Except Revert Nat :=
  group.foldlM (fun candWeight e =>
    if e.submittedRoot = candidate then addU256 candWeight e.weight else .ok candWeight) 0

/-- Steps 2 and 3: the best root so far and its weight, over all candidates. -/
def selectRoot (group : List WeightedSubmission) (total : Nat) : Except Revert (Bytes32 × Nat) :=
  group.foldlM (fun (best : Bytes32 × Nat) e => do
    let candWeight ← candidateWeight group e.submittedRoot
    let lhs ← mulU256 candWeight 3
    let rhs ← mulU256 total 2
    return (if lhs ≥ rhs ∧ candWeight > best.2 then (e.submittedRoot, candWeight) else best)) (0, 0)

/-- Steps 1 to 3 with their guards: the accepted root of a group. -/
def acceptedRoot (group : List WeightedSubmission) : Except Revert Bytes32 := do
  require (group.length > 0) "Empty commit group"
  let total ← groupWeight group
  require (total > 0) "Zero total weight"
  let best ← selectRoot group total
  require (best.1 ≠ 0) "No 2/3 weighted majority"
  return best.1

variable (pairing : PairingCheck)

/-- `useMockVerifier || Groth16Verifier.verify(..)`. -/
def proofAccepted (proof : Proof) (oldRoot newRoot : Bytes32) (a : AuditContractV2) :
    Except Revert Bool :=
  if a.useMockVerifier then .ok true
  else verify pairing a.vk_psi proof [oldRoot.toNat, newRoot.toNat]

/-- The write of a new state root. -/
def setRoot (number : Nat) (chainId : ChainId) (root : Bytes32) (a : AuditContractV2) :
    AuditContractV2 :=
  { a with
    chains := update a.chains chainId
      { a.chains chainId with latestStateRoot := root, lastUpdateBlock := number } }

variable (S : Setting)

/-- The other contracts see the audit contract as the caller. -/
def asAudit (msg : Msg) : Msg := { msg with sender := S.auditContract }

/-- Step 5, the loop over the group. -/
def updateGroup (msg : Msg) (root : Bytes32) (group : List WeightedSubmission)
    (reg : ReputationRegistry) : Except Revert ReputationRegistry :=
  group.foldlM (fun reg e =>
    reg.updateState (asAudit S msg) e.committer
      (if e.submittedRoot = root then .VALID else .INVALID) root) reg

/-- The entries step 5 makes a call for. -/
def noteUpdates (groupId : Bytes32) (a : AuditContractV2) : AuditContractV2 :=
  { a with
    updates := (List.range (a.commitGroups groupId).length).map (fun i => (groupId, i)) ++ a.updates }

/-- An auditor accepts the heaviest root of a group. -/
def weightedAuditAccept (msg : Msg) (groupId : Bytes32) (chainId : ChainId) (proof : Proof)
    (s : System) : Except Revert System := do
  require (s.audit.auditors msg.sender = true) "Not auditor"
  require ((s.audit.chains chainId).isActive = true) "Chain not registered"
  let group := s.audit.commitGroups groupId
  let root ← acceptedRoot group
  let ok ← proofAccepted pairing proof (s.audit.chains chainId).latestStateRoot root s.audit
  require (ok = true) "ZKP verification failed"
  let reg ← updateGroup S msg root group s.registry
  return { s with
    registry := reg
    audit := setRoot msg.number chainId root (noteUpdates groupId s.audit) }

/-! ## §5. Single audit. -/

/-- The writes of `verifyCommit` to the audit contract's storage. -/
def markVerified (msg : Msg) (commitId : Bytes32) (a : AuditContractV2) : AuditContractV2 :=
  setRoot msg.number (a.commits commitId).chainId (a.commits commitId).newStateRoot
    { a with
      commits := update a.commits commitId
        { a.commits commitId with isVerified := true } }

/-- The reward, if the balance covers it; `accepts` says that the committer's code takes it. -/
def payReward (accepts : Bool) (a : AuditContractV2) : Except Revert AuditContractV2 := do
  if a.balance ≥ a.rewardPerCommit then
    require (accepts = true) ""
    return { a with balance := a.balance - a.rewardPerCommit }
  else
    return a

/-- An auditor verifies one commit. -/
def verifyCommit (msg : Msg) (commitId : Bytes32) (proof : Proof) (accepts : Bool) (s : System) :
    Except Revert System := do
  require (s.audit.auditors msg.sender = true) "Not auditor"
  let record := s.audit.commits commitId
  require (record.isVerified = false) "Already verified"
  require ((s.audit.chains record.chainId).isActive = true) "Chain not active"
  require (record.oldStateRoot = (s.audit.chains record.chainId).latestStateRoot) "Old root mismatch"
  let ok ← proofAccepted pairing proof record.oldStateRoot record.newStateRoot s.audit
  require (ok = true) "ZKP verification failed"
  let reg ← s.registry.updateState (asAudit S msg) record.committer .VALID record.newStateRoot
  let audit ← payReward accepts (markVerified msg commitId s.audit)
  return { s with registry := reg, audit := audit }

/-! ## §6. Cluster commits. -/

/-- An auditor has a cluster commit verified. -/
def acceptClusterCommit (msg : Msg) (clusterCommitId clusterCommitment : Bytes32)
    (clusterId _round : Nat) (s : System) : Except Revert System := do
  require (s.audit.auditors msg.sender = true) "Not auditor"
  let cc := s.manager.clusterCommits clusterCommitId
  require (cc.clusterHead ≠ 0) "Invalid cluster commit"
  require (cc.isVerified = false) "Already verified"
  require (cc.clusterId = clusterId) "Cluster ID mismatch"
  require (clusterCommitment = cc.aggregatedRoot) "Commitment mismatch"
  let (reg, cm) ← s.manager.verifyClusterCommit S (asAudit S msg) clusterCommitId s.registry
  return { s with registry := reg, manager := cm }

/-- The loop that writes each root to its chain. -/
def setRoots (number : Nat) (entries : List (ChainId × Bytes32)) (a : AuditContractV2) :
    Except Revert AuditContractV2 :=
  entries.foldlM (fun a entry => do
    require ((a.chains entry.1).isActive = true) "Chain not registered"
    return setRoot number entry.1 entry.2 a) a

/-- The older form: it also writes the given roots. -/
def acceptClusterCommitLegacy (msg : Msg) (clusterCommitId : Bytes32) (chainIds : List ChainId)
    (newRoots : List Bytes32) (s : System) : Except Revert System := do
  require (s.audit.auditors msg.sender = true) "Not auditor"
  require (chainIds.length = newRoots.length) "Length mismatch"
  require (chainIds.length > 0) "Empty cluster commit"
  let cc := s.manager.clusterCommits clusterCommitId
  require (cc.clusterHead ≠ 0) "Invalid cluster commit"
  require (cc.isVerified = false) "Already verified"
  let clusterChainIds := (s.manager.clusters cc.clusterId).assignedChainIds
  require (chainIds.length = clusterChainIds.length) "Chain count mismatch"
  require (∀ x ∈ chainIds, x ∈ clusterChainIds) "Chain not in cluster"
  require (ClusterManager.merkleRoot newRoots = cc.aggregatedRoot) "Aggregated root mismatch"
  let audit ← setRoots msg.number (chainIds.zip newRoots) s.audit
  let (reg, cm) ← s.manager.verifyClusterCommit S (asAudit S msg) clusterCommitId s.registry
  return ⟨reg, cm, audit⟩

/-! ## §7. Calls. -/

/-- The state-changing external functions with their arguments. -/
inductive Call where
  | registerChain (chainId : ChainId) (initialRoot : Bytes32)
  | stake (value : Nat)
  | addAuditor (auditor : Address)
  | submitCommit (range : BlockRange) (oldRoot newRoot : Bytes32)
  | weightedAuditAccept (groupId : Bytes32) (chainId : ChainId) (proof : Proof)
  | verifyCommit (commitId : Bytes32) (proof : Proof) (accepts : Bool)
  | acceptClusterCommit (clusterCommitId clusterCommitment : Bytes32) (clusterId round : Nat)
  | acceptClusterCommitLegacy (clusterCommitId : Bytes32) (chainIds : List ChainId)
      (newRoots : List Bytes32)
  | enableMockVerifier
  | setVerifyingKey (alpha : G1Point) (beta gamma delta : G2Point) (ic : List (List Nat))
  | deposit (value : Nat)
  deriving DecidableEq, Repr

/-- A call that touches the audit contract's own storage only. -/
def onAudit (f : AuditContractV2 → Except Revert AuditContractV2) (s : System) :
    Except Revert System :=
  (f s.audit).map (fun audit => { s with audit := audit })

/-- Dispatch of a call to the audit contract. -/
def exec (msg : Msg) (call : Call) (s : System) : Except Revert System :=
  match call with
  | .registerChain chainId initialRoot => onAudit (registerChain msg chainId initialRoot) s
  | .stake value => onAudit (stake msg value) s
  | .addAuditor auditor => onAudit (addAuditor msg auditor) s
  | .submitCommit range oldRoot newRoot => submitCommit msg range oldRoot newRoot s
  | .weightedAuditAccept groupId chainId proof =>
    weightedAuditAccept pairing S msg groupId chainId proof s
  | .verifyCommit commitId proof accepts => verifyCommit pairing S msg commitId proof accepts s
  | .acceptClusterCommit clusterCommitId clusterCommitment clusterId round =>
    acceptClusterCommit S msg clusterCommitId clusterCommitment clusterId round s
  | .acceptClusterCommitLegacy clusterCommitId chainIds newRoots =>
    acceptClusterCommitLegacy S msg clusterCommitId chainIds newRoots s
  | .enableMockVerifier => onAudit (enableMockVerifier msg) s
  | .setVerifyingKey alpha beta gamma delta ic =>
    onAudit (setVerifyingKey msg alpha beta gamma delta ic) s
  | .deposit value => onAudit (deposit value) s

end AuditContractV2

/-! ## §8. The audit chain. -/

/-- Who ran the constructors. -/
structure Deployers where
  registry : Address
  manager : Address
  audit : Address

/-- One account ran all three. -/
def Deployers.all (a : Address) : Deployers := ⟨a, a, a⟩

namespace System

/-- The constructors. -/
def deploy (deployers : Deployers) : System where
  registry := ReputationRegistry.deploy deployers.registry
  manager := ClusterManager.deploy deployers.manager
  audit := AuditContractV2.deploy deployers.audit

/-- A transaction to one of the three contracts. -/
inductive Tx where
  | registry (tx : ReputationRegistry.Tx)
  | manager (ctx : Ctx) (call : ClusterManager.Call)
  | audit (msg : Msg) (call : AuditContractV2.Call)
  deriving DecidableEq, Repr

/-- The account that signs it. -/
def Tx.sender : Tx → Address
  | .registry tx => tx.msg.sender
  | .manager ctx _ => ctx.msg.sender
  | .audit msg _ => msg.sender

/-- An address that can send a transaction: not the zero address, not one of the two
contracts, which call only from within their functions. -/
def External (S : Setting) (a : Address) : Prop :=
  a ≠ 0 ∧ a ≠ S.clusterManager ∧ a ≠ S.auditContract

instance (S : Setting) (a : Address) : Decidable (External S a) :=
  inferInstanceAs (Decidable (_ ∧ _ ∧ _))

variable (pairing : PairingCheck) (S : Setting)

/-- The called contract's function. -/
def dispatch (tx : Tx) (s : System) : Except Revert System :=
  match tx with
  | .registry tx => (ReputationRegistry.exec tx s.registry).map (fun reg => { s with registry := reg })
  | .manager ctx call =>
    (ClusterManager.exec S ctx call s.registry s.manager).map
      (fun p => { s with registry := p.1, manager := p.2 })
  | .audit msg call => AuditContractV2.exec pairing S msg call s

/-- A transaction, from an external account only. -/
def exec (tx : Tx) (s : System) : Except Revert System := do
  require (External S tx.sender) "not an external account"
  dispatch pairing S tx s

end System

end HZKA
