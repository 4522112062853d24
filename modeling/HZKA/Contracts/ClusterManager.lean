/-
  HZKA.Contracts.ClusterManager
  ────────────
  **THE CLUSTER MANAGER** (`ClusterManager.sol`) over the reputation registry: cluster
  set-up, weighted head election, aggregated commits, cross-reference, reshuffling and
  data-availability challenges.

  Functions that only read the registry return the new manager; those that call
  `updateState` or `advanceRound` return both contracts.  To the registry the caller is
  the manager's own address.

  `Setting.granted` is the set of callers `verifyClusterCommit` admits besides the owner.
  The source admits none (`Setting.asDeployed`); the parameter lets the cluster path be
  studied past that check.

  Two history variables, read by no function: the commits credited to their heads, and
  the chain list of the cluster when a commit was submitted.  Left out: events and the
  views, but for `getComplexityInfo`, which computes.
-/
import HZKA.Contracts.ReputationRegistry
import HZKA.Lib.LayeredRoot
import HZKA.Lib.Shuffle

namespace HZKA

open Function
open HZKA.Lib HZKA.EVM

/-! ## §1. Context and storage. -/

/-- A call with the hash of the previous block. -/
structure Ctx where
  msg : Msg
  parentHash : Bytes32
  deriving DecidableEq, Repr

/-- `blockhash(block.number - 1)`. -/
def Ctx.previousBlockhash (ctx : Ctx) : Except Revert Bytes32 := do
  let _ ← subU256 ctx.msg.number 1
  return ctx.parentHash

/-- The addresses of the two contracts, and the callers `verifyClusterCommit` admits
besides the owner. -/
structure Setting where
  clusterManager : Address
  auditContract : Address
  granted : Address → Bool

/-- The source admits the owner only. -/
def Setting.asDeployed (clusterManager auditContract : Address) : Setting :=
  ⟨clusterManager, auditContract, fun _ => false⟩

/-- Chain ids and block numbers are only compared and hashed. -/
abbrev ChainId := BitVec 256

/-- One instance for all membership tests on lists of chains. -/
instance ChainId.lawfulBEq : LawfulBEq ChainId := inferInstance

/-- A cluster. -/
structure Cluster where
  clusterId : Nat
  clusterHead : Address
  members : List Address
  assignedChainIds : List ChainId
  lastElectionRound : Nat
  totalProofsAggregated : Nat
  isActive : Bool
  deriving DecidableEq, Repr

/-- An unset cluster. -/
def Cluster.zero : Cluster := ⟨0, 0, [], [], 0, 0, false⟩

/-- The commit of a cluster's head. -/
structure ClusterCommit where
  clusterId : Nat
  clusterHead : Address
  chainRoots : List Bytes32
  aggregatedRoot : Bytes32
  round : Nat
  isVerified : Bool
  timestamp : Nat
  deriving DecidableEq, Repr

/-- An unset cluster commit. -/
def ClusterCommit.zero : ClusterCommit := ⟨0, 0, [], 0, 0, false, 0⟩

/-- A challenge that a chain's data is missing. -/
structure DataAvailabilityChallenge where
  challenger : Address
  clusterId : Nat
  missingChainId : ChainId
  round : Nat
  filedAt : Nat
  resolved : Bool
  valid : Bool
  deriving DecidableEq, Repr

/-- An unset challenge. -/
def DataAvailabilityChallenge.zero : DataAvailabilityChallenge := ⟨0, 0, 0, 0, 0, false, false⟩

/-- The storage. -/
structure ClusterManager where
  clusters : Nat → Cluster
  clusterIds : List Nat
  nextClusterId : Nat
  clusterCommits : Bytes32 → ClusterCommit
  commitHistory : List Bytes32
  chainToCluster : ChainId → Nat
  currentRound : Nat
  owner : Address
  currentEpoch : Nat
  challenges : Bytes32 → DataAvailabilityChallenge
  challengeIds : List Bytes32
  chainSubmittedInRound : Nat → ChainId → Bool
  /-- history: the commits credited by `verifyClusterCommit` -/
  credits : List Bytes32
  /-- history: the chain list of the cluster at submission -/
  submittedChains : Bytes32 → List ChainId

namespace ClusterManager

/-- Rounds to an epoch. -/
def EPOCH_LENGTH : Nat := 100
/-- Rounds in which a commit can be challenged. -/
def CHALLENGE_WINDOW : Nat := 10

/-- The constructor. -/
def deploy (deployer : Address) : ClusterManager where
  clusters := fun _ => Cluster.zero
  clusterIds := []
  nextClusterId := 1
  clusterCommits := fun _ => ClusterCommit.zero
  commitHistory := []
  chainToCluster := fun _ => 0
  currentRound := 1
  owner := deployer
  currentEpoch := 0
  challenges := fun _ => DataAvailabilityChallenge.zero
  challengeIds := []
  chainSubmittedInRound := fun _ _ => false
  credits := []
  submittedChains := fun _ => []

/-! ## §2. Election. -/

/-- The loop that adds up the members' election weights. -/
def totalWeight (members : List Address) (reg : ReputationRegistry) : Except Revert Nat :=
  members.foldlM (fun totalWeight m => do
    let w ← reg.getElectionWeight m
    addU256 totalWeight w) 0

/-- The walk over the cumulative weights; `winner` is the default. -/
def walk (reg : ReputationRegistry) (rand : Nat) (winner : Address) :
    List Address → Nat → Except Revert Address
  | [], _ => .ok winner
  | m :: rest, cumulative => do
    let w ← reg.getElectionWeight m
    let cumulative ← addU256 cumulative w
    if rand < cumulative then return m else walk reg rand winner rest cumulative

/-- The writes of an election. -/
def setHead (clusterId : Nat) (head : Address) (cm : ClusterManager) : ClusterManager :=
  { cm with
    clusters := update cm.clusters clusterId
      { cm.clusters clusterId with
        clusterHead := head
        lastElectionRound := cm.currentRound } }

/-- The winner among the members of a cluster. -/
def drawHead (ctx : Ctx) (clusterId : Nat) (reg : ReputationRegistry) (cm : ClusterManager) :
    Except Revert Address := do
  let members := (cm.clusters clusterId).members
  require (members.length > 0) "No members"
  let total ← totalWeight members reg
  if total = 0 then
    return members.headD 0
  else
    let parent ← ctx.previousBlockhash
    let seed := keccak256 (abiEncode [.bytes32 parent, .uint256 clusterId,
      .uint256 cm.currentRound])
    walk reg (seed.toNat % total) (members.headD 0) members 0

/-- `_electClusterHead`. -/
def electHead (ctx : Ctx) (clusterId : Nat) (reg : ReputationRegistry) (cm : ClusterManager) :
    Except Revert ClusterManager := do
  let head ← drawHead ctx clusterId reg cm
  return setHead clusterId head cm

/-- A head by weight, from the block hash as seed. -/
def electClusterHead (ctx : Ctx) (clusterId : Nat) (reg : ReputationRegistry)
    (cm : ClusterManager) : Except Revert ClusterManager := do
  require ((cm.clusters clusterId).isActive = true) "Cluster not active"
  let earliest ← addU256 (cm.clusters clusterId).lastElectionRound 10
  require (cm.currentRound ≥ earliest) "Too soon for re-election"
  electHead ctx clusterId reg cm

/-! ## §3. Cluster set-up. -/

/-- The loop `chainToCluster[chainIds[i]] = cid`. -/
def mapChains (cid : Nat) (chainIds : List ChainId) (chainToCluster : ChainId → Nat) :
    ChainId → Nat :=
  chainIds.foldl (fun f x => update f x cid) chainToCluster

/-- The writes of `createCluster` before its election. -/
def addCluster (chainIds : List ChainId) (members : List Address) (cm : ClusterManager) :
    ClusterManager :=
  let cid := cm.nextClusterId
  { cm with
    nextClusterId := cid + 1
    clusters := update cm.clusters cid
      { cm.clusters cid with
        clusterId := cid
        assignedChainIds := chainIds
        isActive := true
        members := (cm.clusters cid).members ++ members }
    chainToCluster := mapChains cid chainIds cm.chainToCluster
    clusterIds := cm.clusterIds ++ [cid] }

/-- The owner founds a cluster. -/
def createCluster (ctx : Ctx) (chainIds : List ChainId) (members : List Address)
    (reg : ReputationRegistry) (cm : ClusterManager) : Except Revert ClusterManager := do
  require (ctx.msg.sender = cm.owner) "Not owner"
  require (chainIds.length > 0) "No chains"
  require (members.length > 0) "No members"
  let _ ← addU256 cm.nextClusterId 1
  electHead ctx cm.nextClusterId reg (addCluster chainIds members cm)

/-- The owner adds a member. -/
def addMember (ctx : Ctx) (clusterId : Nat) (member : Address) (reg : ReputationRegistry)
    (cm : ClusterManager) : Except Revert ClusterManager := do
  require (ctx.msg.sender = cm.owner) "Not owner"
  require (reg.isCommitterRegistered member = true) "Not a registered committer"
  return { cm with
    clusters := update cm.clusters clusterId
      { cm.clusters clusterId with members := (cm.clusters clusterId).members ++ [member] } }

/-! ## §4. Cluster commits. -/

/-- `keccak256(abi.encode(l, r))`, the node of two children. -/
def pairHash (l r : Bytes32) : Bytes32 := keccak256 (abiEncode [.bytes32 l, .bytes32 r])

/-- `_merkleRoot`. -/
def merkleRoot (leaves : List Bytes32) : Bytes32 := layerRoot pairHash 0 leaves

/-- The id of a cluster commit. -/
def commitKey (clusterId : Nat) (aggRoot : Bytes32) (round timestamp : Nat) : Bytes32 :=
  keccak256 (abiEncode [.uint256 clusterId, .bytes32 aggRoot, .uint256 round, .uint256 timestamp])

/-- `_markChainsSubmitted`. -/
def markChainsSubmitted (chainIds : List ChainId) (round : Nat)
    (submitted : Nat → ChainId → Bool) : Nat → ChainId → Bool :=
  chainIds.foldl (fun f x => update f round (update (f round) x true)) submitted

/-- The record `submitClusterCommit` writes. -/
def newClusterCommit (ctx : Ctx) (clusterId : Nat) (chainRoots : List Bytes32)
    (cm : ClusterManager) : ClusterCommit where
  clusterId := clusterId
  clusterHead := ctx.msg.sender
  chainRoots := chainRoots
  aggregatedRoot := merkleRoot chainRoots
  round := cm.currentRound
  isVerified := false
  timestamp := ctx.msg.timestamp

/-- The id it is stored under. -/
def newCommitKey (ctx : Ctx) (clusterId : Nat) (chainRoots : List Bytes32)
    (cm : ClusterManager) : Bytes32 :=
  commitKey clusterId (merkleRoot chainRoots) cm.currentRound ctx.msg.timestamp

/-- The head files the roots of the cluster's chains. -/
def submitClusterCommit (ctx : Ctx) (clusterId : Nat) (chainRoots : List Bytes32)
    (cm : ClusterManager) : Except Revert ClusterManager := do
  let c := cm.clusters clusterId
  require (c.isActive = true) "Cluster not active"
  require (ctx.msg.sender = c.clusterHead) "Not cluster head"
  require (chainRoots.length = c.assignedChainIds.length) "Root count mismatch"
  let commitId := newCommitKey ctx clusterId chainRoots cm
  let aggregated ← addU256 c.totalProofsAggregated 1
  return { cm with
    clusterCommits := update cm.clusterCommits commitId
      (newClusterCommit ctx clusterId chainRoots cm)
    commitHistory := cm.commitHistory ++ [commitId]
    clusters := update cm.clusters clusterId { c with totalProofsAggregated := aggregated }
    chainSubmittedInRound :=
      markChainsSubmitted c.assignedChainIds cm.currentRound cm.chainSubmittedInRound
    submittedChains := update cm.submittedChains commitId c.assignedChainIds }

variable (S : Setting)

/-- The registry sees the manager as the caller. -/
def asManager (msg : Msg) : Msg := { msg with sender := S.clusterManager }

/-- Who may call `verifyClusterCommit`. -/
def mayVerify (sender : Address) (cm : ClusterManager) : Prop :=
  sender = cm.owner ∨ S.granted sender = true

instance (sender : Address) (cm : ClusterManager) : Decidable (mayVerify S sender cm) :=
  inferInstanceAs (Decidable (_ ∨ _))

/-- The writes of `verifyClusterCommit`. -/
def markVerified (commitId : Bytes32) (cm : ClusterManager) : ClusterManager :=
  { cm with
    clusterCommits := update cm.clusterCommits commitId
      { cm.clusterCommits commitId with isVerified := true }
    credits := commitId :: cm.credits }

/-- Owner or granted account verifies a commit; its head is reported valid. -/
def verifyClusterCommit (msg : Msg) (commitId : Bytes32) (reg : ReputationRegistry)
    (cm : ClusterManager) : Except Revert (ReputationRegistry × ClusterManager) := do
  require (mayVerify S msg.sender cm) "Not authorized"
  let cc := cm.clusterCommits commitId
  require (cc.isVerified = false) "Already verified"
  let reg ← reg.updateState (asManager S msg) cc.clusterHead .VALID cc.aggregatedRoot
  return (reg, markVerified commitId cm)

/-! ## §5. Cross-reference. -/

/-- `_majorityRoot`: the root with the highest count, the first of several. -/
def majorityRoot (roots : List Bytes32) : Bytes32 :=
  (roots.foldl (fun (best : Bytes32 × Nat) root =>
    let count := roots.count root
    if count > best.2 then (root, count) else best) (0, 0)).1

/-- The event one entry receives. -/
def crossReferenceEvent (expectedRoot submittedRoot : Bytes32) (alive : Bool) : EventType :=
  if alive = false then .MISSING
  else if submittedRoot = expectedRoot then .VALID
  else .INVALID

/-- Owner or head of the cluster of chain 0 reports on committers, by the majority root. -/
def crossReferenceAndUpdate (ctx : Ctx) (committerAddrs : List Address)
    (submittedRoots : List Bytes32) (aliveFlags : List Bool) (reg : ReputationRegistry)
    (cm : ClusterManager) : Except Revert ReputationRegistry := do
  require (ctx.msg.sender = cm.owner
    ∨ (cm.clusters (cm.chainToCluster 0)).clusterHead = ctx.msg.sender) "Not authorized"
  require (committerAddrs.length = submittedRoots.length) "Length mismatch"
  require (committerAddrs.length = aliveFlags.length) "Length mismatch"
  let expectedRoot := majorityRoot submittedRoots
  (committerAddrs.zip (submittedRoots.zip aliveFlags)).foldlM (fun reg entry =>
    reg.updateState (asManager S ctx.msg) entry.1
      (crossReferenceEvent expectedRoot entry.2.1 entry.2.2) entry.2.1) reg

/-! ## §6. Reshuffling. -/

/-- The loop `delete clusters[clusterIds[i]].assignedChainIds`. -/
def clearAssignments (cm : ClusterManager) : ClusterManager :=
  { cm with
    clusters := cm.clusterIds.foldl (fun clusters cid =>
      update clusters cid { clusters cid with assignedChainIds := [] }) cm.clusters }

/-- One chain pushed to a cluster. -/
def assignChain (cid : Nat) (chainId : ChainId) (cm : ClusterManager) : ClusterManager :=
  { cm with
    clusters := update cm.clusters cid
      { cm.clusters cid with assignedChainIds := (cm.clusters cid).assignedChainIds ++ [chainId] }
    chainToCluster := update cm.chainToCluster chainId cid }

/-- The cluster position `i` of the shuffled list goes to. -/
def roundRobin (clusterIds : List Nat) (i : Nat) : Nat :=
  clusterIds.getD (i % clusterIds.length) 0

/-- The assignment loop, from position `i` on. -/
def deal (clusterIds : List Nat) : Nat → List ChainId → ClusterManager → ClusterManager
  | _, [], cm => cm
  | i, chainId :: rest, cm =>
    deal clusterIds (i + 1) rest (assignChain (roundRobin clusterIds i) chainId cm)

/-- The election of all clusters. -/
def electAll (ctx : Ctx) (clusterIds : List Nat) (reg : ReputationRegistry)
    (cm : ClusterManager) : Except Revert ClusterManager :=
  clusterIds.foldlM (fun cm cid => electHead ctx cid reg cm) cm

/-- The draw for position `i`. -/
def shuffleDraw (hash : List Byte → Bytes32) (vrfSeed : Bytes32) (i : Nat) : Nat :=
  (hash (abiEncode [.bytes32 vrfSeed, .uint256 i])).toNat

/-- `reshuffleClusters` over any hash for seed and draws. -/
def reshuffleWith (hash : List Byte → Bytes32) (ctx : Ctx) (allChainIds : List ChainId)
    (reg : ReputationRegistry) (cm : ClusterManager) : Except Revert ClusterManager := do
  require (ctx.msg.sender = cm.owner) "Not owner"
  let next ← addU256 cm.currentEpoch 1
  let epochEnd ← mulU256 next EPOCH_LENGTH
  require (cm.currentRound ≥ epochEnd) "Epoch not ended"
  require (allChainIds.length > 0) "No chains"
  let parent ← ctx.previousBlockhash
  let vrfSeed := hash (abiEncode [.bytes32 parent, .uint256 cm.currentEpoch,
    .uint256 ctx.msg.timestamp])
  let shuffled := shuffle (shuffleDraw hash vrfSeed) allChainIds
  require (cm.clusterIds.length > 0) "No clusters exist"
  let dealt := deal cm.clusterIds 0 shuffled (clearAssignments cm)
  electAll ctx cm.clusterIds reg { dealt with currentEpoch := next }

/-- The contract's hash is `keccak256`. -/
def reshuffleClusters (ctx : Ctx) (allChainIds : List ChainId) (reg : ReputationRegistry)
    (cm : ClusterManager) : Except Revert ClusterManager :=
  reshuffleWith keccak256 ctx allChainIds reg cm

/-! ## §7. Data-availability challenges. -/

/-- The id of a challenge. -/
def challengeKey (clusterId : Nat) (missingChainId : ChainId) (round : Nat)
    (challenger : Address) : Bytes32 :=
  keccak256 (abiEncode [.uint256 clusterId, .bytes32 missingChainId, .uint256 round,
    .address challenger])

/-- Anyone challenges that a chain of a cluster was left out of a round. -/
def fileDAChallenge (ctx : Ctx) (clusterId : Nat) (missingChainId : ChainId) (round : Nat)
    (cm : ClusterManager) : Except Revert ClusterManager := do
  let lastRound ← addU256 round CHALLENGE_WINDOW
  require (cm.currentRound ≤ lastRound) "Challenge window expired"
  require ((cm.clusters clusterId).isActive = true) "Cluster not active"
  require (missingChainId ∈ (cm.clusters clusterId).assignedChainIds) "Chain not in this cluster"
  require (cm.chainSubmittedInRound round missingChainId = false) "Chain was submitted"
  let challengeId := challengeKey clusterId missingChainId round ctx.msg.sender
  require ((cm.challenges challengeId).resolved = false) "Challenge exists"
  return { cm with
    challenges := update cm.challenges challengeId
      { challenger := ctx.msg.sender
        clusterId := clusterId
        missingChainId := missingChainId
        round := round
        filedAt := cm.currentRound
        resolved := false
        valid := false }
    challengeIds := cm.challengeIds ++ [challengeId] }

/-- The writes of `resolveDAChallenge` before the penalty. -/
def markResolved (challengeId : Bytes32) (valid : Bool) (cm : ClusterManager) : ClusterManager :=
  { cm with
    challenges := update cm.challenges challengeId
      { cm.challenges challengeId with resolved := true, valid := valid } }

/-- The owner decides a challenge; if valid, the head is faulted and a head elected. -/
def resolveDAChallenge (ctx : Ctx) (challengeId : Bytes32) (valid : Bool)
    (reg : ReputationRegistry) (cm : ClusterManager) :
    Except Revert (ReputationRegistry × ClusterManager) := do
  require (ctx.msg.sender = cm.owner) "Not owner"
  let c := cm.challenges challengeId
  require (c.resolved = false) "Already resolved"
  let cm := markResolved challengeId valid cm
  if valid then
    -- the penalty goes to whoever is head now
    let head := (cm.clusters c.clusterId).clusterHead
    let reg ← reg.updateState (asManager S ctx.msg) head .INVALID challengeId
    let cm ← electHead ctx c.clusterId reg cm
    return (reg, cm)
  else
    return (reg, cm)

/-- The owner starts the next round, also of the registry. -/
def advanceRound (ctx : Ctx) (reg : ReputationRegistry) (cm : ClusterManager) :
    Except Revert (ReputationRegistry × ClusterManager) := do
  require (ctx.msg.sender = cm.owner) "Not owner"
  let next ← addU256 cm.currentRound 1
  let reg ← reg.advanceRound (asManager S ctx.msg)
  return (reg, { cm with currentRound := next })

/-! ## §8. Complexity. -/

/-- The loop of `_sqrt`; `y` decreases. -/
def sqrtLoop (x y z : Nat) : Except Revert Nat :=
  if _h : z < y then do
    let quotient ← divU256 x z
    let sum ← addU256 quotient z
    sqrtLoop x z (sum / 2)
  else
    .ok y
termination_by y

/-- `_sqrt`. -/
def sqrt (x : Nat) : Except Revert Nat :=
  if x = 0 then
    .ok 0
  else do
    let sum ← addU256 x 1
    sqrtLoop x x (sum / 2)

/-- Cluster count, proofs per auditor and reduction. -/
def getComplexityInfo (totalChains : Nat) : Except Revert (Nat × Nat × Nat) := do
  let clusterCount ← sqrt totalChains
  let proofPerAuditor := clusterCount
  let reduction ← divU256 totalChains (if clusterCount = 0 then 1 else clusterCount)
  return (clusterCount, proofPerAuditor, reduction)

/-! ## §9. Calls. -/

/-- The state-changing external functions with their arguments. -/
inductive Call where
  | createCluster (chainIds : List ChainId) (members : List Address)
  | addMember (clusterId : Nat) (member : Address)
  | electClusterHead (clusterId : Nat)
  | submitClusterCommit (clusterId : Nat) (chainRoots : List Bytes32)
  | verifyClusterCommit (commitId : Bytes32)
  | crossReferenceAndUpdate (committerAddrs : List Address) (submittedRoots : List Bytes32)
      (aliveFlags : List Bool)
  | reshuffleClusters (allChainIds : List ChainId)
  | fileDAChallenge (clusterId : Nat) (missingChainId : ChainId) (round : Nat)
  | resolveDAChallenge (challengeId : Bytes32) (valid : Bool)
  | advanceRound
  deriving DecidableEq, Repr

/-- Dispatch of a call. -/
def exec (ctx : Ctx) (call : Call) (reg : ReputationRegistry) (cm : ClusterManager) :
    Except Revert (ReputationRegistry × ClusterManager) :=
  match call with
  | .createCluster chainIds members =>
    (createCluster ctx chainIds members reg cm).map (reg, ·)
  | .addMember clusterId member => (addMember ctx clusterId member reg cm).map (reg, ·)
  | .electClusterHead clusterId => (electClusterHead ctx clusterId reg cm).map (reg, ·)
  | .submitClusterCommit clusterId chainRoots =>
    (submitClusterCommit ctx clusterId chainRoots cm).map (reg, ·)
  | .verifyClusterCommit commitId => verifyClusterCommit S ctx.msg commitId reg cm
  | .crossReferenceAndUpdate committerAddrs submittedRoots aliveFlags =>
    (crossReferenceAndUpdate S ctx committerAddrs submittedRoots aliveFlags reg cm).map (·, cm)
  | .reshuffleClusters allChainIds => (reshuffleClusters ctx allChainIds reg cm).map (reg, ·)
  | .fileDAChallenge clusterId missingChainId round =>
    (fileDAChallenge ctx clusterId missingChainId round cm).map (reg, ·)
  | .resolveDAChallenge challengeId valid => resolveDAChallenge S ctx challengeId valid reg cm
  | .advanceRound => advanceRound S ctx reg cm

end ClusterManager

end HZKA
