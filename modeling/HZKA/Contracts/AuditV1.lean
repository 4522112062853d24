/-
  HZKA.Contracts.AuditV1
  ────────────
  **THE FIRST AUDIT CONTRACT OF PROTOCOL Ψ** (`AuditContract.sol`): chains and auditors,
  staked committers, commits with their verification and their slashing, rewards, and the
  tree of aggregating nodes.

  `slashCommitter` and `claimRewards` hand ether to the caller's code, so a run is a list
  of moves of `HZKA.Lib.Reentrancy`; each of the two has made its writes by then.

    • `CanSlash`, `CanSubmit`, `CanVerify`, `CanClaim`, `CanCreate`, `CanAggregate` — the guards,
      with one `_eq_ok` lemma each that also gives the state the call leaves;
    • `exec_effect` — every call at once.

  Two history variables, read by no function: the audits accepted and the commits slashed.
  Left out: events, views, `minAuditors` (never read) and the proof handed to
  `submitCommit` (neither checked nor stored).
-/
import HZKA.Contracts.Groth16Verifier
import HZKA.EVM.Abi
import HZKA.Lib.Reentrancy
import Mathlib.Logic.Function.Basic

namespace HZKA.AuditV1

open Function
open HZKA.Lib HZKA.EVM HZKA.Groth16Verifier

/-! ## §1. Storage. -/

/-- Chain identifiers (`uint256`). -/
abbrev ChainId := BitVec 256

/-- What the contract stores of a registered chain. -/
structure ChainInfo where
  chainId : ChainId
  latestStateRoot : Bytes32
  lastUpdateBlock : Nat
  totalCommits : Nat
  isActive : Bool
  deriving DecidableEq, Repr

/-- An unset chain. -/
def ChainInfo.zero : ChainInfo := ⟨0, 0, 0, 0, false⟩

/-- A submitted state transition. -/
structure CommitRecord where
  committer : Address
  chainId : ChainId
  oldStateRoot : Bytes32
  newStateRoot : Bytes32
  timestamp : Nat
  isVerified : Bool
  deriving DecidableEq, Repr

/-- An unset commit. -/
def CommitRecord.zero : CommitRecord := ⟨0, 0, 0, 0, 0, false⟩

/-- A committer with its chains and rewards. -/
structure CommitterInfo where
  addr : Address
  chainIds : List ChainId
  totalCommits : Nat
  rewards : Nat
  isRegistered : Bool
  deriving DecidableEq, Repr

/-- An unset committer. -/
def CommitterInfo.zero : CommitterInfo := ⟨0, [], 0, 0, false⟩

/-- A node of the aggregation tree. -/
structure TreeNode where
  nodeId : Nat
  parentNodeId : Nat
  childChainIds : List ChainId
  childNodeIds : List Nat
  aggregatedRoot : Bytes32
  assignedCommitter : Address
  isActive : Bool
  deriving DecidableEq, Repr

/-- An unset node. -/
def TreeNode.zero : TreeNode := ⟨0, 0, [], [], 0, 0, false⟩

/-- An accepted `verifyCommit`: the commit, its roots, and the proof with the key that
accepted it. -/
structure Audit where
  commitId : Bytes32
  chainId : ChainId
  oldRoot : Bytes32
  newRoot : Bytes32
  vk : VerifyingKey
  proof : Proof
  deriving DecidableEq, Repr

/-- The storage, with the ether balance. -/
structure AuditContract where
  vk_psi : VerifyingKey
  chains : ChainId → ChainInfo
  chainList : List ChainId
  commits : Bytes32 → CommitRecord
  commitIds : List Bytes32
  committers : Address → CommitterInfo
  committerList : List Address
  chainStateHistory : ChainId → List Bytes32
  rewardPerCommit : Nat
  committerStakes : Address → Nat
  owner : Address
  auditors : Address → Bool
  auditorCount : Nat
  treeNodes : Nat → TreeNode
  nodeList : List Nat
  nextNodeId : Nat
  /-- `address(this).balance` -/
  balance : Nat
  /-- history: the audits accepted, latest first -/
  audits : List Audit
  /-- history: the commits slashed, latest first -/
  slashes : List Bytes32

/-- The stake that registers a committer. -/
@[irreducible] def MIN_COMMITTER_STAKE : Nat := ether
/-- What a slash takes. -/
@[irreducible] def SLASH_AMOUNT : Nat := ether / 2

/-- The constructor. -/
def deploy (deployer : Address) : AuditContract where
  vk_psi := ⟨⟨0, 0⟩, ⟨(0, 0), (0, 0)⟩, ⟨(0, 0), (0, 0)⟩, ⟨(0, 0), (0, 0)⟩, []⟩
  chains := fun _ => ChainInfo.zero
  chainList := []
  commits := fun _ => CommitRecord.zero
  commitIds := []
  committers := fun _ => CommitterInfo.zero
  committerList := []
  chainStateHistory := fun _ => []
  rewardPerCommit := 1000000000000000
  committerStakes := fun _ => 0
  owner := deployer
  auditors := update (fun _ => false) deployer true
  auditorCount := 1
  treeNodes := fun _ => TreeNode.zero
  nodeList := []
  nextNodeId := 1
  balance := 0
  audits := []
  slashes := []

/-! ## §2. Administration and registration. -/

/-- The owner sets the verifying key. -/
def setVerifyingKey (msg : Msg) (alpha : G1Point) (beta gamma delta : G2Point)
    (ic : List G1Point) (c : AuditContract) : Except Revert AuditContract := do
  require (msg.sender = c.owner) "Only owner"
  return { c with vk_psi := ⟨alpha, beta, gamma, delta, ic⟩ }

/-- The owner adds a chain with its first root. -/
def registerChain (msg : Msg) (chainId : ChainId) (initialRoot : Bytes32) (c : AuditContract) :
    Except Revert AuditContract := do
  require (msg.sender = c.owner) "Only owner"
  require ((c.chains chainId).isActive = false) "Chain already registered"
  return { c with
    chains := update c.chains chainId ⟨chainId, initialRoot, msg.number, 0, true⟩
    chainList := c.chainList ++ [chainId]
    chainStateHistory := update c.chainStateHistory chainId
      (c.chainStateHistory chainId ++ [initialRoot]) }

/-- The owner adds an auditor. -/
def registerAuditor (msg : Msg) (auditor : Address) (c : AuditContract) :
    Except Revert AuditContract := do
  require (msg.sender = c.owner) "Only owner"
  require (c.auditors auditor = false) "Already registered"
  let count ← addU256 c.auditorCount 1
  return { c with
    auditors := update c.auditors auditor true
    auditorCount := count }

/-- A committer registers for chains, with its stake. -/
def registerCommitter (msg : Msg) (value : Nat) (chainIds : List ChainId) (c : AuditContract) :
    Except Revert AuditContract := do
  require ((c.committers msg.sender).isRegistered = false) "Already registered"
  require (value ≥ MIN_COMMITTER_STAKE) "Insufficient stake"
  require (∀ chainId ∈ chainIds, (c.chains chainId).isActive = true) "Chain not registered"
  return { c with
    committers := update c.committers msg.sender ⟨msg.sender, chainIds, 0, 0, true⟩
    committerStakes := update c.committerStakes msg.sender value
    committerList := c.committerList ++ [msg.sender]
    balance := c.balance + value }

/-! ## §3. Commits. -/

/-- The value handed to the caller's code by `payable(msg.sender).call`. -/
def send (amount : Nat) (failure : String) (c : AuditContract) : Except Revert AuditContract := do
  require (amount ≤ c.balance) failure
  return { c with balance := c.balance - amount }

/-- An auditor slashes the committer of an unverified commit. -/
def slashCommitter (msg : Msg) (commitId : Bytes32) (c : AuditContract) :
    Except Revert AuditContract := do
  require (c.auditors msg.sender = true) "Not an auditor"
  let record := c.commits commitId
  require (record.timestamp > 0) "Commit not found"
  require (record.isVerified = false) "Already verified as valid"
  require (c.committerStakes record.committer ≥ SLASH_AMOUNT) "Insufficient stake to slash"
  send SLASH_AMOUNT "Slash transfer failed" { c with
    committerStakes := update c.committerStakes record.committer
      (c.committerStakes record.committer - SLASH_AMOUNT)
    slashes := commitId :: c.slashes }

/-- The id of a commit. -/
def commitKey (msg : Msg) (chainId : ChainId) (oldStateRoot newStateRoot : Bytes32) : Bytes32 :=
  keccak256 (abiEncodePacked [.address msg.sender, .uint256 chainId.toNat, .bytes32 oldStateRoot,
    .bytes32 newStateRoot, .uint256 msg.number])

/-- A committer files a transition of a chain from its latest root. -/
def submitCommit (msg : Msg) (chainId : ChainId) (oldStateRoot newStateRoot : Bytes32)
    (c : AuditContract) : Except Revert AuditContract := do
  require ((c.committers msg.sender).isRegistered = true) "Not a registered committer"
  require ((c.chains chainId).isActive = true) "Chain not active"
  require ((c.chains chainId).latestStateRoot = oldStateRoot)
    "Old root mismatch - must chain from latest verified root"
  let commitId := commitKey msg chainId oldStateRoot newStateRoot
  require ((c.commits commitId).timestamp = 0) "Commit ID collision"
  return { c with
    commits := update c.commits commitId
      { committer := msg.sender
        chainId := chainId
        oldStateRoot := oldStateRoot
        newStateRoot := newStateRoot
        timestamp := msg.timestamp
        isVerified := false }
    commitIds := c.commitIds ++ [commitId] }

/-- A new root of a chain: latest root, update block, commit count, history. -/
def advanceRoot (number : Nat) (chainId : ChainId) (root : Bytes32) (c : AuditContract) :
    Except Revert AuditContract := do
  let totalCommits ← addU256 (c.chains chainId).totalCommits 1
  return { c with
    chains := update c.chains chainId
      { c.chains chainId with
        latestStateRoot := root
        lastUpdateBlock := number
        totalCommits := totalCommits }
    chainStateHistory := update c.chainStateHistory chainId
      (c.chainStateHistory chainId ++ [root]) }

/-- The reward of a committer. -/
def reward (committer : Address) (c : AuditContract) : Except Revert AuditContract := do
  let totalCommits ← addU256 (c.committers committer).totalCommits 1
  let rewards ← addU256 (c.committers committer).rewards c.rewardPerCommit
  return { c with
    committers := update c.committers committer
      { c.committers committer with totalCommits := totalCommits, rewards := rewards } }

/-- The commit marked, its proof kept. -/
def markVerified (commitId : Bytes32) (proof : Proof) (c : AuditContract) : AuditContract :=
  { c with
    commits := update c.commits commitId { c.commits commitId with isVerified := true }
    audits := ⟨commitId, (c.commits commitId).chainId, (c.commits commitId).oldStateRoot,
      (c.commits commitId).newStateRoot, c.vk_psi, proof⟩ :: c.audits }

/-- Public inputs of an audit: the old and the new root. -/
def auditInputs (oldRoot newRoot : Bytes32) : List Nat := [oldRoot.toNat, newRoot.toNat]

variable (pairing : PairingCheck)

/-- An auditor verifies a commit and moves the chain's root. -/
def verifyCommit (msg : Msg) (commitId : Bytes32) (proof : Proof) (c : AuditContract) :
    Except Revert AuditContract := do
  require (c.auditors msg.sender = true) "Not an auditor"
  let record := c.commits commitId
  require (record.timestamp > 0) "Commit not found"
  require (record.isVerified = false) "Already verified"
  let ok ← verify pairing c.vk_psi proof (auditInputs record.oldStateRoot record.newStateRoot)
  require (ok = true) "Audit proof verification failed"
  let c ← advanceRoot msg.number record.chainId record.newStateRoot (markVerified commitId proof c)
  reward record.committer c

/-- A committer withdraws its rewards. -/
def claimRewards (msg : Msg) (c : AuditContract) : Except Revert AuditContract := do
  let committer := c.committers msg.sender
  require (committer.isRegistered = true) "Not a committer"
  require (committer.rewards > 0) "No rewards"
  send committer.rewards "Transfer failed" { c with
    committers := update c.committers msg.sender { committer with rewards := 0 } }

/-! ## §4. The tree of aggregating nodes. -/

/-- A new child of a node. -/
def addChild (parentNodeId nodeId : Nat) (treeNodes : Nat → TreeNode) : Nat → TreeNode :=
  update treeNodes parentNodeId
    { treeNodes parentNodeId with
      childNodeIds := (treeNodes parentNodeId).childNodeIds ++ [nodeId] }

/-- The owner adds a tree node over chains. -/
def createTreeNode (msg : Msg) (parentNodeId : Nat) (childChainIds : List ChainId)
    (committer : Address) (c : AuditContract) : Except Revert AuditContract := do
  require (msg.sender = c.owner) "Only owner"
  require ((c.committers committer).isRegistered = true) "Committer not registered"
  require (∀ chainId ∈ childChainIds, (c.chains chainId).isActive = true)
    "Child chain not registered"
  require (parentNodeId > 0 → (c.treeNodes parentNodeId).isActive = true) "Parent node not found"
  let next ← addU256 c.nextNodeId 1
  let treeNodes := update c.treeNodes c.nextNodeId
    ⟨c.nextNodeId, parentNodeId, childChainIds, [], 0, committer, true⟩
  return { c with
    treeNodes := if parentNodeId > 0 then addChild parentNodeId c.nextNodeId treeNodes
      else treeNodes
    nodeList := c.nodeList ++ [c.nextNodeId]
    nextNodeId := next }

/-- The loop over the child chains. -/
def advanceRoots (number : Nat) (entries : List (ChainId × Bytes32)) (c : AuditContract) :
    Except Revert AuditContract :=
  entries.foldlM (fun c entry => advanceRoot number entry.1 entry.2 c) c

/-- The node with a new aggregated root. -/
def setAggregatedRoot (nodeId : Nat) (root : Bytes32) (c : AuditContract) : AuditContract :=
  { c with
    treeNodes := update c.treeNodes nodeId
      { c.treeNodes nodeId with aggregatedRoot := root } }

/-- The node's committer files an aggregated root with a proof. -/
def submitAggregatedCommit (msg : Msg) (nodeId : Nat) (childRoots : List Bytes32)
    (aggregatedRoot : Bytes32) (proof : Proof) (c : AuditContract) :
    Except Revert AuditContract := do
  let node := c.treeNodes nodeId
  require (node.isActive = true) "Node not active"
  require (node.assignedCommitter = msg.sender) "Not assigned committer"
  require (childRoots.length = node.childChainIds.length + node.childNodeIds.length)
    "Root count mismatch"
  let ok ← verify pairing c.vk_psi proof (auditInputs node.aggregatedRoot aggregatedRoot)
  require (ok = true) "Aggregated proof verification failed"
  let c ← advanceRoots msg.number (node.childChainIds.zip childRoots) c
  reward msg.sender (setAggregatedRoot nodeId aggregatedRoot c)

/-- `receive`. -/
def deposit (value : Nat) (c : AuditContract) : Except Revert AuditContract :=
  .ok { c with balance := c.balance + value }

/-! ## §5. Transactions. -/

/-- The external functions with their arguments. -/
inductive Call where
  | setVerifyingKey (alpha : G1Point) (beta gamma delta : G2Point) (ic : List G1Point)
  | registerChain (chainId : ChainId) (initialRoot : Bytes32)
  | registerAuditor (auditor : Address)
  | registerCommitter (value : Nat) (chainIds : List ChainId)
  | slashCommitter (commitId : Bytes32)
  | submitCommit (chainId : ChainId) (oldStateRoot newStateRoot : Bytes32)
  | verifyCommit (commitId : Bytes32) (proof : Proof)
  | claimRewards
  | createTreeNode (parentNodeId : Nat) (childChainIds : List ChainId) (committer : Address)
  | submitAggregatedCommit (nodeId : Nat) (childRoots : List Bytes32) (aggregatedRoot : Bytes32)
      (proof : Proof)
  | deposit (value : Nat)
  deriving DecidableEq, Repr

/-- A call with its sender and block. -/
structure Tx where
  msg : Msg
  call : Call
  deriving DecidableEq, Repr

/-- Dispatch of a transaction. -/
def exec (tx : Tx) (c : AuditContract) : Except Revert AuditContract :=
  match tx.call with
  | .setVerifyingKey alpha beta gamma delta ic => setVerifyingKey tx.msg alpha beta gamma delta ic c
  | .registerChain chainId initialRoot => registerChain tx.msg chainId initialRoot c
  | .registerAuditor auditor => registerAuditor tx.msg auditor c
  | .registerCommitter value chainIds => registerCommitter tx.msg value chainIds c
  | .slashCommitter commitId => slashCommitter tx.msg commitId c
  | .submitCommit chainId oldStateRoot newStateRoot =>
    submitCommit tx.msg chainId oldStateRoot newStateRoot c
  | .verifyCommit commitId proof => verifyCommit pairing tx.msg commitId proof c
  | .claimRewards => claimRewards tx.msg c
  | .createTreeNode parentNodeId childChainIds committer =>
    createTreeNode tx.msg parentNodeId childChainIds committer c
  | .submitAggregatedCommit nodeId childRoots aggregatedRoot proof =>
    submitAggregatedCommit pairing tx.msg nodeId childRoots aggregatedRoot proof c
  | .deposit value => deposit value c

/-- The calls that hand control to the caller's code. -/
def sends (tx : Tx) : Bool :=
  match tx.call with
  | .slashCommitter _ => true
  | .claimRewards => true
  | _ => false

/-- Runs of the contract, reentrant calls included. -/
abbrev step : Move Tx → CallStack AuditContract → Except Revert (CallStack AuditContract) :=
  move (exec pairing) sends

/-! ## §6. What a successful call does. -/

variable {pairing}

/-- A payment succeeds if the balance covers it. -/
theorem send_eq_ok {amount : Nat} {failure : String} {c c' : AuditContract} :
    send amount failure c = .ok c'
      ↔ amount ≤ c.balance ∧ c' = { c with balance := c.balance - amount } := by
  unfold send
  rw [bind_eq_ok]
  simp only [require_eq_ok, pure_eq_ok]
  constructor
  · intro h
    obtain ⟨_, hle, hc⟩ := h
    exact ⟨hle, hc.symm⟩
  · intro h
    exact ⟨(), h.1, h.2.symm⟩

/-- The guards of `registerCommitter`. -/
structure CanRegister (msg : Msg) (value : Nat) (chainIds : List ChainId) (c : AuditContract) :
    Prop where
  fresh : (c.committers msg.sender).isRegistered = false
  staked : MIN_COMMITTER_STAKE ≤ value
  active : ∀ chainId ∈ chainIds, (c.chains chainId).isActive = true

/-- The state a registration leaves. -/
def afterRegister (msg : Msg) (value : Nat) (chainIds : List ChainId) (c : AuditContract) :
    AuditContract :=
  { c with
    committers := update c.committers msg.sender ⟨msg.sender, chainIds, 0, 0, true⟩
    committerStakes := update c.committerStakes msg.sender value
    committerList := c.committerList ++ [msg.sender]
    balance := c.balance + value }

/-- Exactly these calls register. -/
theorem registerCommitter_eq_ok {msg : Msg} {value : Nat} {chainIds : List ChainId}
    {c c' : AuditContract} :
    registerCommitter msg value chainIds c = .ok c'
      ↔ CanRegister msg value chainIds c ∧ c' = afterRegister msg value chainIds c := by
  constructor
  · intro h
    obtain ⟨_, hfresh, h⟩ := bind_eq_ok.mp h
    obtain ⟨_, hstaked, h⟩ := bind_eq_ok.mp h
    obtain ⟨_, hactive, h⟩ := bind_eq_ok.mp h
    rw [require_eq_ok] at hfresh hstaked hactive
    exact ⟨⟨hfresh, hstaked, hactive⟩, (pure_eq_ok.mp h).symm⟩
  · rintro ⟨⟨hfresh, hstaked, hactive⟩, rfl⟩
    rw [registerCommitter, require_bind hfresh, require_bind hstaked, require_bind hactive]
    rfl

/-- The guards of `slashCommitter`. -/
structure CanSlash (msg : Msg) (commitId : Bytes32) (c : AuditContract) : Prop where
  auditor : c.auditors msg.sender = true
  found : 0 < (c.commits commitId).timestamp
  unverified : (c.commits commitId).isVerified = false
  staked : SLASH_AMOUNT ≤ c.committerStakes (c.commits commitId).committer
  funded : SLASH_AMOUNT ≤ c.balance

/-- The state a slash hands to the caller's code. -/
def afterSlash (commitId : Bytes32) (c : AuditContract) : AuditContract :=
  { c with
    committerStakes := update c.committerStakes (c.commits commitId).committer
      (c.committerStakes (c.commits commitId).committer - SLASH_AMOUNT)
    slashes := commitId :: c.slashes
    balance := c.balance - SLASH_AMOUNT }

/-- Exactly these calls slash. -/
theorem slashCommitter_eq_ok {msg : Msg} {commitId : Bytes32} {c c' : AuditContract} :
    slashCommitter msg commitId c = .ok c'
      ↔ CanSlash msg commitId c ∧ c' = afterSlash commitId c := by
  constructor
  · intro h
    obtain ⟨_, hauditor, h⟩ := bind_eq_ok.mp h
    obtain ⟨_, hfound, h⟩ := bind_eq_ok.mp h
    obtain ⟨_, hunverified, h⟩ := bind_eq_ok.mp h
    obtain ⟨_, hstaked, h⟩ := bind_eq_ok.mp h
    obtain ⟨hfunded, rfl⟩ := send_eq_ok.mp h
    rw [require_eq_ok] at hauditor hfound hunverified hstaked
    exact ⟨⟨hauditor, hfound, hunverified, hstaked, hfunded⟩, rfl⟩
  · rintro ⟨⟨hauditor, hfound, hunverified, hstaked, hfunded⟩, rfl⟩
    rw [slashCommitter, require_bind hauditor, require_bind hfound, require_bind hunverified,
      require_bind hstaked]
    exact send_eq_ok.mpr ⟨hfunded, rfl⟩

/-- The guards of `submitCommit`. -/
structure CanSubmit (msg : Msg) (chainId : ChainId) (oldStateRoot newStateRoot : Bytes32)
    (c : AuditContract) : Prop where
  registered : (c.committers msg.sender).isRegistered = true
  active : (c.chains chainId).isActive = true
  chained : (c.chains chainId).latestStateRoot = oldStateRoot
  fresh : (c.commits (commitKey msg chainId oldStateRoot newStateRoot)).timestamp = 0

/-- The record a submission writes. -/
def newCommit (msg : Msg) (chainId : ChainId) (oldStateRoot newStateRoot : Bytes32) :
    CommitRecord :=
  ⟨msg.sender, chainId, oldStateRoot, newStateRoot, msg.timestamp, false⟩

/-- The state a submission leaves. -/
def afterSubmit (msg : Msg) (chainId : ChainId) (oldStateRoot newStateRoot : Bytes32)
    (c : AuditContract) : AuditContract :=
  { c with
    commits := update c.commits (commitKey msg chainId oldStateRoot newStateRoot)
      (newCommit msg chainId oldStateRoot newStateRoot)
    commitIds := c.commitIds ++ [commitKey msg chainId oldStateRoot newStateRoot] }

/-- Exactly these calls submit. -/
theorem submitCommit_eq_ok {msg : Msg} {chainId : ChainId} {oldStateRoot newStateRoot : Bytes32}
    {c c' : AuditContract} :
    submitCommit msg chainId oldStateRoot newStateRoot c = .ok c'
      ↔ CanSubmit msg chainId oldStateRoot newStateRoot c
        ∧ c' = afterSubmit msg chainId oldStateRoot newStateRoot c := by
  constructor
  · intro h
    obtain ⟨_, hregistered, h⟩ := bind_eq_ok.mp h
    obtain ⟨_, hactive, h⟩ := bind_eq_ok.mp h
    obtain ⟨_, hchained, h⟩ := bind_eq_ok.mp h
    obtain ⟨_, hfresh, h⟩ := bind_eq_ok.mp h
    rw [require_eq_ok] at hregistered hactive hchained hfresh
    exact ⟨⟨hregistered, hactive, hchained, hfresh⟩, (pure_eq_ok.mp h).symm⟩
  · rintro ⟨⟨hregistered, hactive, hchained, hfresh⟩, rfl⟩
    rw [submitCommit, require_bind hregistered, require_bind hactive, require_bind hchained,
      require_bind hfresh]
    rfl

/-- The new key holds the submitted commit. -/
theorem commits_afterSubmit_self (msg : Msg) (chainId : ChainId)
    (oldStateRoot newStateRoot : Bytes32) (c : AuditContract) :
    (afterSubmit msg chainId oldStateRoot newStateRoot c).commits
        (commitKey msg chainId oldStateRoot newStateRoot)
      = newCommit msg chainId oldStateRoot newStateRoot :=
  update_self ..

/-- Other keys keep their commit. -/
theorem commits_afterSubmit_of_ne {msg : Msg} {chainId : ChainId}
    {id oldStateRoot newStateRoot : Bytes32}
    (h : id ≠ commitKey msg chainId oldStateRoot newStateRoot) (c : AuditContract) :
    (afterSubmit msg chainId oldStateRoot newStateRoot c).commits id = c.commits id :=
  update_of_ne h _ _

/-- Records name active chains after a submission if they did before it. -/
theorem active_afterSubmit {msg : Msg} {chainId : ChainId} {oldStateRoot newStateRoot : Bytes32}
    {c : AuditContract} (hcan : CanSubmit msg chainId oldStateRoot newStateRoot c)
    (hc : ∀ id, 0 < (c.commits id).timestamp → (c.chains (c.commits id).chainId).isActive = true)
    (id : Bytes32) :
    0 < ((afterSubmit msg chainId oldStateRoot newStateRoot c).commits id).timestamp →
      (c.chains ((afterSubmit msg chainId oldStateRoot newStateRoot c).commits id).chainId).isActive
        = true := by
  by_cases hid : id = commitKey msg chainId oldStateRoot newStateRoot
  · rw [hid, commits_afterSubmit_self]
    exact fun _ => hcan.active
  · rw [commits_afterSubmit_of_ne hid]
    exact hc id

/-- A submission leaves everything but the commits alone. -/
structure SubmitFrame (c c' : AuditContract) : Prop where
  vk_psi : c'.vk_psi = c.vk_psi
  chains : c'.chains = c.chains
  committers : c'.committers = c.committers
  rewardPerCommit : c'.rewardPerCommit = c.rewardPerCommit
  committerStakes : c'.committerStakes = c.committerStakes
  auditors : c'.auditors = c.auditors
  balance : c'.balance = c.balance

theorem afterSubmit_frame (msg : Msg) (chainId : ChainId) (oldStateRoot newStateRoot : Bytes32)
    (c : AuditContract) : SubmitFrame c (afterSubmit msg chainId oldStateRoot newStateRoot c) :=
  ⟨rfl, rfl, rfl, rfl, rfl, rfl, rfl⟩

/-- Submissions compose. -/
theorem SubmitFrame.trans {c c' c'' : AuditContract} (h : SubmitFrame c c')
    (h' : SubmitFrame c' c'') : SubmitFrame c c'' :=
  ⟨h'.vk_psi.trans h.vk_psi, h'.chains.trans h.chains, h'.committers.trans h.committers,
    h'.rewardPerCommit.trans h.rewardPerCommit, h'.committerStakes.trans h.committerStakes,
    h'.auditors.trans h.auditors, h'.balance.trans h.balance⟩

/-- The state a new root leaves. -/
def afterRoot (number : Nat) (chainId : ChainId) (root : Bytes32) (c : AuditContract) :
    AuditContract :=
  { c with
    chains := update c.chains chainId
      { c.chains chainId with
        latestStateRoot := root
        lastUpdateBlock := number
        totalCommits := (c.chains chainId).totalCommits + 1 }
    chainStateHistory := update c.chainStateHistory chainId
      (c.chainStateHistory chainId ++ [root]) }

/-- The counter must not overflow. -/
theorem advanceRoot_eq_ok {number : Nat} {chainId : ChainId} {root : Bytes32}
    {c c' : AuditContract} :
    advanceRoot number chainId root c = .ok c'
      ↔ (c.chains chainId).totalCommits + 1 < 2 ^ 256 ∧ c' = afterRoot number chainId root c := by
  constructor
  · intro h
    obtain ⟨count, hcount, h⟩ := bind_eq_ok.mp h
    obtain ⟨hlt, rfl⟩ := addU256_eq_ok.mp hcount
    exact ⟨hlt, (pure_eq_ok.mp h).symm⟩
  · rintro ⟨hlt, rfl⟩
    have hcount : addU256 (c.chains chainId).totalCommits 1
        = .ok ((c.chains chainId).totalCommits + 1) := addU256_eq_ok.mpr ⟨hlt, rfl⟩
    rw [advanceRoot, hcount]
    rfl

/-- The state a reward leaves. -/
def afterReward (committer : Address) (c : AuditContract) : AuditContract :=
  { c with
    committers := update c.committers committer
      { c.committers committer with
        totalCommits := (c.committers committer).totalCommits + 1
        rewards := (c.committers committer).rewards + c.rewardPerCommit } }

/-- The counters a reward moves have room. -/
structure CanReward (committer : Address) (c : AuditContract) : Prop where
  commits : (c.committers committer).totalCommits + 1 < 2 ^ 256
  rewards : (c.committers committer).rewards + c.rewardPerCommit < 2 ^ 256

/-- Exactly these rewards are paid. -/
theorem reward_eq_ok {committer : Address} {c c' : AuditContract} :
    reward committer c = .ok c' ↔ CanReward committer c ∧ c' = afterReward committer c := by
  constructor
  · intro h
    obtain ⟨count, hcount, h⟩ := bind_eq_ok.mp h
    obtain ⟨rewards, hrewards, h⟩ := bind_eq_ok.mp h
    obtain ⟨hlt, rfl⟩ := addU256_eq_ok.mp hcount
    obtain ⟨hlt', rfl⟩ := addU256_eq_ok.mp hrewards
    exact ⟨⟨hlt, hlt'⟩, (pure_eq_ok.mp h).symm⟩
  · rintro ⟨⟨hlt, hlt'⟩, rfl⟩
    have hcount : addU256 (c.committers committer).totalCommits 1
        = .ok ((c.committers committer).totalCommits + 1) := addU256_eq_ok.mpr ⟨hlt, rfl⟩
    have hrewards : addU256 (c.committers committer).rewards c.rewardPerCommit
        = .ok ((c.committers committer).rewards + c.rewardPerCommit) :=
      addU256_eq_ok.mpr ⟨hlt', rfl⟩
    rw [reward, hcount, ok_bind, hrewards]
    rfl

/-- The guards of `verifyCommit`. -/
structure CanVerify (pairing : PairingCheck) (msg : Msg) (commitId : Bytes32) (proof : Proof)
    (c : AuditContract) : Prop where
  auditor : c.auditors msg.sender = true
  found : 0 < (c.commits commitId).timestamp
  unverified : (c.commits commitId).isVerified = false
  accepted : verify pairing c.vk_psi proof (auditInputs (c.commits commitId).oldStateRoot
    (c.commits commitId).newStateRoot) = .ok true
  room : (c.chains (c.commits commitId).chainId).totalCommits + 1 < 2 ^ 256
  rewarded : CanReward (c.commits commitId).committer c

/-- The state a verification leaves. -/
def afterVerify (msg : Msg) (commitId : Bytes32) (proof : Proof) (c : AuditContract) :
    AuditContract :=
  afterReward (c.commits commitId).committer
    (afterRoot msg.number (c.commits commitId).chainId (c.commits commitId).newStateRoot
      (markVerified commitId proof c))

/-- Exactly these calls verify. -/
theorem verifyCommit_eq_ok {msg : Msg} {commitId : Bytes32} {proof : Proof}
    {c c' : AuditContract} :
    verifyCommit pairing msg commitId proof c = .ok c'
      ↔ CanVerify pairing msg commitId proof c ∧ c' = afterVerify msg commitId proof c := by
  constructor
  · intro h
    obtain ⟨_, hauditor, h⟩ := bind_eq_ok.mp h
    obtain ⟨_, hfound, h⟩ := bind_eq_ok.mp h
    obtain ⟨_, hunverified, h⟩ := bind_eq_ok.mp h
    obtain ⟨ok, hverify, h⟩ := bind_eq_ok.mp h
    obtain ⟨_, hok, h⟩ := bind_eq_ok.mp h
    obtain ⟨c₁, hroot, h⟩ := bind_eq_ok.mp h
    rw [require_eq_ok] at hauditor hfound hunverified hok
    rw [hok] at hverify
    obtain ⟨hroom, rfl⟩ := advanceRoot_eq_ok.mp hroot
    obtain ⟨hreward, rfl⟩ := reward_eq_ok.mp h
    exact ⟨⟨hauditor, hfound, hunverified, hverify, hroom, ⟨hreward.commits, hreward.rewards⟩⟩, rfl⟩
  · rintro ⟨⟨hauditor, hfound, hunverified, hverify, hroom, hreward⟩, rfl⟩
    have hroot : advanceRoot msg.number (c.commits commitId).chainId
        (c.commits commitId).newStateRoot (markVerified commitId proof c) = .ok _ :=
      advanceRoot_eq_ok.mpr ⟨hroom, rfl⟩
    rw [verifyCommit, require_bind hauditor, require_bind hfound, require_bind hunverified,
      hverify, ok_bind, require_bind rfl, hroot, ok_bind]
    exact reward_eq_ok.mpr ⟨⟨hreward.commits, hreward.rewards⟩, rfl⟩

/-- The guards of `claimRewards`. -/
structure CanClaim (msg : Msg) (c : AuditContract) : Prop where
  registered : (c.committers msg.sender).isRegistered = true
  earned : 0 < (c.committers msg.sender).rewards
  funded : (c.committers msg.sender).rewards ≤ c.balance

/-- The state a claim hands to the caller's code. -/
def afterClaim (msg : Msg) (c : AuditContract) : AuditContract :=
  { c with
    committers := update c.committers msg.sender
      { c.committers msg.sender with rewards := 0 }
    balance := c.balance - (c.committers msg.sender).rewards }

/-- Exactly these calls claim. -/
theorem claimRewards_eq_ok {msg : Msg} {c c' : AuditContract} :
    claimRewards msg c = .ok c' ↔ CanClaim msg c ∧ c' = afterClaim msg c := by
  constructor
  · intro h
    obtain ⟨_, hregistered, h⟩ := bind_eq_ok.mp h
    obtain ⟨_, hearned, h⟩ := bind_eq_ok.mp h
    obtain ⟨hfunded, rfl⟩ := send_eq_ok.mp h
    rw [require_eq_ok] at hregistered hearned
    exact ⟨⟨hregistered, hearned, hfunded⟩, rfl⟩
  · rintro ⟨⟨hregistered, hearned, hfunded⟩, rfl⟩
    rw [claimRewards, require_bind hregistered, require_bind hearned]
    exact send_eq_ok.mpr ⟨hfunded, rfl⟩

/-- The guards of `createTreeNode`. -/
structure CanCreate (msg : Msg) (parentNodeId : Nat) (childChainIds : List ChainId)
    (committer : Address) (c : AuditContract) : Prop where
  owner : msg.sender = c.owner
  registered : (c.committers committer).isRegistered = true
  chains : ∀ chainId ∈ childChainIds, (c.chains chainId).isActive = true
  parent : parentNodeId > 0 → (c.treeNodes parentNodeId).isActive = true
  room : c.nextNodeId + 1 < 2 ^ 256

/-- The nodes with a new one under `parentNodeId`. -/
def insertNode (parentNodeId : Nat) (childChainIds : List ChainId) (committer : Address)
    (c : AuditContract) : Nat → TreeNode :=
  if parentNodeId > 0 then addChild parentNodeId c.nextNodeId
    (update c.treeNodes c.nextNodeId
      ⟨c.nextNodeId, parentNodeId, childChainIds, [], 0, committer, true⟩)
  else update c.treeNodes c.nextNodeId
    ⟨c.nextNodeId, parentNodeId, childChainIds, [], 0, committer, true⟩

/-- The state a new tree node leaves. -/
def afterCreate (parentNodeId : Nat) (childChainIds : List ChainId) (committer : Address)
    (c : AuditContract) : AuditContract :=
  { c with
    treeNodes := insertNode parentNodeId childChainIds committer c
    nodeList := c.nodeList ++ [c.nextNodeId]
    nextNodeId := c.nextNodeId + 1 }

/-- Exactly these calls create a node. -/
theorem createTreeNode_eq_ok {msg : Msg} {parentNodeId : Nat} {childChainIds : List ChainId}
    {committer : Address} {c c' : AuditContract} :
    createTreeNode msg parentNodeId childChainIds committer c = .ok c'
      ↔ CanCreate msg parentNodeId childChainIds committer c
        ∧ c' = afterCreate parentNodeId childChainIds committer c := by
  constructor
  · intro h
    obtain ⟨_, howner, h⟩ := bind_eq_ok.mp h
    obtain ⟨_, hregistered, h⟩ := bind_eq_ok.mp h
    obtain ⟨_, hchains, h⟩ := bind_eq_ok.mp h
    obtain ⟨_, hparent, h⟩ := bind_eq_ok.mp h
    obtain ⟨next, hnext, h⟩ := bind_eq_ok.mp h
    rw [require_eq_ok] at howner hregistered hchains hparent
    obtain ⟨hroom, rfl⟩ := addU256_eq_ok.mp hnext
    exact ⟨⟨howner, hregistered, hchains, hparent, hroom⟩, (pure_eq_ok.mp h).symm⟩
  · rintro ⟨⟨howner, hregistered, hchains, hparent, hroom⟩, rfl⟩
    have hnext : addU256 c.nextNodeId 1 = .ok (c.nextNodeId + 1) := addU256_eq_ok.mpr ⟨hroom, rfl⟩
    rw [createTreeNode, require_bind howner, require_bind hregistered, require_bind hchains,
      require_bind hparent, hnext]
    rfl

/-- New roots of chains leave everything but the chains and their history alone. -/
structure RootsFrame (c c' : AuditContract) : Prop where
  commits : c'.commits = c.commits
  committers : c'.committers = c.committers
  rewardPerCommit : c'.rewardPerCommit = c.rewardPerCommit
  committerStakes : c'.committerStakes = c.committerStakes
  treeNodes : c'.treeNodes = c.treeNodes
  balance : c'.balance = c.balance
  audits : c'.audits = c.audits
  slashes : c'.slashes = c.slashes

/-- The loop touches chains and histories only. -/
theorem advanceRoots_frame {number : Nat} {entries : List (ChainId × Bytes32)}
    {c c' : AuditContract} (h : advanceRoots number entries c = .ok c') : RootsFrame c c' := by
  unfold advanceRoots at h
  refine foldlM_invariant (P := RootsFrame c) ?_ entries c c'
    ⟨rfl, rfl, rfl, rfl, rfl, rfl, rfl, rfl⟩ h
  intro s entry s' hs hstep
  obtain ⟨-, rfl⟩ := advanceRoot_eq_ok.mp hstep
  exact ⟨hs.commits, hs.committers, hs.rewardPerCommit, hs.committerStakes, hs.treeNodes,
    hs.balance, hs.audits, hs.slashes⟩

/-- The guards of `submitAggregatedCommit`, room in the counters apart. -/
structure CanAggregate (pairing : PairingCheck) (msg : Msg) (nodeId : Nat)
    (childRoots : List Bytes32) (aggregatedRoot : Bytes32) (proof : Proof) (c : AuditContract) :
    Prop where
  active : (c.treeNodes nodeId).isActive = true
  assigned : (c.treeNodes nodeId).assignedCommitter = msg.sender
  count : childRoots.length
    = (c.treeNodes nodeId).childChainIds.length + (c.treeNodes nodeId).childNodeIds.length
  accepted : verify pairing c.vk_psi proof
    (auditInputs (c.treeNodes nodeId).aggregatedRoot aggregatedRoot) = .ok true

/-- Exactly these calls aggregate. -/
theorem submitAggregatedCommit_eq_ok {msg : Msg} {nodeId : Nat} {childRoots : List Bytes32}
    {aggregatedRoot : Bytes32} {proof : Proof} {c c' : AuditContract} :
    submitAggregatedCommit pairing msg nodeId childRoots aggregatedRoot proof c = .ok c'
      ↔ CanAggregate pairing msg nodeId childRoots aggregatedRoot proof c
        ∧ ∃ c₁, advanceRoots msg.number
            ((c.treeNodes nodeId).childChainIds.zip childRoots) c = .ok c₁
          ∧ CanReward msg.sender c₁
          ∧ c' = afterReward msg.sender (setAggregatedRoot nodeId aggregatedRoot c₁) := by
  constructor
  · intro h
    obtain ⟨_, hactive, h⟩ := bind_eq_ok.mp h
    obtain ⟨_, hassigned, h⟩ := bind_eq_ok.mp h
    obtain ⟨_, hcount, h⟩ := bind_eq_ok.mp h
    obtain ⟨ok, hverify, h⟩ := bind_eq_ok.mp h
    obtain ⟨_, hok, h⟩ := bind_eq_ok.mp h
    obtain ⟨c₁, hroots, h⟩ := bind_eq_ok.mp h
    rw [require_eq_ok] at hactive hassigned hcount hok
    rw [hok] at hverify
    obtain ⟨hreward, rfl⟩ := reward_eq_ok.mp h
    exact ⟨⟨hactive, hassigned, hcount, hverify⟩, c₁, hroots,
      ⟨hreward.commits, hreward.rewards⟩, rfl⟩
  · rintro ⟨⟨hactive, hassigned, hcount, hverify⟩, c₁, hroots, hreward, rfl⟩
    rw [submitAggregatedCommit, require_bind hactive, require_bind hassigned, require_bind hcount,
      hverify, ok_bind, require_bind rfl, hroots, ok_bind]
    exact reward_eq_ok.mpr ⟨⟨hreward.commits, hreward.rewards⟩, rfl⟩

/-- **The effect of a successful call.** -/
inductive Effect (pairing : PairingCheck) (c : AuditContract) : Tx → AuditContract → Prop
  | setVerifyingKey {msg : Msg} {alpha : G1Point} {beta gamma delta : G2Point} {ic : List G1Point} :
      Effect pairing c ⟨msg, .setVerifyingKey alpha beta gamma delta ic⟩
        { c with vk_psi := ⟨alpha, beta, gamma, delta, ic⟩ }
  | registerChain {msg : Msg} {chainId : ChainId} {initialRoot : Bytes32}
      (fresh : (c.chains chainId).isActive = false) :
      Effect pairing c ⟨msg, .registerChain chainId initialRoot⟩
        { c with
          chains := update c.chains chainId ⟨chainId, initialRoot, msg.number, 0, true⟩
          chainList := c.chainList ++ [chainId]
          chainStateHistory := update c.chainStateHistory chainId
            (c.chainStateHistory chainId ++ [initialRoot]) }
  | registerAuditor {msg : Msg} {auditor : Address} :
      Effect pairing c ⟨msg, .registerAuditor auditor⟩
        { c with
          auditors := update c.auditors auditor true
          auditorCount := c.auditorCount + 1 }
  | registerCommitter {msg : Msg} {value : Nat} {chainIds : List ChainId}
      (guards : CanRegister msg value chainIds c) :
      Effect pairing c ⟨msg, .registerCommitter value chainIds⟩ (afterRegister msg value chainIds c)
  | slashCommitter {msg : Msg} {commitId : Bytes32} (guards : CanSlash msg commitId c) :
      Effect pairing c ⟨msg, .slashCommitter commitId⟩ (afterSlash commitId c)
  | submitCommit {msg : Msg} {chainId : ChainId} {oldStateRoot newStateRoot : Bytes32}
      (guards : CanSubmit msg chainId oldStateRoot newStateRoot c) :
      Effect pairing c ⟨msg, .submitCommit chainId oldStateRoot newStateRoot⟩
        (afterSubmit msg chainId oldStateRoot newStateRoot c)
  | verifyCommit {msg : Msg} {commitId : Bytes32} {proof : Proof}
      (guards : CanVerify pairing msg commitId proof c) :
      Effect pairing c ⟨msg, .verifyCommit commitId proof⟩ (afterVerify msg commitId proof c)
  | claimRewards {msg : Msg} (guards : CanClaim msg c) :
      Effect pairing c ⟨msg, .claimRewards⟩ (afterClaim msg c)
  | createTreeNode {msg : Msg} {parentNodeId : Nat} {childChainIds : List ChainId}
      {committer : Address} (guards : CanCreate msg parentNodeId childChainIds committer c) :
      Effect pairing c ⟨msg, .createTreeNode parentNodeId childChainIds committer⟩
        (afterCreate parentNodeId childChainIds committer c)
  | submitAggregatedCommit {msg : Msg} {nodeId : Nat} {childRoots : List Bytes32}
      {aggregatedRoot : Bytes32} {proof : Proof} {c₁ : AuditContract}
      (guards : CanAggregate pairing msg nodeId childRoots aggregatedRoot proof c)
      (frame : RootsFrame c c₁) :
      Effect pairing c ⟨msg, .submitAggregatedCommit nodeId childRoots aggregatedRoot proof⟩
        (afterReward msg.sender (setAggregatedRoot nodeId aggregatedRoot c₁))
  | deposit {msg : Msg} {value : Nat} :
      Effect pairing c ⟨msg, .deposit value⟩ { c with balance := c.balance + value }

/-- **Every call is one of these**. -/
theorem exec_effect {tx : Tx} {c c' : AuditContract} (h : exec pairing tx c = .ok c') :
    Effect pairing c tx c' := by
  obtain ⟨msg, call⟩ := tx
  cases call with
  | setVerifyingKey alpha beta gamma delta ic =>
    obtain ⟨_, -, h⟩ := bind_eq_ok.mp h
    rw [← pure_eq_ok.mp h]
    exact .setVerifyingKey
  | registerChain chainId initialRoot =>
    obtain ⟨_, -, h⟩ := bind_eq_ok.mp h
    obtain ⟨_, hfresh, h⟩ := bind_eq_ok.mp h
    rw [← pure_eq_ok.mp h]
    exact .registerChain (require_eq_ok.mp hfresh)
  | registerAuditor auditor =>
    obtain ⟨_, -, h⟩ := bind_eq_ok.mp h
    obtain ⟨_, -, h⟩ := bind_eq_ok.mp h
    obtain ⟨count, hcount, h⟩ := bind_eq_ok.mp h
    obtain ⟨-, rfl⟩ := addU256_eq_ok.mp hcount
    rw [← pure_eq_ok.mp h]
    exact .registerAuditor
  | registerCommitter value chainIds =>
    obtain ⟨hguards, rfl⟩ := registerCommitter_eq_ok.mp h
    exact .registerCommitter hguards
  | slashCommitter commitId =>
    obtain ⟨hguards, rfl⟩ := slashCommitter_eq_ok.mp h
    exact .slashCommitter hguards
  | submitCommit chainId oldStateRoot newStateRoot =>
    obtain ⟨hguards, rfl⟩ := submitCommit_eq_ok.mp h
    exact .submitCommit hguards
  | verifyCommit commitId proof =>
    obtain ⟨hguards, rfl⟩ := verifyCommit_eq_ok.mp h
    exact .verifyCommit hguards
  | claimRewards =>
    obtain ⟨hguards, rfl⟩ := claimRewards_eq_ok.mp h
    exact .claimRewards hguards
  | createTreeNode parentNodeId childChainIds committer =>
    obtain ⟨hguards, rfl⟩ := createTreeNode_eq_ok.mp h
    exact .createTreeNode hguards
  | submitAggregatedCommit nodeId childRoots aggregatedRoot proof =>
    obtain ⟨hguards, c₁, hroots, -, rfl⟩ := submitAggregatedCommit_eq_ok.mp h
    exact .submitAggregatedCommit hguards (advanceRoots_frame hroots)
  | deposit value =>
    cases h
    exact .deposit

end HZKA.AuditV1
