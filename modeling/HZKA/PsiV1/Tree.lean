/-
  HZKA.PsiV1.Tree
  ────────────
  **THE TREE OF AGGREGATING NODES IS A FOREST** (`AuditContract`, V1).

  `createTreeNode` stores the topology twice: the new node names its parent, and the
  parent's `childNodeIds` gets the new id.  The parent has to be active, hence older.

    • `treeInv_create` — the insertion, through the library's `Forest.insert`;
    • `treeInv_step`   — no other call touches a link;
    • `tree_forest`    — every reachable state, reentrant calls included.
-/
import HZKA.Contracts.AuditV1
import HZKA.Lib.Forest
import HZKA.Lib.RecordStore

namespace HZKA.PsiV1

open Function
open HZKA.Lib HZKA.EVM HZKA.Groth16Verifier HZKA.AuditV1

/-! ## §1. Links. -/

/-- The parent, as the forest reads it. -/
def parentOf (treeNodes : Nat → TreeNode) (n : Nat) : Nat := (treeNodes n).parentNodeId

/-- The children, as the forest reads them. -/
def childrenOf (treeNodes : Nat → TreeNode) (n : Nat) : List Nat := (treeNodes n).childNodeIds

/-- The same node up to its aggregated root and its children. -/
structure SameNode (a b : TreeNode) : Prop where
  nodeId : b.nodeId = a.nodeId
  parentNodeId : b.parentNodeId = a.parentNodeId
  isActive : b.isActive = a.isActive

theorem SameNode.refl (a : TreeNode) : SameNode a a := ⟨rfl, rfl, rfl⟩

theorem sameNode_update {treeNodes : Nat → TreeNode} {k : Nat} {node : TreeNode}
    (h : SameNode (treeNodes k) node) (n : Nat) :
    SameNode (treeNodes n) (update treeNodes k node n) :=
  rel_update SameNode.refl h n

/-- A child more changes nothing else. -/
theorem sameNode_addChild (p id : Nat) (treeNodes : Nat → TreeNode) (n : Nat) :
    SameNode (treeNodes n) (addChild p id treeNodes n) := by
  unfold addChild
  apply sameNode_update
  exact ⟨rfl, rfl, rfl⟩

/-- Only the parent's child list grows. -/
theorem childrenOf_addChild (p id : Nat) (treeNodes : Nat → TreeNode) :
    childrenOf (addChild p id treeNodes)
      = update (childrenOf treeNodes) p (childrenOf treeNodes p ++ [id]) := by
  funext n
  unfold childrenOf addChild
  by_cases hn : n = p
  · rw [hn, update_self, update_self]
  · rw [update_of_ne hn, update_of_ne hn]

/-- Storing a root keeps the tree's edges. -/
theorem childrenOf_setAggregatedRoot (nodeId : Nat) (root : Bytes32) (c : AuditContract) :
    childrenOf (setAggregatedRoot nodeId root c).treeNodes = childrenOf c.treeNodes := by
  funext n
  unfold childrenOf setAggregatedRoot
  dsimp only
  by_cases hn : n = nodeId
  · rw [hn, update_self]
  · rw [update_of_ne hn]

/-- The node `createTreeNode` writes, before its parent is told. -/
def newNode (p : Nat) (childChainIds : List AuditV1.ChainId) (committer : Address)
    (c : AuditContract) : TreeNode :=
  ⟨c.nextNodeId, p, childChainIds, [], 0, committer, true⟩

theorem sameNode_insertNode (p : Nat) (childChainIds : List AuditV1.ChainId) (committer : Address)
    (c : AuditContract) (n : Nat) :
    SameNode (update c.treeNodes c.nextNodeId (newNode p childChainIds committer c) n)
      (insertNode p childChainIds committer c n) := by
  unfold insertNode
  split
  · exact sameNode_addChild p c.nextNodeId _ n
  · exact SameNode.refl _

/-- A number that has no children yet is inserted as in the library. -/
theorem childrenOf_insertNode {c : AuditContract}
    (hnone : childrenOf c.treeNodes c.nextNodeId = []) (p : Nat)
    (childChainIds : List AuditV1.ChainId) (committer : Address) :
    childrenOf (insertNode p childChainIds committer c)
      = hang p c.nextNodeId (childrenOf c.treeNodes) := by
  have hwritten : childrenOf (update c.treeNodes c.nextNodeId
      ⟨c.nextNodeId, p, childChainIds, [], 0, committer, true⟩) = childrenOf c.treeNodes := by
    funext n
    unfold childrenOf at hnone ⊢
    by_cases hn : n = c.nextNodeId
    · rw [hn, update_self, hnone]
    · rw [update_of_ne hn]
  unfold insertNode hang
  split
  · rw [childrenOf_addChild, hwritten]
  · exact hwritten

/-- The new node's parent. -/
theorem parentOf_insertNode (p : Nat) (childChainIds : List AuditV1.ChainId) (committer : Address)
    (c : AuditContract) :
    parentOf (insertNode p childChainIds committer c)
      = update (parentOf c.treeNodes) c.nextNodeId p := by
  funext n
  show (insertNode p childChainIds committer c n).parentNodeId = _
  rw [(sameNode_insertNode p childChainIds committer c n).parentNodeId]
  by_cases hn : n = c.nextNodeId
  · rw [hn, update_self, update_self]
    rfl
  · rw [update_of_ne hn, update_of_ne hn]
    rfl

/-! ## §2. The invariant. -/

/-- The nodes form a forest, numbered from 1. -/
structure TreeInv (c : AuditContract) : Prop where
  next : 0 < c.nextNodeId
  active : ∀ n, (c.treeNodes n).isActive = true ↔ 0 < n ∧ n < c.nextNodeId
  named : ∀ n, (c.treeNodes n).isActive = true → (c.treeNodes n).nodeId = n
  list : c.nodeList = List.range' 1 (c.nextNodeId - 1)
  forest : Forest c.nextNodeId (parentOf c.treeNodes) (childrenOf c.treeNodes)

/-- The empty tree. -/
theorem treeInv_deploy (deployer : Address) : TreeInv (deploy deployer) where
  next := Nat.one_pos
  active := fun n => by
    show false = true ↔ 0 < n ∧ n < 1
    simp only [Bool.false_eq_true, false_iff]
    omega
  named := fun _ h => absurd h Bool.false_ne_true
  list := rfl
  forest := forest_empty _

/-- Calls that touch no link. -/
theorem treeInv_of_same {c c' : AuditContract} (hc : TreeInv c)
    (hnodes : ∀ n, SameNode (c.treeNodes n) (c'.treeNodes n))
    (hchildren : childrenOf c'.treeNodes = childrenOf c.treeNodes)
    (hnext : c'.nextNodeId = c.nextNodeId) (hlist : c'.nodeList = c.nodeList) : TreeInv c' := by
  have hparents : parentOf c'.treeNodes = parentOf c.treeNodes := by
    funext n
    exact (hnodes n).parentNodeId
  refine ⟨by rw [hnext]; exact hc.next, ?_, ?_, by rw [hlist, hnext]; exact hc.list, ?_⟩
  · intro n
    rw [(hnodes n).isActive, hnext]
    exact hc.active n
  · intro n h
    rw [(hnodes n).isActive] at h
    rw [(hnodes n).nodeId]
    exact hc.named n h
  · rw [hparents, hchildren, hnext]
    exact hc.forest

/-- **A new node.** -/
theorem treeInv_create {c : AuditContract} {msg : Msg} {p : Nat}
    {childChainIds : List AuditV1.ChainId} {committer : Address} (hc : TreeInv c)
    (hcan : CanCreate msg p childChainIds committer c) :
    TreeInv (afterCreate p childChainIds committer c) := by
  have hpos := hc.next
  -- an active parent is older; without a parent there is nothing to show
  have holder : p < c.nextNodeId := by
    by_cases hp : p > 0
    · exact ((hc.active p).mp (hcan.parent hp)).2
    · omega
  have hnone : childrenOf c.treeNodes c.nextNodeId = [] := by
    apply List.eq_nil_iff_forall_not_mem.mpr
    intro n hn
    obtain ⟨hn₀, hlt, -, hparent⟩ := hc.forest.child _ n hn
    have hdown := hc.forest.older n hn₀ hlt
    omega
  have hsame := sameNode_insertNode p childChainIds committer c
  refine ⟨Nat.succ_pos _, ?_, ?_, ?_, ?_⟩
  · intro n
    show (insertNode p childChainIds committer c n).isActive = true ↔ 0 < n ∧ n < c.nextNodeId + 1
    rw [(hsame n).isActive]
    by_cases hn : n = c.nextNodeId
    · rw [hn, update_self]
      simp only [newNode, true_iff]
      omega
    · rw [update_of_ne hn, hc.active n]
      omega
  · intro n h
    change (insertNode p childChainIds committer c n).isActive = true at h
    show (insertNode p childChainIds committer c n).nodeId = n
    rw [(hsame n).isActive] at h
    rw [(hsame n).nodeId]
    by_cases hn : n = c.nextNodeId
    · rw [hn, update_self]
      rfl
    · rw [update_of_ne hn] at h ⊢
      exact hc.named n h
  · show c.nodeList ++ [c.nextNodeId] = List.range' 1 (c.nextNodeId + 1 - 1)
    have hlast : c.nextNodeId + 1 - 1 = c.nextNodeId - 1 + 1 := by omega
    have hid : 1 + (c.nextNodeId - 1) = c.nextNodeId := by omega
    rw [hc.list, hlast, List.range'_1_concat, hid]
  · show Forest (c.nextNodeId + 1) (parentOf (insertNode p childChainIds committer c))
      (childrenOf (insertNode p childChainIds committer c))
    rw [parentOf_insertNode, childrenOf_insertNode hnone]
    exact hc.forest.insert hpos holder

/-- The loop over the child chains leaves the tree alone. -/
theorem advanceRoots_tree {number : Nat} {entries : List (AuditV1.ChainId × Bytes32)}
    {c c' : AuditContract} (h : advanceRoots number entries c = .ok c') :
    c'.treeNodes = c.treeNodes ∧ c'.nextNodeId = c.nextNodeId ∧ c'.nodeList = c.nodeList := by
  unfold advanceRoots at h
  refine foldlM_invariant (P := fun s => s.treeNodes = c.treeNodes ∧ s.nextNodeId = c.nextNodeId
    ∧ s.nodeList = c.nodeList) ?_ entries c c' ⟨rfl, rfl, rfl⟩ h
  intro s entry s' hs hstep
  obtain ⟨-, rfl⟩ := advanceRoot_eq_ok.mp hstep
  exact hs

variable {pairing : PairingCheck}

/-- **Every call.** -/
theorem treeInv_step (tx : Tx) (c c' : AuditContract) (hc : TreeInv c)
    (h : exec pairing tx c = .ok c') : TreeInv c' := by
  have hkeep : ∀ n, SameNode (c.treeNodes n) (c.treeNodes n) := fun n => SameNode.refl _
  cases exec_effect h with
  | createTreeNode guards => exact treeInv_create hc guards
  | @submitAggregatedCommit _ nodeId _ aggregatedRoot _ _ _ _ =>
    obtain ⟨-, c₂, hroots, -, heq⟩ := submitAggregatedCommit_eq_ok.mp h
    obtain ⟨hnodes, hnext, hlist⟩ := advanceRoots_tree hroots
    rw [heq]
    -- the one write to a node is its aggregated root
    refine treeInv_of_same hc ?_ ?_ hnext hlist
    · intro n
      rw [← hnodes]
      show SameNode _ (update c₂.treeNodes nodeId _ n)
      apply sameNode_update
      exact ⟨rfl, rfl, rfl⟩
    · rw [← hnodes]
      exact childrenOf_setAggregatedRoot nodeId aggregatedRoot c₂
  | registerChain _ => exact treeInv_of_same hc hkeep rfl rfl rfl
  | submitCommit _ => exact treeInv_of_same hc hkeep rfl rfl rfl
  | verifyCommit _ => exact treeInv_of_same hc hkeep rfl rfl rfl
  | setVerifyingKey => exact treeInv_of_same hc hkeep rfl rfl rfl
  | registerAuditor => exact treeInv_of_same hc hkeep rfl rfl rfl
  | registerCommitter _ => exact treeInv_of_same hc hkeep rfl rfl rfl
  | slashCommitter _ => exact treeInv_of_same hc hkeep rfl rfl rfl
  | claimRewards _ => exact treeInv_of_same hc hkeep rfl rfl rfl
  | deposit => exact treeInv_of_same hc hkeep rfl rfl rfl

/-! ## §3. Whole runs. -/

/-- What a reader of the storage may rely on. -/
structure IsForest (c : AuditContract) : Prop where
  ids : ∀ n, (c.treeNodes n).isActive = true ↔ 1 ≤ n ∧ n ≤ c.nextNodeId - 1
  list : c.nodeList = List.range' 1 (c.nextNodeId - 1)
  named : ∀ n, (c.treeNodes n).isActive = true → (c.treeNodes n).nodeId = n
  older : ∀ n, (c.treeNodes n).isActive = true → (c.treeNodes n).parentNodeId < n
  once : ∀ n p, (c.treeNodes n).isActive = true → (c.treeNodes n).parentNodeId = p → 0 < p →
    (c.treeNodes p).childNodeIds.count n = 1 ∧ ∀ q, q ≠ p → n ∉ (c.treeNodes q).childNodeIds
  children : ∀ p, ∀ n ∈ (c.treeNodes p).childNodeIds,
    (c.treeNodes n).isActive = true ∧ (c.treeNodes n).parentNodeId = p
  reaches : ∀ n, (c.treeNodes n).isActive = true →
    ∃ k ≤ n, (fun m => (c.treeNodes m).parentNodeId)^[k] n = 0

/-- The invariant gives the forest. -/
theorem TreeInv.isForest {c : AuditContract} (h : TreeInv c) : IsForest c := by
  have hpos := h.next
  refine ⟨?_, h.list, h.named, ?_, ?_, ?_, ?_⟩
  · intro n
    rw [h.active n]
    omega
  · intro n hn
    obtain ⟨hn₀, hlt⟩ := (h.active n).mp hn
    exact h.forest.older n hn₀ hlt
  · intro n p hn hparent hp
    obtain ⟨hn₀, hlt⟩ := (h.active n).mp hn
    subst hparent
    refine ⟨h.forest.listed n hn₀ hlt hp, ?_⟩
    intro q hq
    exact h.forest.not_listed hq
  · intro p n hn
    obtain ⟨hn₀, hlt, -, hparent⟩ := h.forest.child p n hn
    exact ⟨(h.active n).mpr ⟨hn₀, hlt⟩, hparent⟩
  · intro n hn
    exact h.forest.reaches ((h.active n).mp hn).2

/-- **The tree nodes form a forest in every reachable state.** -/
theorem tree_forest (pairing : PairingCheck) (deployer : Address) (moves : List (Move Tx)) :
    IsForest (run (step pairing) ⟨deploy deployer, []⟩ moves).current :=
  (reentrant_invariant treeInv_step moves (treeInv_deploy deployer)).isForest

end HZKA.PsiV1
