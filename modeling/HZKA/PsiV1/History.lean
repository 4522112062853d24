/-
  HZKA.PsiV1.History
  ────────────
  **THREE FIELDS FOR ONE CHAIN OF ROOTS.**

  The contract keeps the latest root of a chain, the number of its commits and the list of
  all its roots.  `registerChain`, `verifyCommit` and `submitAggregatedCommit` write them,
  the last one in a loop over child chains that may name one chain several times.

    • `Kept` — what the three fields say about each other;
    • `historyInv_step` — kept by every call: a root is only ever added to an ACTIVE chain,
      since recorded commits and tree nodes name active chains;
    • `history_grows` — no call takes a root away or changes one;
    • `root_history` — both over every run, reentrant calls included.
-/
import HZKA.Contracts.AuditV1
import HZKA.Lib.RecordStore

namespace HZKA.PsiV1

open Function
open HZKA.Lib HZKA.EVM HZKA.Groth16Verifier HZKA.AuditV1

/-! ## §1. One chain. -/

/-- The history of an inactive chain is empty; that of an active one ends with the latest root
and has one entry more than there are commits. -/
structure Kept (info : AuditV1.ChainInfo) (history : List Bytes32) : Prop where
  unborn : info.isActive = false → history = []
  last : info.isActive = true → history.getLast? = some info.latestStateRoot
  count : info.isActive = true → history.length = info.totalCommits + 1

theorem kept_registered (chainId : AuditV1.ChainId) (root : Bytes32) (number : Nat) :
    Kept ⟨chainId, root, number, 0, true⟩ [root] :=
  ⟨fun h => absurd h.symm Bool.false_ne_true, fun _ => rfl, fun _ => rfl⟩

/-- One more root of an active chain. -/
theorem Kept.root {info : AuditV1.ChainInfo} {history : List Bytes32} (h : Kept info history)
    (hactive : info.isActive = true) (root : Bytes32) (number : Nat) :
    Kept { info with
      latestStateRoot := root
      lastUpdateBlock := number
      totalCommits := info.totalCommits + 1 } (history ++ [root]) := by
  refine ⟨?_, ?_, ?_⟩
  · intro hinactive
    rw [show info.isActive = false from hinactive] at hactive
    exact absurd hactive Bool.false_ne_true
  · intro _
    rw [List.getLast?_concat]
  · intro _
    rw [List.length_append, h.count hactive, List.length_singleton]

/-! ## §2. The contract. -/

/-- All chains are kept, and whoever may add a root names an active chain. -/
structure HistoryInv (c : AuditContract) : Prop where
  kept : ∀ x, Kept (c.chains x) (c.chainStateHistory x)
  commits : ∀ id, 0 < (c.commits id).timestamp → (c.chains (c.commits id).chainId).isActive = true
  nodes : ∀ n, ∀ x ∈ (c.treeNodes n).childChainIds, (c.chains x).isActive = true

/-- No chain, no history. -/
theorem historyInv_deploy (deployer : Address) : HistoryInv (deploy deployer) where
  kept := fun _ => ⟨fun _ => rfl, fun h => absurd h Bool.false_ne_true,
    fun h => absurd h Bool.false_ne_true⟩
  commits := fun _ h => absurd h (lt_irrefl 0)
  nodes := fun _ _ h => absurd h List.not_mem_nil

/-- Calls that touch neither chains nor the names of chains. -/
theorem historyInv_of_same {c c' : AuditContract} (hc : HistoryInv c)
    (hchains : c'.chains = c.chains) (hhistory : c'.chainStateHistory = c.chainStateHistory)
    (hcommits : ∀ id, 0 < (c'.commits id).timestamp → 0 < (c.commits id).timestamp
      ∧ (c'.commits id).chainId = (c.commits id).chainId)
    (hnodes : ∀ n, (c'.treeNodes n).childChainIds = (c.treeNodes n).childChainIds) :
    HistoryInv c' := by
  refine ⟨?_, ?_, ?_⟩
  · intro x
    rw [hchains, hhistory]
    exact hc.kept x
  · intro id hid
    obtain ⟨hfound, hchain⟩ := hcommits id hid
    rw [hchains, hchain]
    exact hc.commits id hfound
  · intro n x hx
    rw [hnodes] at hx
    rw [hchains]
    exact hc.nodes n x hx

theorem active_afterRoot (number : Nat) (chainId : AuditV1.ChainId) (root : Bytes32)
    (c : AuditContract) (x : AuditV1.ChainId) :
    ((afterRoot number chainId root c).chains x).isActive = (c.chains x).isActive := by
  unfold afterRoot
  dsimp only
  by_cases hx : x = chainId
  · rw [hx, update_self]
  · rw [update_of_ne hx]

/-- **A root added to an active chain.** -/
theorem historyInv_root {number : Nat} {chainId : AuditV1.ChainId} {root : Bytes32}
    {c : AuditContract} (hc : HistoryInv c) (hactive : (c.chains chainId).isActive = true) :
    HistoryInv (afterRoot number chainId root c) := by
  refine ⟨?_, ?_, ?_⟩
  · intro x
    show Kept (update c.chains chainId _ x)
      (update c.chainStateHistory chainId _ x)
    by_cases hx : x = chainId
    · rw [hx, update_self, update_self]
      exact (hc.kept chainId).root hactive root number
    · rw [update_of_ne hx, update_of_ne hx]
      exact hc.kept x
  · intro id hid
    rw [active_afterRoot]
    exact hc.commits id hid
  · intro n x hx
    rw [active_afterRoot]
    exact hc.nodes n x hx

/-- The loop over the child chains, whichever they are, as long as they are active. -/
theorem historyInv_roots {number : Nat} (entries : List (AuditV1.ChainId × Bytes32)) :
    ∀ {c c' : AuditContract}, HistoryInv c →
      (∀ entry ∈ entries, (c.chains entry.1).isActive = true) →
      advanceRoots number entries c = .ok c' → HistoryInv c' := by
  unfold advanceRoots
  induction entries with
  | nil =>
    intro c c' hc _ h
    rw [List.foldlM_nil, pure_eq_ok] at h
    rw [← h]
    exact hc
  | cons entry entries ih =>
    intro c c' hc hactive h
    rw [List.foldlM_cons, bind_eq_ok] at h
    obtain ⟨c₁, hfirst, hrest⟩ := h
    obtain ⟨-, rfl⟩ := advanceRoot_eq_ok.mp hfirst
    refine ih (historyInv_root hc (hactive entry List.mem_cons_self)) ?_ hrest
    -- a chain listed again further on is still active
    intro later hlater
    rw [active_afterRoot]
    exact hactive later (List.mem_cons_of_mem entry hlater)

/-- A new chain starts its history. -/
theorem historyInv_registerChain {c : AuditContract} {chainId : AuditV1.ChainId}
    {initialRoot : Bytes32} {number : Nat} (hc : HistoryInv c)
    (hfresh : (c.chains chainId).isActive = false) :
    HistoryInv { c with
      chains := update c.chains chainId ⟨chainId, initialRoot, number, 0, true⟩
      chainList := c.chainList ++ [chainId]
      chainStateHistory := update c.chainStateHistory chainId
        (c.chainStateHistory chainId ++ [initialRoot]) } := by
  have hstays : ∀ x, (c.chains x).isActive = true →
      (update c.chains chainId
        (⟨chainId, initialRoot, number, 0, true⟩ : AuditV1.ChainInfo) x).isActive = true := by
    intro x hx
    by_cases hxc : x = chainId
    · rw [hxc, update_self]
    · rw [update_of_ne hxc]
      exact hx
  refine ⟨?_, ?_, ?_⟩
  · intro x
    dsimp only
    by_cases hx : x = chainId
    · rw [hx, update_self, update_self, (hc.kept chainId).unborn hfresh]
      exact kept_registered chainId initialRoot number
    · rw [update_of_ne hx, update_of_ne hx]
      exact hc.kept x
  · intro id hid
    exact hstays _ (hc.commits id hid)
  · intro n x hx
    exact hstays x (hc.nodes n x hx)

/-- A submission moves no root. -/
theorem historyInv_submit {c : AuditContract} {msg : Msg} {chainId : AuditV1.ChainId}
    {oldStateRoot newStateRoot : Bytes32} (hc : HistoryInv c)
    (hcan : CanSubmit msg chainId oldStateRoot newStateRoot c) :
    HistoryInv (afterSubmit msg chainId oldStateRoot newStateRoot c) :=
  ⟨hc.kept, active_afterSubmit hcan hc.commits, hc.nodes⟩

theorem historyInv_markVerified {c : AuditContract} {commitId : Bytes32} {proof : Proof}
    (hc : HistoryInv c) : HistoryInv (markVerified commitId proof c) := by
  refine historyInv_of_same hc rfl rfl ?_ (fun _ => rfl)
  intro id
  unfold markVerified
  dsimp only
  by_cases hid : id = commitId
  · rw [hid, update_self]
    exact fun h => ⟨h, rfl⟩
  · rw [update_of_ne hid]
    exact fun h => ⟨h, rfl⟩

theorem historyInv_reward {c : AuditContract} {committer : Address} (hc : HistoryInv c) :
    HistoryInv (afterReward committer c) :=
  ⟨hc.kept, hc.commits, hc.nodes⟩

/-- A verification moves one. -/
theorem historyInv_verify {c : AuditContract} {msg : Msg} {commitId : Bytes32} {proof : Proof}
    {pairing : PairingCheck} (hc : HistoryInv c) (hcan : CanVerify pairing msg commitId proof c) :
    HistoryInv (afterVerify msg commitId proof c) := by
  apply historyInv_reward
  apply historyInv_root (historyInv_markVerified hc)
  exact hc.commits commitId hcan.found

theorem childChains_update (treeNodes : Nat → TreeNode) (n m : Nat) (node : TreeNode)
    (h : node.childChainIds = (treeNodes n).childChainIds) :
    (update treeNodes n node m).childChainIds = (treeNodes m).childChainIds := by
  by_cases hm : m = n
  · rw [hm, update_self, h]
  · rw [update_of_ne hm]

theorem childChains_addChild (parentNodeId nodeId : Nat) (treeNodes : Nat → TreeNode) (n : Nat) :
    (addChild parentNodeId nodeId treeNodes n).childChainIds = (treeNodes n).childChainIds := by
  apply childChains_update
  rfl

/-- A node comes with active chains; its parent keeps its own. -/
theorem historyInv_create {c : AuditContract} {msg : Msg} {parentNodeId : Nat}
    {childChainIds : List AuditV1.ChainId} {committer : Address} (hc : HistoryInv c)
    (hcan : CanCreate msg parentNodeId childChainIds committer c) :
    HistoryInv (afterCreate parentNodeId childChainIds committer c) := by
  refine ⟨hc.kept, hc.commits, ?_⟩
  have hnew : ∀ n, ∀ x ∈ (update c.treeNodes c.nextNodeId
      (⟨c.nextNodeId, parentNodeId, childChainIds, [], 0, committer, true⟩ : TreeNode)
      n).childChainIds, (c.chains x).isActive = true := by
    intro n x hx
    by_cases hn : n = c.nextNodeId
    · rw [hn, update_self] at hx
      exact hcan.chains x hx
    · rw [update_of_ne hn] at hx
      exact hc.nodes n x hx
  intro n x hx
  change x ∈ (insertNode parentNodeId childChainIds committer c n).childChainIds at hx
  unfold insertNode at hx
  split at hx
  next =>
    rw [childChains_addChild] at hx
    exact hnew n x hx
  next => exact hnew n x hx

/-- An aggregated commit moves its chains'. -/
theorem historyInv_aggregate {c c₁ : AuditContract} {msg : Msg} {nodeId : Nat}
    {childRoots : List Bytes32} {aggregatedRoot : Bytes32} (hc : HistoryInv c)
    (h : advanceRoots msg.number ((c.treeNodes nodeId).childChainIds.zip childRoots) c = .ok c₁) :
    HistoryInv (afterReward msg.sender (setAggregatedRoot nodeId aggregatedRoot c₁)) := by
  have hroots : HistoryInv c₁ := by
    refine historyInv_roots _ hc ?_ h
    intro entry hentry
    exact hc.nodes nodeId entry.1 (List.of_mem_zip (show (entry.1, entry.2) ∈ _ from hentry)).1
  apply historyInv_reward
  refine historyInv_of_same hroots rfl rfl (fun _ h => ⟨h, rfl⟩) ?_
  intro n
  exact childChains_update c₁.treeNodes nodeId n _ rfl

variable {pairing : PairingCheck}

/-- **Every call.** -/
theorem historyInv_step (tx : Tx) (c c' : AuditContract) (hc : HistoryInv c)
    (h : exec pairing tx c = .ok c') : HistoryInv c' := by
  have hcommits : ∀ id, 0 < (c.commits id).timestamp →
      0 < (c.commits id).timestamp ∧ (c.commits id).chainId = (c.commits id).chainId :=
    fun _ hid => ⟨hid, rfl⟩
  cases exec_effect h with
  | registerChain fresh => exact historyInv_registerChain hc fresh
  | submitCommit guards => exact historyInv_submit hc guards
  | verifyCommit guards => exact historyInv_verify hc guards
  | createTreeNode guards => exact historyInv_create hc guards
  | submitAggregatedCommit _ _ =>
    obtain ⟨-, c₂, hroots, -, heq⟩ := submitAggregatedCommit_eq_ok.mp h
    rw [heq]
    exact historyInv_aggregate hc hroots
  | setVerifyingKey => exact historyInv_of_same hc rfl rfl hcommits (fun _ => rfl)
  | registerAuditor => exact historyInv_of_same hc rfl rfl hcommits (fun _ => rfl)
  | registerCommitter _ => exact historyInv_of_same hc rfl rfl hcommits (fun _ => rfl)
  | slashCommitter _ => exact historyInv_of_same hc rfl rfl hcommits (fun _ => rfl)
  | claimRewards _ => exact historyInv_of_same hc rfl rfl hcommits (fun _ => rfl)
  | deposit => exact historyInv_of_same hc rfl rfl hcommits (fun _ => rfl)

/-! ## §3. Histories only grow. -/

/-- The history of each chain in `c` is the beginning of the one in `c'`. -/
def Grows (c c' : AuditContract) : Prop :=
  ∀ x, c.chainStateHistory x <+: c'.chainStateHistory x

/-- An unchanged history has grown by nothing. -/
theorem Grows.of_same {c c' : AuditContract} (h : c'.chainStateHistory = c.chainStateHistory) :
    Grows c c' := by
  intro x
  rw [h]

/-- Growth composes along a run. -/
theorem Grows.trans {c c' c'' : AuditContract} (h : Grows c c') (h' : Grows c' c'') :
    Grows c c'' :=
  fun x => (h x).trans (h' x)

theorem prefix_update (history : AuditV1.ChainId → List Bytes32) (chainId : AuditV1.ChainId)
    (root : Bytes32) (x : AuditV1.ChainId) :
    history x <+: update history chainId (history chainId ++ [root]) x :=
  rel_update (R := fun old new => old <+: new) (fun _ => List.prefix_rfl) (List.prefix_append ..) x

/-- Histories only grow. -/
theorem grows_roots {number : Nat} {entries : List (AuditV1.ChainId × Bytes32)}
    {c c' : AuditContract} (h : advanceRoots number entries c = .ok c') : Grows c c' := by
  unfold advanceRoots at h
  refine foldlM_invariant (P := Grows c) ?_ entries c c' (Grows.of_same rfl) h
  intro s entry s' hs hstep
  obtain ⟨-, rfl⟩ := advanceRoot_eq_ok.mp hstep
  exact hs.trans (prefix_update s.chainStateHistory entry.1 entry.2)

/-- **No call changes an entry.** -/
theorem history_grows {tx : Tx} {c c' : AuditContract} (h : exec pairing tx c = .ok c') :
    Grows c c' := by
  cases exec_effect h with
  | registerChain fresh => exact prefix_update c.chainStateHistory _ _
  | verifyCommit guards => exact prefix_update c.chainStateHistory _ _
  | submitAggregatedCommit _ _ =>
    obtain ⟨-, c₂, hroots, -, heq⟩ := submitAggregatedCommit_eq_ok.mp h
    rw [heq]
    exact (grows_roots hroots).trans (.of_same rfl)
  | submitCommit _ => exact .of_same rfl
  | createTreeNode _ => exact .of_same rfl
  | setVerifyingKey => exact .of_same rfl
  | registerAuditor => exact .of_same rfl
  | registerCommitter _ => exact .of_same rfl
  | slashCommitter _ => exact .of_same rfl
  | claimRewards _ => exact .of_same rfl
  | deposit => exact .of_same rfl

/-! ## §4. Whole runs. -/

/-- The three fields of every active chain agree. -/
def Represented (c : AuditContract) : Prop :=
  ∀ x, (c.chains x).isActive = true →
    c.chainStateHistory x ≠ []
      ∧ (c.chainStateHistory x).getLast? = some (c.chains x).latestStateRoot
      ∧ (c.chainStateHistory x).length = (c.chains x).totalCommits + 1

/-- The invariant says it all. -/
theorem HistoryInv.represented {c : AuditContract} (h : HistoryInv c) : Represented c := by
  intro x hactive
  refine ⟨?_, (h.kept x).last hactive, (h.kept x).count hactive⟩
  intro hnil
  have hlast := (h.kept x).last hactive
  rw [hnil] at hlast
  exact nomatch hlast

/-- **The history represents the chain in every reachable state, and what it holds between two
transactions it holds for ever.**  (Inside a transaction, a call that fails takes its own
entries back.) -/
theorem root_history (pairing : PairingCheck) (deployer : Address) (moves : List (Move Tx)) :
    Represented (run (step pairing) ⟨deploy deployer, []⟩ moves).current
      ∧ ((run (step pairing) ⟨deploy deployer, []⟩ moves).frames = [] → ∀ later,
        Grows (run (step pairing) ⟨deploy deployer, []⟩ moves).current
          (run (step pairing) ⟨deploy deployer, []⟩ (moves ++ later)).current) := by
  constructor
  · exact (reentrant_invariant historyInv_step moves (historyInv_deploy deployer)).represented
  · intro hframes later
    rw [run_append]
    generalize run (step pairing) ⟨deploy deployer, []⟩ moves = s at hframes ⊢
    obtain ⟨c, frames⟩ := s
    change frames = [] at hframes
    subst hframes
    exact reentrant_invariant (P := Grows c) (fun _ _ _ hg h => hg.trans (history_grows h)) later
      (Grows.of_same rfl)

end HZKA.PsiV1
