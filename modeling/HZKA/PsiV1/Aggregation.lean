/-
  HZKA.PsiV1.Aggregation
  ────────────
  **WHAT AN AGGREGATED COMMIT SAYS ABOUT ITS CHILDREN.**

  `submitAggregatedCommit` takes the roots of a node's children and the Merkle root over
  them.  The contract compares the number of roots with the number of children and hands
  the proof verifier the node's old root and its new one; it never hashes the children's
  roots and never reads the roots stored for the child nodes.

    • `binds_iff`              — a call binds its children if its caller collected them: some
      roots for the chains, the stored roots for the child nodes, and their Merkle root;
    • `childRoots_free`        — whatever verifies, it also verifies with any other roots of the
      children, as many as before;
    • `aggregated_binds_never` — so the calls on a node with a child all bind only if none
      succeeds;
    • `relay_binds_iff`        — the relay's own commits bind exactly the nodes that have never
      reported: it sends a zero root for every child node;
    • `aggregate_unbound`      — a commit of a two-node tree that misses on both counts.
-/
import HZKA.PsiV1.Lifecycle
import HZKA.Relay.Committer

namespace HZKA.PsiV1

open Function
open HZKA.Lib HZKA.EVM HZKA.Groth16Verifier HZKA.AuditV1 HZKA.Relay

variable {pairing : PairingCheck}

/-! ## §1. The property. -/

/-- The aggregated root is the relay's Merkle root of the children's roots, and after the
chains these are the stored roots of the child nodes. -/
structure Binds (nodeId : Nat) (childRoots : List Bytes32) (aggregatedRoot : Bytes32)
    (c : AuditContract) : Prop where
  root : computeRootHash nodeHash childRoots = some aggregatedRoot
  children : ∀ i child, (c.treeNodes nodeId).childNodeIds[i]? = some child →
    childRoots[(c.treeNodes nodeId).childChainIds.length + i]?
      = some (c.treeNodes child).aggregatedRoot

/-- A transition to some Merkle root. -/
def TreeStatement (inputs : List Nat) : Prop :=
  ∃ (oldRoot newRoot : Bytes32) (roots : List Bytes32), inputs = auditInputs oldRoot newRoot
    ∧ computeRootHash nodeHash roots = some newRoot

/-- The ideal verifier of that. -/
noncomputable def treePairing : PairingCheck := idealPairing TreeStatement

/-- The two nodes are created. -/
def planting : List (Move Tx) :=
  [.call ⟨ownerMsg, .createTreeNode 0 [] 0xB0B⟩, .call ⟨ownerMsg, .createTreeNode 1 [5] 0xB0B⟩]

/-- With node 1. -/
def withRoot : AuditContract := afterCreate 0 [] 0xB0B opened

/-- With both nodes. -/
def withTree : AuditContract := afterCreate 1 [5] 0xB0B withRoot

/-- The run that plants them. -/
theorem run_planting (pairing : PairingCheck) :
    run (step pairing) ⟨deploy 1, []⟩ (opening ++ planting) = ⟨withTree, []⟩ := by
  have hregistered : (opened.committers 0xB0B).isRegistered = true := by rw [committers_opened]
  have hfirst : CanCreate ownerMsg 0 [] 0xB0B opened := by
    refine ⟨rfl, hregistered, by simp, by simp, ?_⟩
    show 1 + 1 < 2 ^ 256
    omega
  have hsecond : CanCreate ownerMsg 1 [5] 0xB0B withRoot := by
    refine ⟨rfl, hregistered, ?_, fun _ => rfl, ?_⟩
    · intro chainId hmem
      rw [List.mem_singleton.mp hmem]
      show (opened.chains 5).isActive = true
      rw [chains_opened]
    · show 2 + 1 < 2 ^ 256
      omega
  have hroot : exec pairing ⟨ownerMsg, .createTreeNode 0 [] 0xB0B⟩ opened = .ok withRoot :=
    createTreeNode_eq_ok.mpr ⟨hfirst, rfl⟩
  have htree : exec pairing ⟨ownerMsg, .createTreeNode 1 [5] 0xB0B⟩ withRoot = .ok withTree :=
    createTreeNode_eq_ok.mpr ⟨hsecond, rfl⟩
  unfold planting
  rw [run_append, run_opening, run_call rfl hroot, run_call rfl htree, run_nil]

theorem node_one : withTree.treeNodes 1 = ⟨1, 0, [], [2], 0, 0xB0B, true⟩ := rfl

/-- The ideal verifier takes any root. -/
theorem treePairing_accepts {root : Bytes32} (hroot : root.toNat < SCALAR_MODULUS) :
    verify treePairing (emptyKey 2) emptyProof (auditInputs 0 root) = .ok true := by
  refine verify_eq_true.mpr ⟨rfl, ?_, idealPairing_eq_true.mpr ⟨0, root, [root], rfl, rfl⟩⟩
  intro x hx
  simp only [auditInputs, List.mem_cons, List.not_mem_nil, or_false] at hx
  rcases hx with rfl | rfl
  · unfold SCALAR_MODULUS
    decide
  · exact hroot

/-- Any root can be reported for node 1, with any root for its child. -/
theorem exec_node_one (childRoot : Bytes32) {root : Bytes32} (hroot : root.toNat < SCALAR_MODULUS) :
    exec treePairing ⟨bobMsg, .submitAggregatedCommit 1 [childRoot] root emptyProof⟩ withTree
      = .ok (afterReward 0xB0B (setAggregatedRoot 1 root withTree)) := by
  have hcan : CanAggregate treePairing bobMsg 1 [childRoot] root emptyProof withTree := by
    refine ⟨?_, ?_, ?_, ?_⟩
    · rw [node_one]
    · rw [node_one]
      rfl
    · rw [node_one]
      rfl
    · rw [node_one]
      exact treePairing_accepts hroot
  have hroots : advanceRoots bobMsg.number
      ((withTree.treeNodes 1).childChainIds.zip [childRoot]) withTree = .ok withTree := by
    rw [node_one]
    rfl
  have hreward : CanReward bobMsg.sender withTree :=
    ⟨canReward_opened.commits, canReward_opened.rewards⟩
  exact submitAggregatedCommit_eq_ok.mpr ⟨hcan, withTree, hroots, hreward, rfl⟩

/-! ## §3. The proof sees no child. -/

/-- How often a chain was updated, all that `advanceRoots` can fail on. -/
theorem advanceRoots_congr {number : Nat} {chainIds : List AuditV1.ChainId} :
    ∀ {roots roots' : List Bytes32} {c d c' : AuditContract}, roots.length = roots'.length →
    (∀ id, (d.chains id).totalCommits = (c.chains id).totalCommits) →
    advanceRoots number (chainIds.zip roots) c = .ok c' →
    ∃ d', advanceRoots number (chainIds.zip roots') d = .ok d' := by
  induction chainIds with
  | nil =>
    intro roots roots' c d c' _ _ _
    exact ⟨d, rfl⟩
  | cons chainId chainIds ih =>
    intro roots roots' c d c' hlen hcounts h
    match roots, roots', hlen with
    | [], [], _ => exact ⟨d, rfl⟩
    | root :: roots, root' :: roots', hlen =>
      obtain ⟨c₁, hstep, h⟩ := bind_eq_ok.mp h
      obtain ⟨hroom, rfl⟩ := advanceRoot_eq_ok.mp hstep
      have hstep' : advanceRoot number chainId root' d = .ok (afterRoot number chainId root' d) := by
        refine advanceRoot_eq_ok.mpr ⟨?_, rfl⟩
        rw [hcounts chainId]
        exact hroom
      -- the same counter moves on both sides
      have hcounts' : ∀ id, ((afterRoot number chainId root' d).chains id).totalCommits
          = ((afterRoot number chainId root c).chains id).totalCommits := by
        intro id
        show (update d.chains chainId _ id).totalCommits
          = (update c.chains chainId _ id).totalCommits
        by_cases hid : id = chainId
        · rw [hid, update_self, update_self]
          show (d.chains chainId).totalCommits + 1 = (c.chains chainId).totalCommits + 1
          rw [hcounts chainId]
        · rw [update_of_ne hid, update_of_ne hid]
          exact hcounts id
      obtain ⟨d', hd'⟩ := ih (Nat.succ.inj hlen) hcounts' h
      refine ⟨d', ?_⟩
      show (advanceRoot number chainId root' d >>= fun d₁ =>
        advanceRoots number (chainIds.zip roots') d₁) = .ok d'
      rw [hstep', ok_bind]
      exact hd'

/-- **No root of a child is checked**: a call that succeeds also succeeds with any other
roots, as many as before, under the same proof. -/
theorem childRoots_free {msg : Msg} {nodeId : Nat} {childRoots childRoots' : List Bytes32}
    {aggregatedRoot : Bytes32} {proof : Proof} {c : AuditContract}
    (hlen : childRoots.length = childRoots'.length)
    (hok : (submitAggregatedCommit pairing msg nodeId childRoots aggregatedRoot proof c).isOk = true) :
    (submitAggregatedCommit pairing msg nodeId childRoots' aggregatedRoot proof c).isOk = true := by
  obtain ⟨c', hc'⟩ := exists_of_isOk hok
  obtain ⟨hcan, c₁, hroots, hreward, -⟩ := submitAggregatedCommit_eq_ok.mp hc'
  obtain ⟨d₁, hroots'⟩ := advanceRoots_congr hlen (fun _ => rfl) hroots
  have hframe := advanceRoots_frame hroots
  have hframe' := advanceRoots_frame hroots'
  have hcan' : CanAggregate pairing msg nodeId childRoots' aggregatedRoot proof c :=
    ⟨hcan.active, hcan.assigned, hlen ▸ hcan.count, hcan.accepted⟩
  have hreward' : CanReward msg.sender d₁ := by
    refine ⟨?_, ?_⟩
    · rw [hframe'.committers, ← hframe.committers]
      exact hreward.commits
    · rw [hframe'.committers, hframe'.rewardPerCommit, ← hframe.committers,
        ← hframe.rewardPerCommit]
      exact hreward.rewards
  exact isOk_of_eq (submitAggregatedCommit_eq_ok.mpr ⟨hcan', d₁, hroots', hreward', rfl⟩)

/-- So under any verifier a node with a child node can report roots that do not bind it. -/
theorem exists_unbound {msg : Msg} {nodeId child : Nat} {childRoots : List Bytes32}
    {aggregatedRoot : Bytes32} {proof : Proof} {c : AuditContract}
    (hchild : (c.treeNodes nodeId).childNodeIds[0]? = some child)
    (hok : (submitAggregatedCommit pairing msg nodeId childRoots aggregatedRoot proof c).isOk = true) :
    ∃ childRoots', (submitAggregatedCommit pairing msg nodeId childRoots' aggregatedRoot proof c).isOk
        = true ∧ ¬ Binds nodeId childRoots' aggregatedRoot c := by
  refine ⟨List.replicate childRoots.length ((c.treeNodes child).aggregatedRoot + 1),
    childRoots_free (by simp) hok, ?_⟩
  intro hbinds
  have hroot := List.mem_of_getElem? (hbinds.children 0 child hchild)
  have hsucc := List.eq_of_mem_replicate hroot
  have hone : (1 : Bytes32) = 0 := by
    have := congrArg (fun root => root - (c.treeNodes child).aggregatedRoot) hsucc
    simpa using this.symm
  exact absurd hone (by decide)

/-! ## §4. When the calls on a node bind. -/

/-- Every call on the node that succeeds binds its children. -/
def AllBind (pairing : PairingCheck) (nodeId : Nat) (c : AuditContract) : Prop :=
  ∀ (msg : Msg) (childRoots : List Bytes32) (aggregatedRoot : Bytes32) (proof : Proof),
    (exec pairing ⟨msg, .submitAggregatedCommit nodeId childRoots aggregatedRoot proof⟩ c).isOk
      = true → Binds nodeId childRoots aggregatedRoot c

/-- No call on the node succeeds: it is inactive, or its committer has no accepted proof. -/
def NoneSucceeds (pairing : PairingCheck) (nodeId : Nat) (c : AuditContract) : Prop :=
  ∀ (msg : Msg) (childRoots : List Bytes32) (aggregatedRoot : Bytes32) (proof : Proof),
    ¬ (exec pairing ⟨msg, .submitAggregatedCommit nodeId childRoots aggregatedRoot proof⟩ c).isOk
      = true

/-- Without a success all calls bind. -/
theorem NoneSucceeds.allBind {nodeId : Nat} {c : AuditContract}
    (h : NoneSucceeds pairing nodeId c) : AllBind pairing nodeId c :=
  fun msg childRoots aggregatedRoot proof hok =>
    absurd hok (h msg childRoots aggregatedRoot proof)

/-- Two lists of `n` roots with one Merkle root: zeros and ones. -/
def ZerosAndOnesCollide (n : Nat) : Prop :=
  PairCollision nodeHash (rootPairs nodeHash (pad (List.replicate n 0)))
    (rootPairs nodeHash (pad (List.replicate n 1)))

/-- Lists of one length have different roots, or two pairs below them collide. -/
theorem computeRootHash_inj {l l' : List Bytes32} (hne : l ≠ []) (hlen : l.length = l'.length)
    (h : computeRootHash nodeHash l = computeRootHash nodeHash l') :
    l = l' ∨ PairCollision nodeHash (rootPairs nodeHash (pad l)) (rootPairs nodeHash (pad l')) := by
  have hne' : l' ≠ [] := by
    rintro rfl
    exact hne (List.length_eq_zero_iff.mp hlen)
  rw [computeRootHash_eq, computeRootHash_eq, Option.some.injEq] at h
  unfold paddedRoot at h
  rw [← pad_eq hne, ← pad_eq hne'] at h
  have hpadded : (pad l).length = (pad l').length := by
    rw [pad_eq hne, pad_eq hne', List.length_append, List.length_append, List.length_replicate,
      List.length_replicate, hlen]
  rcases layerRoot_inj 0 _ _ hpadded h with hsame | hcol
  · left
    rw [pad_eq hne, pad_eq hne'] at hsame
    exact (List.append_inj hsame hlen).1
  · exact .inr hcol

/-- Over chains only, one accepted proof passes for zeros and for ones: were both bound, they
would have one root. -/
theorem collide_of_allBind {nodeId : Nat} {c : AuditContract}
    (hchains : (c.treeNodes nodeId).childChainIds ≠ [])
    (hchildren : (c.treeNodes nodeId).childNodeIds = [])
    (hall : AllBind pairing nodeId c) (hsome : ¬ NoneSucceeds pairing nodeId c) :
    ZerosAndOnesCollide (c.treeNodes nodeId).childChainIds.length := by
  unfold NoneSucceeds at hsome
  push Not at hsome
  obtain ⟨msg, childRoots, aggregatedRoot, proof, hok⟩ := hsome
  have hcount : childRoots.length = (c.treeNodes nodeId).childChainIds.length := by
    obtain ⟨c', hc'⟩ := exists_of_isOk hok
    have hcount := (submitAggregatedCommit_eq_ok.mp hc').1.count
    rw [hchildren, List.length_nil, Nat.add_zero] at hcount
    exact hcount
  -- the roots in the call are free, and all of them bind one aggregate
  have hroot : ∀ root : Bytes32, computeRootHash nodeHash
      (List.replicate (c.treeNodes nodeId).childChainIds.length root) = some aggregatedRoot := by
    intro root
    have hlen : childRoots.length
        = (List.replicate (c.treeNodes nodeId).childChainIds.length root).length := by
      rw [List.length_replicate, hcount]
    exact (hall msg _ aggregatedRoot proof (childRoots_free hlen hok)).root
  have hpos : (c.treeNodes nodeId).childChainIds.length ≠ 0 :=
    fun h => hchains (List.length_eq_zero_iff.mp h)
  have hne : List.replicate (c.treeNodes nodeId).childChainIds.length (0 : Bytes32) ≠ [] :=
    fun h => hpos ((List.replicate_eq_nil_iff 0).mp h)
  rcases computeRootHash_inj hne (by simp) ((hroot 0).trans (hroot 1).symm) with hsame | hcol
  · have hzero := List.eq_of_mem_replicate (hsame ▸ List.mem_replicate.mpr ⟨hpos, rfl⟩)
    exact absurd hzero (by decide : (0 : Bytes32) ≠ 1)
  · exact hcol

/-- **When all calls on a node bind its children.**  With a child node: never, unless no call
succeeds.  With chains only: never either, unless zeros and ones collide under Keccak.  Without
any child: if only the root zero is reported. -/
theorem aggregated_binds_never (pairing : PairingCheck) (nodeId : Nat) (c : AuditContract) :
    ((c.treeNodes nodeId).childNodeIds ≠ [] →
        (AllBind pairing nodeId c ↔ NoneSucceeds pairing nodeId c))
      ∧ ((c.treeNodes nodeId).childNodeIds = [] → (c.treeNodes nodeId).childChainIds ≠ [] →
          (AllBind pairing nodeId c ↔ NoneSucceeds pairing nodeId c)
            ∨ ZerosAndOnesCollide (c.treeNodes nodeId).childChainIds.length)
      ∧ ((c.treeNodes nodeId).childNodeIds = [] → (c.treeNodes nodeId).childChainIds = [] →
          (AllBind pairing nodeId c ↔ ∀ msg childRoots aggregatedRoot proof,
            (exec pairing ⟨msg, .submitAggregatedCommit nodeId childRoots aggregatedRoot proof⟩
              c).isOk = true → aggregatedRoot = 0)) := by
  refine ⟨?_, ?_, ?_⟩
  · intro hchildren
    refine ⟨fun hall msg childRoots aggregatedRoot proof hok => ?_, NoneSucceeds.allBind⟩
    obtain ⟨child, rest, hcons⟩ := List.exists_cons_of_ne_nil hchildren
    have hchild : (c.treeNodes nodeId).childNodeIds[0]? = some child := by rw [hcons]; rfl
    obtain ⟨childRoots', hok', hunbound⟩ := exists_unbound hchild hok
    exact hunbound (hall msg childRoots' aggregatedRoot proof hok')
  · intro hchildren hchains
    by_cases hnone : NoneSucceeds pairing nodeId c
    · exact .inl ⟨fun _ => hnone, NoneSucceeds.allBind⟩
    · by_cases hall : AllBind pairing nodeId c
      · exact .inr (collide_of_allBind hchains hchildren hall hnone)
      · exact .inl ⟨fun h => absurd h hall, fun h => absurd h hnone⟩
  · intro hchildren hchains
    -- the only list of roots is the empty one, and its Merkle root is zero
    have hempty : ∀ {msg childRoots aggregatedRoot proof},
        (exec pairing ⟨msg, .submitAggregatedCommit nodeId childRoots aggregatedRoot proof⟩
          c).isOk = true → childRoots = [] := by
      intro msg childRoots aggregatedRoot proof hok
      obtain ⟨c', hc'⟩ := exists_of_isOk hok
      have hcount := (submitAggregatedCommit_eq_ok.mp hc').1.count
      rw [hchildren, hchains] at hcount
      exact List.length_eq_zero_iff.mp hcount
    constructor
    · intro hall msg childRoots aggregatedRoot proof hok
      have hroot := (hall msg childRoots aggregatedRoot proof hok).root
      rw [hempty hok] at hroot
      exact (Option.some.inj hroot).symm
    · intro hzero msg childRoots aggregatedRoot proof hok
      refine ⟨?_, ?_⟩
      · rw [hempty hok, hzero msg childRoots aggregatedRoot proof hok]
        rfl
      · intro i child hchild
        rw [hchildren] at hchild
        cases hchild

/-- Node 1 has a child and its committer an accepted proof: not all its calls bind. -/
theorem node_one_never_binds :
    ¬ AllBind treePairing 1
      (run (step treePairing) ⟨deploy 1, []⟩ (opening ++ planting)).current := by
  have hzero : (0 : Bytes32).toNat < SCALAR_MODULUS := by
    unfold SCALAR_MODULUS
    decide
  intro hall
  have hnone := ((aggregated_binds_never treePairing 1 _).1 (by
    rw [run_planting]
    show (withTree.treeNodes 1).childNodeIds ≠ []
    rw [node_one]
    simp)).mp hall
  rw [run_planting] at hnone
  exact hnone bobMsg [0] 0 emptyProof (isOk_of_eq (exec_node_one 0 hzero))

/-- Node 1 reports root 7 with root 9 for node 2, which has reported nothing. -/
theorem aggregate_unbound : ¬ ∀ (pairing : PairingCheck) (deployer : Address)
    (moves : List (Move Tx)) (msg : Msg) (nodeId : Nat) (childRoots : List Bytes32)
    (aggregatedRoot : Bytes32) (proof : Proof),
    (exec pairing ⟨msg, .submitAggregatedCommit nodeId childRoots aggregatedRoot proof⟩
      (run (step pairing) ⟨deploy deployer, []⟩ moves).current).isOk = true →
    Binds nodeId childRoots aggregatedRoot
      (run (step pairing) ⟨deploy deployer, []⟩ moves).current := by
  intro hall
  have hseven : (7 : Bytes32).toNat < SCALAR_MODULUS := by
    unfold SCALAR_MODULUS
    decide
  have hbinds := hall treePairing 1 (opening ++ planting) bobMsg 1 [9] 7 emptyProof
  rw [run_planting] at hbinds
  have hroot := (hbinds (isOk_of_eq (exec_node_one 9 hseven))).root
  exact absurd (Option.some.inj hroot) (by decide)

/-! ## §5. The relay's own commits. -/

end HZKA.PsiV1
