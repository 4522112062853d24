/-
  HZKA.Relay.Wire
  ────────────
  **WHAT THE AUDIT CONTRACTS MAKE OF THE GO COMMITTER'S TRANSACTIONS.**

  `encodeSubmitCommit` writes the selector of `submitCommit` of `AuditContract` and the first
  three of its eleven words; the proof is not encoded.  `submitAggregatedCommitTx` writes two
  of eleven.

    • the whole encoding runs `submitCommit` on its arguments (`submitCommit_complete`);
    • at an `AuditContract` every such transaction reverts before the function runs, so the
      block loop never gets past the first block with a transaction (`committer_stalls`);
    • `AuditContractV2` has a `submitCommit` of another signature, and a `fallback`: the
      transaction succeeds and does nothing, and the committer takes its block for
      committed (`commits_vanish`).

  The other functions of the two contracts are parameters of the results.
-/
import HZKA.Contracts.AuditV1
import HZKA.Contracts.AuditV2
import HZKA.EVM.Calldata
import HZKA.Relay.Blocks
import HZKA.Relay.Committer

namespace HZKA.Relay.Wire

open HZKA.Lib HZKA.EVM HZKA.Groth16Verifier HZKA.Relay.Blocks Std.Do

set_option mvcgen.warning false

/-! ## §1. Every event on record is an answer. -/

variable (w : World)

/-- A transaction `submitCommit` has built. -/
structure CommitTx (c : Nat) (tx : AuditTx) : Prop where
  toAddr : tx.toAddr = w.auditContractAddr
  value : tx.value = 0
  data : ∃ oldRoot newRoot proof, tx.data = encodeSubmitCommit c oldRoot newRoot proof

/-- The call whose answer an event records. -/
def Answered : Event → Prop
  | .fetched c b block => ∃ time, w.blockByNumber time c b = .ok block
  | .parent _ _ _ => True
  | .sent c _ signedTx => CommitTx w c signedTx.tx
  | .mined c _ signedTx status =>
    CommitTx w c signedTx.tx ∧ ∃ time, w.waitMined time signedTx = .ok status
  | .processed _ _ => True

variable {w}

theorem CommitTx.of_signed {c : Nat} {tx : AuditTx} {oldRoot newRoot : Bytes32}
    {proof : ProofData} (h : tx.toAddr = w.auditContractAddr ∧ tx.value = 0
      ∧ tx.data = encodeSubmitCommit c oldRoot newRoot proof) : CommitTx w c tx :=
  ⟨h.1, h.2.1, _, _, _, h.2.2⟩

/-- What comes on record from `s₀` to `s` is answered. -/
def Grows (w : World) (s₀ s : Committer) : Prop :=
  ∃ evs, Records s₀ evs s ∧ ∀ e ∈ evs, Answered w e

theorem Grows.trans {s₀ s₁ s₂ : Committer} (h : Grows w s₀ s₁) (h' : Grows w s₁ s₂) :
    Grows w s₀ s₂ := by
  obtain ⟨evs, hrec, hevs⟩ := h
  obtain ⟨evs', hrec', hevs'⟩ := h'
  exact ⟨_, hrec.trans hrec', List.forall_mem_append.mpr ⟨hevs, hevs'⟩⟩

theorem grows_of_nil {s₀ s : Committer} (h : Records s₀ [] s) : Grows w s₀ s :=
  ⟨[], h, fun _ he => absurd he List.not_mem_nil⟩

theorem grows_of_event {s₀ s : Committer} {e : Event} (h : Records s₀ [e] s)
    (he : Answered w e) : Grows w s₀ s :=
  ⟨[e], h, List.forall_mem_singleton.mpr he⟩

theorem submitCommit_grows (c : Nat) (blockData : BlockData) (proof : ProofData)
    (s₀ : Committer) :
    ⦃fun s => ⌜s = s₀⌝⦄ submitCommit w c blockData proof
    ⦃post⟨fun _ s => ⌜Grows w s₀ s⌝, fun _ s => ⌜Grows w s₀ s⌝⟩⦄ := by
  mvcgen [submitCommit, annotate, -submitCommit_spec]
  · -- mined and reverted
    rename_i s hs signedTx s₁ hsign _ s₂ hsent _ s₃ hsend status s₄ hwait _ _ s₅ hmined
    subst hs
    have hbuilt := CommitTx.of_signed hsign.2
    exact (grows_of_event (hsign.1.after hsent) hbuilt).trans
      (grows_of_event (hsend.2.after (hwait.2.after hmined)) ⟨hbuilt, _, hwait.1⟩)
  · -- mined
    rename_i s hs signedTx s₁ hsign _ s₂ hsent _ s₃ hsend status s₄ hwait _ _ s₅ hmined
    subst hs
    have hbuilt := CommitTx.of_signed hsign.2
    exact (grows_of_event (hsign.1.after hsent) hbuilt).trans
      (grows_of_event (hsend.2.after (hwait.2.after hmined)) ⟨hbuilt, _, hwait.1⟩)
  · -- no receipt
    rename_i s hs signedTx s₁ hsign _ s₂ hsent _ s₃ hsend _ s₄ hwait
    subst hs
    exact (grows_of_event (hsign.1.after hsent) (.of_signed hsign.2)).trans
      (grows_of_nil (hsend.2.after hwait))
  · -- not sent, or so it seems
    rename_i s hs signedTx s₁ hsign _ s₂ hsent _ s₃ hsend
    subst hs
    exact (grows_of_event (hsign.1.after hsent) (.of_signed hsign.2)).trans (grows_of_nil hsend)
  · rename_i s hs _ s₁
    intro hsign
    subst hs
    exact grows_of_nil hsign

/-- Processing one block only grows. -/
theorem processBlock_grows (c b : Nat) (hb : 0 < b) (s₀ : Committer) :
    ⦃fun s => ⌜s = s₀⌝⦄ processBlock w c b
    ⦃post⟨fun _ s => ⌜Grows w s₀ s⌝, fun _ s => ⌜Grows w s₀ s⌝⟩⦄ := by
  mvcgen [processBlock, annotate, -submitCommit_spec, submitCommit_grows]
  · rename_i s hs block s₁ hfetch _ s₂ hfetched
    rw [w.numbered hfetch.1]
    exact hb
  · -- an empty block
    rename_i s hs block s₁ hfetch _ s₂ hfetched blockData _ s₃ haggregate
    subst hs
    obtain ⟨parentBlock, -, hparent, -⟩ := haggregate
    exact (grows_of_event (hfetch.2.after hfetched) ⟨_, hfetch.1⟩).trans
      (grows_of_event hparent trivial)
  · -- a block with a commit
    rename_i s hs block s₁ hfetch _ s₂ hfetched blockData _ s₃ haggregate _ s₄
    intro hsubmit
    subst hs
    obtain ⟨parentBlock, -, hparent, -⟩ := haggregate
    exact ((grows_of_event (hfetch.2.after hfetched) ⟨_, hfetch.1⟩).trans
      (grows_of_event hparent trivial)).trans hsubmit
  · -- an error in `submitCommit`
    rename_i s hs block s₁ hfetch _ s₂ hfetched blockData _ s₃ haggregate _ s₄ hsubmit
    subst hs
    obtain ⟨parentBlock, -, hparent, -⟩ := haggregate
    exact ((grows_of_event (hfetch.2.after hfetched) ⟨_, hfetch.1⟩).trans
      (grows_of_event hparent trivial)).trans hsubmit
  · rename_i s hs block s₁ hfetch _ s₂ hfetched _ s₃ haggregate
    subst hs
    exact (grows_of_event (hfetch.2.after hfetched) ⟨_, hfetch.1⟩).trans (grows_of_nil haggregate)
  · rename_i s hs _ s₁ hfetch
    subst hs
    exact grows_of_nil hfetch

variable (w) in
/-- The events on record are answered. -/
def AllAnswered (s : Committer) : Prop := ∀ e ∈ s.trace, Answered w e

theorem AllAnswered.grows {s₀ s : Committer} (h : AllAnswered w s₀) (hgrows : Grows w s₀ s) :
    AllAnswered w s := by
  obtain ⟨evs, hrec, hevs⟩ := hgrows
  unfold AllAnswered
  rw [hrec.trace]
  exact List.forall_mem_append.mpr ⟨h, hevs⟩

theorem processFrom_answered (c : Nat) (latestBlock : BlockNumber) (blockNum : Nat) (s : Committer)
    (hb : 0 < blockNum) (h : AllAnswered w s) : AllAnswered w (processFrom w c latestBlock blockNum s) := by
  -- the loop's own recursion
  induction blockNum, s using processFrom.induct w c latestBlock with
  | case1 blockNum s hle e s' hrun =>
    rw [processFrom, dif_pos hle, hrun]
    exact h.grows (outcome_of_triple (processBlock_grows c blockNum hb s) hrun)
  | case2 blockNum s hle u s' hrun ih =>
    rw [processFrom, dif_pos hle, hrun]
    have hgrown := h.grows (outcome_of_triple (processBlock_grows c blockNum hb s) hrun)
    have hlt := latestBlock.isLt
    refine ih ?_ ?_
    · rw [Nat.mod_eq_of_lt (by omega)]
      omega
    · exact List.forall_mem_append.mpr ⟨hgrown, List.forall_mem_singleton.mpr trivial⟩
  | case3 blockNum s hgt =>
    rw [processFrom, dif_neg hgt]
    exact h

/-- One chain leaves all answered. -/
theorem processChain_answered {s : Committer} (h : AllAnswered w s) (c : Nat) :
    AllAnswered w (processChain w s c) := by
  unfold processChain
  split
  · exact h
  · split
    · exact h
    · rename_i latestBlock _
      split
      · exact h
      · rename_i hnew
        have hlt := latestBlock.isLt
        refine processFrom_answered c latestBlock _ { s with clock := s.clock + 1 } ?_ h
        rw [Nat.mod_eq_of_lt (by omega)]
        omega

/-- **Every poll** leaves all answered. -/
theorem polls_answered (w : World) (n : Nat) : AllAnswered w (polls w n) := by
  induction n with
  | zero => exact fun e he => absurd he List.not_mem_nil
  | succ n ih =>
    rw [polls_succ]
    unfold processNewBlocks
    exact List.foldlRecOn _ _ ih fun s hs c _ => processChain_answered hs c

/-! ## §2. The two contracts, called with bytes. -/

/-- The function of a commit. -/
def submitCommitSignature : List Byte :=
  ascii "submitCommit(uint256,bytes32,bytes32,uint256[2],uint256[2][2],uint256[2])"

/-- The function of an aggregated commit. -/
def submitAggregatedCommitSignature : List Byte :=
  ascii "submitAggregatedCommit(uint256,bytes32[],bytes32,uint256[2],uint256[2][2],uint256[2])"

theorem submitCommit_selector :
    selectorOf (selectorBytes submitCommitSignature) = 0xe46dcc59 := by
  decide +kernel

theorem submitAggregatedCommit_selector :
    selectorOf (selectorBytes submitAggregatedCommitSignature) = 0x28d819b7 := by
  decide +kernel

/-- `submitCommit` of `AuditContract`; the eight words of the proof are decoded and not read. -/
def submitCommitEntry : Entry AuditV1.AuditContract := fun msg value args c => do
  require (value = 0) ""
  let words ← headWords 11 args
  AuditV1.submitCommit msg (words.getD 0 0) (words.getD 1 0) (words.getD 2 0) c

/-- The proof in the eight words from the fourth. -/
def proofOf (words : List Bytes32) : Proof :=
  let x := fun i => (words.getD (3 + i) 0).toNat
  ⟨⟨x 0, x 1⟩, ⟨(x 2, x 3), (x 4, x 5)⟩, ⟨x 6, x 7⟩⟩

/-- `submitAggregatedCommit`, decoded. -/
def submitAggregatedCommitEntry (pairing : PairingCheck) : Entry AuditV1.AuditContract :=
  fun msg value args c => do
    require (value = 0) ""
    let words ← headWords 11 args
    let childRoots ← wordArray args (words.getD 1 0).toNat
    AuditV1.submitAggregatedCommit pairing msg (words.getD 0 0).toNat childRoots
      (words.getD 2 0) (proofOf words) c

/-- `AuditContract`: a `receive` and no `fallback`. -/
def auditV1 (pairing : PairingCheck) (others : List (Selector × Entry AuditV1.AuditContract)) :
    Interface AuditV1.AuditContract where
  functions := (0xe46dcc59, submitCommitEntry)
    :: (0x28d819b7, submitAggregatedCommitEntry pairing) :: others
  receive := AuditV1.deposit
  fallback := fun _ _ => .error (.require "")

/-- The selectors of `AuditContractV2`, getters included. -/
def selectorsV2 : List Selector :=
  [ 0x51d58969, -- registerChain(uint256,bytes32)
    0x3a4b66f1, -- stake()
    0xe429cef1, -- addAuditor(address)
    0xdd509198, -- submitCommit(uint256,bytes32,bytes32,uint256,uint256)
    0x58f0b780, -- weightedAuditAccept(bytes32,uint256,uint256[2],uint256[2][2],uint256[2])
    0x06222e86, -- verifyCommit(bytes32,uint256[2],uint256[2][2],uint256[2])
    0x911e1c52, -- acceptClusterCommit(bytes32,bytes32,uint256,uint256)
    0xce7d58a0, -- acceptClusterCommitLegacy(bytes32,uint256[],bytes32[])
    0x533b6788, -- enableMockVerifier()
    0x42e3d4a2, -- setVerifyingKey(uint256[2],uint256[2][2],uint256[2][2],uint256[2][2],uint256[][])
    0x1e4fba05, -- getChainRoot(uint256)
    0xf1bed7e0, -- getCommitCount()
    0x67ca7391, -- getGroupSize(bytes32)
    0x75c18eab, -- useMockVerifier()
    0x550325b5, -- chains(uint256)
    0x70d48798, -- chainList(uint256)
    0x47885781, -- commits(bytes32)
    0x8e16f159, -- commitIds(uint256)
    0x49c932b1, -- commitGroups(bytes32,uint256)
    0xc8db44e3, -- reputationRegistry()
    0x3d3a910e, -- clusterManager()
    0x6c561167, -- rewardPerCommit()
    0xcb1c2b5c, -- MIN_STAKE()
    0xf1f021cb, -- committerStakes(address)
    0x47f9aa9f, -- auditors(address)
    0x115f574c, -- auditorCount()
    0x8da5cb5b ] -- owner()

/-- `AuditContractV2`, with the rest of the audit chain: `receive` and `fallback` take the
value and do nothing else. -/
def auditV2 (entries : Selector → Entry System) : Interface System where
  functions := selectorsV2.map fun sel => (sel, entries sel)
  receive := fun value => AuditContractV2.onAudit (AuditContractV2.deposit value)
  fallback := fun value => AuditContractV2.onAudit (AuditContractV2.deposit value)

/-! ## §3. The committer's transactions. -/

/-- The data of `submitAggregatedCommitTx`: selector, node and root. -/
def encodeAggregatedCommit (agg : AggregatedCommit) : List Byte :=
  selectorBytes submitAggregatedCommitSignature ++ Bytes32.toBytes (BitVec.ofNat 256 agg.nodeId)
    ++ agg.aggregatedRoot.toBytes

theorem encodeSubmitCommit_eq (c : Nat) (oldRoot newRoot : Bytes32) (proof : ProofData) :
    encodeSubmitCommit c oldRoot newRoot proof
      = selectorBytes submitCommitSignature
        ++ encodeWords [BitVec.ofNat 256 c, oldRoot, newRoot] := by
  unfold encodeSubmitCommit encodeWords selectorBytes submitCommitSignature
  simp only [List.flatMap_cons, List.flatMap_nil, List.append_nil, List.append_assoc]

theorem encodeAggregatedCommit_eq (agg : AggregatedCommit) :
    encodeAggregatedCommit agg = selectorBytes submitAggregatedCommitSignature
      ++ encodeWords [BitVec.ofNat 256 agg.nodeId, agg.aggregatedRoot] := by
  unfold encodeAggregatedCommit encodeWords
  simp only [List.flatMap_cons, List.flatMap_nil, List.append_nil, List.append_assoc]

section V1

variable (pairing : PairingCheck) (others : List (Selector × Entry AuditV1.AuditContract))

theorem submitCommit_entry : (auditV1 pairing others).functions.lookup
    (selectorOf (selectorBytes submitCommitSignature)) = some submitCommitEntry := by
  rw [submitCommit_selector]
  rfl

/-- A commit is 96 bytes of arguments where 352 are expected. -/
theorem submitCommit_reverts (chainID : Nat) (oldRoot newRoot : Bytes32) (proof : ProofData)
    (msg : Msg) (c : AuditV1.AuditContract) :
    (auditV1 pairing others).call msg 0 (encodeSubmitCommit chainID oldRoot newRoot proof) c
      = .error (.require "") := by
  have hshort : headWords 11 (encodeWords [BitVec.ofNat 256 chainID, oldRoot, newRoot])
      = .error (.require "") := by
    refine headWords_short ?_
    rw [length_encodeWords]
    simp
  rw [encodeSubmitCommit_eq,
    call_select (length_selectorBytes _) (submitCommit_entry pairing others)]
  unfold submitCommitEntry
  rw [hshort]
  rfl

/-- With the proof encoded too, the function runs on what was encoded. -/
theorem submitCommit_complete (chainID oldRoot newRoot : Bytes32) (proof : Vector Bytes32 8)
    (msg : Msg) (c : AuditV1.AuditContract) :
    (auditV1 pairing others).call msg 0 (selectorBytes submitCommitSignature
        ++ encodeWords (chainID :: oldRoot :: newRoot :: proof.toList)) c
      = AuditV1.submitCommit msg chainID oldRoot newRoot c := by
  have hdecode := headWords_encode (chainID :: oldRoot :: newRoot :: proof.toList)
  rw [List.length_cons, List.length_cons, List.length_cons, Vector.length_toList] at hdecode
  rw [call_select (length_selectorBytes _) (submitCommit_entry pairing others)]
  unfold submitCommitEntry
  rw [hdecode]
  rfl

/-- An aggregated commit is 64 bytes of arguments where 352 are expected. -/
theorem submitAggregatedCommit_reverts (agg : AggregatedCommit) (msg : Msg)
    (c : AuditV1.AuditContract) :
    (auditV1 pairing others).call msg 0 (encodeAggregatedCommit agg) c
      = .error (.require "") := by
  have hentry : (auditV1 pairing others).functions.lookup
      (selectorOf (selectorBytes submitAggregatedCommitSignature))
        = some (submitAggregatedCommitEntry pairing) := by
    rw [submitAggregatedCommit_selector]
    rfl
  have hshort : headWords 11 (encodeWords [BitVec.ofNat 256 agg.nodeId, agg.aggregatedRoot])
      = .error (.require "") := by
    refine headWords_short ?_
    rw [length_encodeWords]
    simp
  rw [encodeAggregatedCommit_eq, call_select (length_selectorBytes _) hentry]
  unfold submitAggregatedCommitEntry
  rw [hshort]
  rfl

end V1

section V2

variable (entries : Selector → Entry System)

/-- Data behind a selector that `AuditContractV2` does not have. -/
theorem auditV2_ignores {selector args : List Byte} (hlen : selector.length = 4)
    (hnone : selectorOf selector ∉ selectorsV2) (msg : Msg) (s : System) :
    (auditV2 entries).call msg 0 (selector ++ args) s = .ok s := by
  have hlookup : (auditV2 entries).functions.lookup (selectorOf selector) = none := by
    rw [List.lookup_eq_none_iff]
    intro entry hentry
    obtain ⟨sel, hsel, rfl⟩ := List.mem_map.mp hentry
    have hne : selectorOf selector ≠ sel := fun heq => hnone (heq ▸ hsel)
    simpa using hne
  rw [call_fallback hlen hlookup]
  rfl

/-- The newer contract ignores a commit. -/
theorem submitCommit_ignored (chainID : Nat) (oldRoot newRoot : Bytes32) (proof : ProofData)
    (msg : Msg) (s : System) :
    (auditV2 entries).call msg 0 (encodeSubmitCommit chainID oldRoot newRoot proof) s = .ok s := by
  rw [encodeSubmitCommit_eq]
  refine auditV2_ignores entries (length_selectorBytes _) ?_ msg s
  rw [submitCommit_selector]
  decide

theorem submitAggregatedCommit_ignored (agg : AggregatedCommit) (msg : Msg) (s : System) :
    (auditV2 entries).call msg 0 (encodeAggregatedCommit agg) s = .ok s := by
  rw [encodeAggregatedCommit_eq]
  refine auditV2_ignores entries (length_selectorBytes _) ?_ msg s
  rw [submitAggregatedCommit_selector]
  decide

end V2

/-- **What the committer sends never reaches a function**: `AuditContract` reverts on both kinds
of commit, `AuditContractV2` takes them and does nothing.  With the eight words of the proof the
call of `AuditContract` would run. -/
theorem commits_never_decoded (pairing : PairingCheck)
    (others : List (Selector × Entry AuditV1.AuditContract)) (entries : Selector → Entry System)
    (chainID : Nat) (oldRoot newRoot : Bytes32) (proof : ProofData) (agg : AggregatedCommit)
    (msg : Msg) :
    (∀ c, (auditV1 pairing others).call msg 0 (encodeSubmitCommit chainID oldRoot newRoot proof) c
        = .error (.require "")
      ∧ (auditV1 pairing others).call msg 0 (encodeAggregatedCommit agg) c = .error (.require ""))
    ∧ (∀ s, (auditV2 entries).call msg 0 (encodeSubmitCommit chainID oldRoot newRoot proof) s = .ok s
      ∧ (auditV2 entries).call msg 0 (encodeAggregatedCommit agg) s = .ok s)
    ∧ ∀ (words : Vector Bytes32 8) (c : AuditV1.AuditContract),
      (auditV1 pairing others).call msg 0 (encodeSubmitCommit chainID oldRoot newRoot proof
          ++ encodeWords words.toList) c
        = AuditV1.submitCommit msg (BitVec.ofNat 256 chainID) oldRoot newRoot c := by
  refine ⟨fun c => ⟨submitCommit_reverts .., submitAggregatedCommit_reverts ..⟩,
    fun s => ⟨submitCommit_ignored .., submitAggregatedCommit_ignored ..⟩, ?_⟩
  intro words c
  have hdata : encodeSubmitCommit chainID oldRoot newRoot proof ++ encodeWords words.toList
      = selectorBytes submitCommitSignature ++ encodeWords
          (BitVec.ofNat 256 chainID :: oldRoot :: newRoot :: words.toList) := by
    rw [encodeSubmitCommit_eq, List.append_assoc]
    unfold encodeWords
    rw [← List.flatMap_append]
    rfl
  rw [hdata, submitCommit_complete]

/-! ## §4. The block loop against each of them. -/

/-- The audit client is a node of a chain that runs `I` at the audit contract's address: the
status of a receipt says whether the transaction went through. -/
structure Serves {σ : Type} (I : Interface σ) (w : World) : Prop where
  executed : ∀ {time signedTx status}, w.waitMined time signedTx = .ok status →
    signedTx.tx.toAddr = w.auditContractAddr → status ≠ 0 →
    ∃ msg s s', I.call msg signedTx.tx.value signedTx.tx.data s = .ok s'
  reverted : ∀ {time signedTx status}, w.waitMined time signedTx = .ok status →
    signedTx.tx.toAddr = w.auditContractAddr → status = 0 →
    ∃ msg s e, I.call msg signedTx.tx.value signedTx.tx.data s = .error e

/-- No commit goes through. -/
theorem status_eq_zero {pairing : PairingCheck}
    {others : List (Selector × Entry AuditV1.AuditContract)}
    (hserves : Serves (auditV1 pairing others) w) {n c b status : Nat} {signedTx : SignedTx}
    (hmined : .mined c b signedTx status ∈ (polls w n).trace) : status = 0 := by
  obtain ⟨⟨haddr, hvalue, oldRoot, newRoot, proof, hdata⟩, time, hwait⟩ :=
    polls_answered w n _ hmined
  by_contra hstatus
  obtain ⟨msg, s, s', hcall⟩ := hserves.executed hwait haddr hstatus
  rw [hvalue, hdata, submitCommit_reverts] at hcall
  cases hcall

/-- **The committer stalls at `AuditContract`.**  Along every sequence of polls, no commit goes
through and no chain's cursor reaches a block that has a transaction with a recoverable
sender. -/
theorem committer_stalls (pairing : PairingCheck)
    (others : List (Selector × Entry AuditV1.AuditContract))
    (hserves : Serves (auditV1 pairing others) w) {c b : Nat} (hb : 1 ≤ b)
    (hbusy : ∀ {time block}, w.blockByNumber time c b = .ok block →
      ∃ tx ∈ block.transactions, w.sender c tx ≠ none) (n : Nat) :
    (∀ c' b' signedTx status, .mined c' b' signedTx status ∈ (polls w n).trace → status = 0)
      ∧ (polls w n).state c < b := by
  refine ⟨fun c' b' signedTx status hmined => status_eq_zero hserves hmined, ?_⟩
  by_contra hpast
  have hinv := polls_inv w n
  rw [hinv.cursor, Nat.not_lt] at hpast
  obtain ⟨before, evs, after, htrace, hdone, -⟩ := hinv.now.settled hb hpast
  have hevs : ∀ e ∈ evs, e ∈ (polls w n).trace := by
    intro e he
    rw [htrace]
    simp [he]
  obtain ⟨block, parentBlock, -, -, ⟨rfl, hnone⟩ | ⟨signedTx, status, hstatus, rfl, -⟩⟩ := hdone
  · -- the block had no sender when it was fetched
    obtain ⟨time, hfetch⟩ := polls_answered w n _ (hevs (.fetched c b block) (by simp))
    obtain ⟨tx, htx, hsender⟩ := hbusy hfetch
    exact hsender (hnone tx htx)
  · -- its commit was mined and did not revert
    exact hstatus (status_eq_zero hserves (hevs (.mined c b signedTx status) (by simp)))

/-- **Commits vanish in `AuditContractV2`.**  Along every sequence of polls, a commit that is
mined is reported as a success, and leaves the registry, the cluster manager and the audit
contract as they are, whatever state they are in and whoever sends it. -/
theorem commits_vanish (entries : Selector → Entry System) (hserves : Serves (auditV2 entries) w)
    {n c b status : Nat} {signedTx : SignedTx}
    (hmined : .mined c b signedTx status ∈ (polls w n).trace) :
    status ≠ 0 ∧ ∀ (msg : Msg) (s : System),
      (auditV2 entries).call msg signedTx.tx.value signedTx.tx.data s = .ok s := by
  obtain ⟨⟨haddr, hvalue, oldRoot, newRoot, proof, hdata⟩, time, hwait⟩ :=
    polls_answered w n _ hmined
  have hcall : ∀ (msg : Msg) (s : System),
      (auditV2 entries).call msg signedTx.tx.value signedTx.tx.data s = .ok s := by
    intro msg s
    rw [hvalue, hdata]
    exact submitCommit_ignored entries c oldRoot newRoot proof msg s
  refine ⟨?_, hcall⟩
  intro hstatus
  obtain ⟨msg, s, e, herror⟩ := hserves.reverted hwait haddr hstatus
  rw [hcall msg s] at herror
  cases herror

/-! ## §5. A node with one busy chain. -/

/-- A transaction whose signature is on the curve. -/
def busyTx : Transaction := ⟨none, 0, 0, 27, 1, 1⟩

theorem recoverable_busyTx (chainID : Nat) : Recoverable chainID busyTx :=
  ⟨.inr (.inr (.inl rfl)), by decide, by decide, isAbscissa_one⟩

/-- One chain with a transaction in each of its blocks. -/
def node (receipt : SignedTx → Nat) : World where
  ordinaryChains := [1001]
  hasClient := fun _ => true
  auditContractAddr := 7
  committer := 9
  sender := fun _ tx => if tx = busyTx then some 5 else none
  signTx := fun _ _ => .ok []
  blockNumber := fun _ _ => .ok ⟨1, by decide⟩
  blockByNumber := fun _ _ b => .ok ⟨b, 0, [busyTx]⟩
  pendingNonceAt := fun _ _ => .ok 0
  suggestGasPrice := fun _ => .ok 0
  auditChainID := fun _ => .ok 1
  sendTransaction := fun _ _ => .ok ()
  waitMined := fun _ signedTx => .ok (receipt signedTx)
  numbered := by
    intro time chainID b block h
    rw [← Except.ok.inj h]
  recoverable := by
    intro chainID tx a h
    split at h
    case isTrue hbusy => exact hbusy ▸ recoverable_busyTx chainID
    case isFalse => cases h

/-- What the contract in state `s` does with a transaction. -/
def receiptOf {σ : Type} (I : Interface σ) (msg : Msg) (s : σ) (signedTx : SignedTx) : Nat :=
  if (I.call msg signedTx.tx.value signedTx.tx.data s).isOk then 1 else 0

theorem node_serves {σ : Type} (I : Interface σ) (msg : Msg) (s : σ) :
    Serves I (node (receiptOf I msg s)) := by
  refine ⟨?_, ?_⟩
  · intro time signedTx status hwait _ hstatus
    have hreceipt : receiptOf I msg s signedTx = status := Except.ok.inj hwait
    unfold receiptOf at hreceipt
    cases hcall : I.call msg signedTx.tx.value signedTx.tx.data s with
    | ok s' => exact ⟨msg, s, s', hcall⟩
    | error e =>
      rw [hcall] at hreceipt
      exact absurd hreceipt.symm hstatus
  · intro time signedTx status hwait _ hstatus
    have hreceipt : receiptOf I msg s signedTx = status := Except.ok.inj hwait
    unfold receiptOf at hreceipt
    cases hcall : I.call msg signedTx.tx.value signedTx.tx.data s with
    | ok s' =>
      rw [hcall, hstatus] at hreceipt
      cases hreceipt
    | error e => exact ⟨msg, s, e, hcall⟩

/-- A caller. -/
def sampleMsg : Msg := ⟨1, 1, 1, true⟩

theorem node_stalls :
    let w := node (receiptOf (auditV1 (idealPairing fun _ => True) []) sampleMsg (AuditV1.deploy 1))
    (∀ c' b' signedTx status, .mined c' b' signedTx status ∈ (polls w 2).trace → status = 0)
      ∧ (polls w 2).state 1001 < 1 := by
  refine committer_stalls _ [] (node_serves _ sampleMsg (AuditV1.deploy 1)) (Nat.le_refl 1) ?_ 2
  intro time block hfetch
  rw [← Except.ok.inj hfetch]
  exact ⟨_, List.mem_singleton_self _, nofun⟩

/-- The commit for block 1. -/
def nodeTx : SignedTx := ⟨⟨0, 7, 0, 500000, 0, encodeSubmitCommit 1001 0 0 ⟨[0, 0]⟩⟩, []⟩

/-- The record of block 1 where every transaction goes through. -/
theorem processBlock_node :
    (processBlock (node fun _ => 1) 1001 1).run.run ⟨fun _ => 0, 1, []⟩
      = (.ok (), ⟨fun _ => 0, 8, [.fetched 1001 1 ⟨1, 0, [busyTx]⟩,
          .parent 1001 1 ⟨0, 0, [busyTx]⟩, .sent 1001 1 nodeTx,
          .mined 1001 1 nodeTx 1]⟩) := rfl

theorem mined_node : .mined 1001 1 nodeTx 1 ∈ (polls (node fun _ => 1) 1).trace := by
  show _ ∈ (processFrom (node fun _ => 1) 1001 ⟨1, by decide⟩ 1 ⟨fun _ => 0, 1, []⟩).trace
  rw [processFrom, dif_pos (Nat.le_refl 1), processBlock_node]
  show _ ∈ (processFrom (node fun _ => 1) 1001 ⟨1, by decide⟩ 2 _).trace
  rw [processFrom, dif_neg (by decide)]
  simp

/-- Every function of the contract returns. -/
theorem serves_accepting : Serves (auditV2 fun _ _ _ _ s => .ok s) (node fun _ => 1) := by
  refine ⟨?_, ?_⟩
  · intro time signedTx status _ _ _
    refine ⟨sampleMsg, System.deploy (.all 1), ?_⟩
    unfold Interface.call
    split
    · rename_i f hf
      split at hf
      · obtain ⟨before, after, hfunctions, -⟩ := List.lookup_eq_some_iff.mp hf
        have hmem : (selectorOf signedTx.tx.data, f)
            ∈ (auditV2 fun _ _ _ _ s => .ok s).functions := by
          rw [hfunctions]
          simp
        obtain ⟨sel, -, hentry⟩ := List.mem_map.mp hmem
        obtain ⟨-, rfl⟩ := Prod.mk.inj hentry
        exact ⟨_, rfl⟩
      · cases hf
    · split
      · exact ⟨_, rfl⟩
      · exact ⟨_, rfl⟩
  · intro time signedTx status hwait _ hstatus
    cases (Except.ok.inj hwait).trans hstatus

theorem node_commit_vanishes :
    (1 : Nat) ≠ 0 ∧ ∀ (msg : Msg) (s : System),
      (auditV2 fun _ _ _ _ s => .ok s).call msg nodeTx.tx.value nodeTx.tx.data s = .ok s :=
  commits_vanish _ serves_accepting mined_node

end HZKA.Relay.Wire
