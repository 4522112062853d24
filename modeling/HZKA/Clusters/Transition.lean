/-
  HZKA.Clusters.Transition
  ────────────
  **WHAT ONE CALL OF THE CLUSTER MANAGER DOES.**

  The checked do-blocks of `ClusterManager` are opened here once.

    • `electHead_eq_ok`, `drawHead_mem` — an election sets some member as head;
    • `Reelected`, `electAll_reelected` — the loop of elections after a reshuffle:
      nothing but heads and election rounds changes;
    • `Effect`, `exec_effect` — one line per call: the guards it passed and the state
      it left.
-/
import HZKA.Contracts.ClusterManager

namespace HZKA.ClusterManager

open Function
open HZKA.Lib HZKA.EVM

/-! ## §1. Elections. -/

/-- The walk ends on a listed address, or on the default. -/
theorem walk_mem {reg : ReputationRegistry} {rand : Nat} {winner head : Address}
    {members : List Address} {cumulative : Nat}
    (h : walk reg rand winner members cumulative = .ok head) : head = winner ∨ head ∈ members := by
  induction members generalizing cumulative with
  | nil => exact Or.inl (Except.ok.inj h).symm
  | cons m rest ih =>
    obtain ⟨w, -, h⟩ := bind_eq_ok.mp h
    obtain ⟨next, -, h⟩ := bind_eq_ok.mp h
    split at h
    next =>
      rw [pure_eq_ok] at h
      exact Or.inr (by rw [← h]; exact List.mem_cons_self ..)
    next =>
      rcases ih h with hw | hm
      · exact Or.inl hw
      · exact Or.inr (List.mem_cons_of_mem _ hm)

theorem headD_mem {l : List Address} (h : l.length > 0) (d : Address) : l.headD d ∈ l := by
  cases l with
  | nil => exact absurd h (by simp)
  | cons a l => exact List.mem_cons_self ..

/-- **The winner is a member.** -/
theorem drawHead_mem {ctx : Ctx} {clusterId : Nat} {reg : ReputationRegistry}
    {cm : ClusterManager} {head : Address} (h : drawHead ctx clusterId reg cm = .ok head) :
    head ∈ (cm.clusters clusterId).members := by
  obtain ⟨_, hlen, h⟩ := bind_eq_ok.mp h
  have hfirst := headD_mem (require_eq_ok.mp hlen) 0
  obtain ⟨total, -, h⟩ := bind_eq_ok.mp h
  split at h
  next =>
    rw [pure_eq_ok] at h
    rw [← h]
    exact hfirst
  next =>
    obtain ⟨parent, -, h⟩ := bind_eq_ok.mp h
    rcases walk_mem h with hw | hm
    · rw [hw]
      exact hfirst
    · exact hm

/-- An election stores the head drawn. -/
theorem electHead_eq_ok {ctx : Ctx} {clusterId : Nat} {reg : ReputationRegistry}
    {cm cm' : ClusterManager} :
    electHead ctx clusterId reg cm = .ok cm'
      ↔ ∃ head, drawHead ctx clusterId reg cm = .ok head ∧ cm' = setHead clusterId head cm := by
  unfold electHead
  rw [bind_eq_ok]
  exact exists_congr (fun head => and_congr_right (fun _ => pure_eq_ok.trans eq_comm))

/-- The first loop computes the sum of the weights, if it fits. -/
theorem totalWeight_iff {reg : ReputationRegistry} {members : List Address} {w : Address → Nat}
    {total : Nat} (hw : ∀ m ∈ members, reg.getElectionWeight m = .ok (w m)) :
    totalWeight members reg = .ok total
      ↔ (members.map w).sum < 2 ^ 256 ∧ (members.map w).sum = total := by
  unfold totalWeight
  rw [foldlM_sum_iff members (w := w)]
  · rw [Nat.zero_add]
  · intro acc m hm _
    rw [hw m hm]
    rfl
  · norm_num

/-- From block 1 on there is a previous block. -/
theorem previousBlockhash_ok {ctx : Ctx} (hblock : 1 ≤ ctx.msg.number) :
    ctx.previousBlockhash = .ok ctx.parentHash := by
  unfold Ctx.previousBlockhash
  rw [subU256_eq_ok.mpr ⟨hblock, rfl⟩]
  rfl

/-- A sole member is elected whatever its weight and the seed. -/
theorem drawHead_singleton {ctx : Ctx} {clusterId : Nat} {reg : ReputationRegistry}
    {cm : ClusterManager} {m : Address} {w : Nat} (hmembers : (cm.clusters clusterId).members = [m])
    (hw : reg.getElectionWeight m = .ok w) (hrange : w < 2 ^ 256) (hblock : 1 ≤ ctx.msg.number) :
    drawHead ctx clusterId reg cm = .ok m := by
  have hsum : addU256 0 w = .ok w := by
    have h := addU256_eq_ok (a := 0) (b := w) (r := w)
    rw [Nat.zero_add] at h
    exact h.mpr ⟨hrange, rfl⟩
  have htotal : totalWeight [m] reg = .ok w := by
    apply (totalWeight_iff (w := fun _ => w) _).mpr
    · exact ⟨hrange, Nat.add_zero w⟩
    · intro a ha
      rw [List.mem_singleton.mp ha, hw]
  unfold drawHead
  rw [hmembers, require_bind (by simp), htotal, ok_bind]
  split
  next => rfl
  next =>
    rw [previousBlockhash_ok hblock, ok_bind]
    unfold walk
    rw [hw, ok_bind, hsum, ok_bind]
    split
    next => rfl
    next => rfl

@[simp] theorem clusters_setHead_self (clusterId : Nat) (head : Address) (cm : ClusterManager) :
    (setHead clusterId head cm).clusters clusterId
      = { cm.clusters clusterId with
          clusterHead := head
          lastElectionRound := cm.currentRound } :=
  update_self ..

theorem clusters_setHead_of_ne {c clusterId : Nat} (h : c ≠ clusterId) (head : Address)
    (cm : ClusterManager) : (setHead clusterId head cm).clusters c = cm.clusters c :=
  update_of_ne h _ _

@[simp] theorem assigned_setHead (clusterId : Nat) (head : Address) (cm : ClusterManager) (c : Nat) :
    ((setHead clusterId head cm).clusters c).assignedChainIds
      = (cm.clusters c).assignedChainIds := by
  by_cases hc : c = clusterId
  · rw [hc, clusters_setHead_self]
  · rw [clusters_setHead_of_ne hc]

/-- `cm'` is `cm` after elections in the clusters `ids`. -/
structure Reelected (ids : List Nat) (cm cm' : ClusterManager) : Prop where
  shape : cm' = { cm with clusters := cm'.clusters }
  kept : ∀ c, cm'.clusters c
    = { cm.clusters c with
        clusterHead := (cm'.clusters c).clusterHead
        lastElectionRound := (cm'.clusters c).lastElectionRound }
  other : ∀ c, c ∉ ids → cm'.clusters c = cm.clusters c
  elected : ∀ c ∈ ids, (cm'.clusters c).lastElectionRound = cm.currentRound

theorem Reelected.refl (cm : ClusterManager) : Reelected [] cm cm :=
  ⟨rfl, fun _ => rfl, fun _ _ => rfl, fun _ h => absurd h List.not_mem_nil⟩

theorem Reelected.cons {cid : Nat} {ids : List Nat} {head : Address} {cm cm' : ClusterManager}
    (h : Reelected ids (setHead cid head cm) cm') : Reelected (cid :: ids) cm cm' := by
  refine ⟨?_, ?_, ?_, ?_⟩
  · rw [h.shape]
    rfl
  · intro c
    rw [h.kept c]
    by_cases hc : c = cid
    · subst hc
      rw [clusters_setHead_self]
    · rw [clusters_setHead_of_ne hc]
  · intro c hc
    rw [List.mem_cons, not_or] at hc
    rw [h.other c hc.2, clusters_setHead_of_ne hc.1]
  · intro c hc
    by_cases hin : c ∈ ids
    · exact h.elected c hin
    · rcases List.mem_cons.mp hc with rfl | hin'
      · rw [h.other c hin, clusters_setHead_self]
      · exact absurd hin' hin

/-- **The election loop.** -/
theorem electAll_reelected {ctx : Ctx} {ids : List Nat} {reg : ReputationRegistry}
    {cm cm' : ClusterManager} (h : electAll ctx ids reg cm = .ok cm') : Reelected ids cm cm' := by
  unfold electAll at h
  induction ids generalizing cm with
  | nil =>
    rw [List.foldlM_nil, pure_eq_ok] at h
    rw [← h]
    exact Reelected.refl cm
  | cons cid ids ih =>
    rw [List.foldlM_cons, bind_eq_ok] at h
    obtain ⟨cm₁, hfirst, hrest⟩ := h
    obtain ⟨head, -, rfl⟩ := electHead_eq_ok.mp hfirst
    exact (ih hrest).cons

/-! ## §2. The states calls leave. -/

/-- The state a join leaves. -/
def afterMember (clusterId : Nat) (member : Address) (cm : ClusterManager) : ClusterManager :=
  { cm with
    clusters := update cm.clusters clusterId
      { cm.clusters clusterId with members := (cm.clusters clusterId).members ++ [member] } }

/-- The state a cluster commit leaves. -/
def afterSubmit (ctx : Ctx) (clusterId : Nat) (chainRoots : List Bytes32) (cm : ClusterManager) :
    ClusterManager :=
  { cm with
    clusterCommits := update cm.clusterCommits (newCommitKey ctx clusterId chainRoots cm)
      (newClusterCommit ctx clusterId chainRoots cm)
    commitHistory := cm.commitHistory ++ [newCommitKey ctx clusterId chainRoots cm]
    clusters := update cm.clusters clusterId
      { cm.clusters clusterId with
        totalProofsAggregated := (cm.clusters clusterId).totalProofsAggregated + 1 }
    chainSubmittedInRound :=
      markChainsSubmitted (cm.clusters clusterId).assignedChainIds cm.currentRound
        cm.chainSubmittedInRound
    submittedChains := update cm.submittedChains (newCommitKey ctx clusterId chainRoots cm)
      (cm.clusters clusterId).assignedChainIds }

/-- The guards of `submitClusterCommit`. -/
structure CanSubmit (ctx : Ctx) (clusterId : Nat) (chainRoots : List Bytes32)
    (cm : ClusterManager) : Prop where
  active : (cm.clusters clusterId).isActive = true
  head : ctx.msg.sender = (cm.clusters clusterId).clusterHead
  count : chainRoots.length = (cm.clusters clusterId).assignedChainIds.length
  room : (cm.clusters clusterId).totalProofsAggregated + 1 < 2 ^ 256

/-- A submission succeeds iff it may. -/
theorem submitClusterCommit_eq_ok {ctx : Ctx} {clusterId : Nat} {chainRoots : List Bytes32}
    {cm cm' : ClusterManager} :
    submitClusterCommit ctx clusterId chainRoots cm = .ok cm'
      ↔ CanSubmit ctx clusterId chainRoots cm ∧ cm' = afterSubmit ctx clusterId chainRoots cm := by
  constructor
  · intro h
    obtain ⟨_, hactive, h⟩ := bind_eq_ok.mp h
    obtain ⟨_, hhead, h⟩ := bind_eq_ok.mp h
    obtain ⟨_, hcount, h⟩ := bind_eq_ok.mp h
    obtain ⟨total, htotal, h⟩ := bind_eq_ok.mp h
    obtain ⟨hroom, rfl⟩ := addU256_eq_ok.mp htotal
    rw [require_eq_ok] at hactive hhead hcount
    exact ⟨⟨hactive, hhead, hcount, hroom⟩, (pure_eq_ok.mp h).symm⟩
  · rintro ⟨⟨hactive, hhead, hcount, hroom⟩, rfl⟩
    rw [submitClusterCommit, require_bind hactive, require_bind hhead, require_bind hcount,
      addU256_eq_ok.mpr ⟨hroom, rfl⟩]
    rfl

/-- The records after a submission. -/
theorem commits_afterSubmit_self (ctx : Ctx) (clusterId : Nat) (chainRoots : List Bytes32)
    (cm : ClusterManager) :
    (afterSubmit ctx clusterId chainRoots cm).clusterCommits
          (newCommitKey ctx clusterId chainRoots cm)
        = newClusterCommit ctx clusterId chainRoots cm
      ∧ (afterSubmit ctx clusterId chainRoots cm).submittedChains
          (newCommitKey ctx clusterId chainRoots cm)
        = (cm.clusters clusterId).assignedChainIds :=
  ⟨update_self .., update_self ..⟩

theorem commits_afterSubmit_of_ne {ctx : Ctx} {clusterId : Nat} {chainRoots : List Bytes32}
    {id : Bytes32} (cm : ClusterManager) (h : id ≠ newCommitKey ctx clusterId chainRoots cm) :
    (afterSubmit ctx clusterId chainRoots cm).clusterCommits id = cm.clusterCommits id
      ∧ (afterSubmit ctx clusterId chainRoots cm).submittedChains id = cm.submittedChains id :=
  ⟨update_of_ne h .., update_of_ne h ..⟩

/-- A verification changes one flag. -/
theorem commits_markVerified (commitId id : Bytes32) (cm : ClusterManager) :
    (markVerified commitId cm).clusterCommits id
      = { cm.clusterCommits id with
          isVerified := ((markVerified commitId cm).clusterCommits id).isVerified } := by
  by_cases h : id = commitId
  · have hself : (markVerified commitId cm).clusterCommits id
        = { cm.clusterCommits id with isVerified := true } := by
      rw [h]
      exact update_self ..
    rw [hself]
  · have hother : (markVerified commitId cm).clusterCommits id = cm.clusterCommits id :=
      update_of_ne h ..
    rw [hother]

theorem isVerified_markVerified (commitId : Bytes32) (cm : ClusterManager) :
    ((markVerified commitId cm).clusterCommits commitId).isVerified = true := by
  have hself : (markVerified commitId cm).clusterCommits commitId
      = { cm.clusterCommits commitId with isVerified := true } := update_self ..
  rw [hself]

/-- The record `fileDAChallenge` writes. -/
def newChallenge (ctx : Ctx) (clusterId : Nat) (missingChainId : ChainId) (round : Nat)
    (cm : ClusterManager) : DataAvailabilityChallenge where
  challenger := ctx.msg.sender
  clusterId := clusterId
  missingChainId := missingChainId
  round := round
  filedAt := cm.currentRound
  resolved := false
  valid := false

/-- The state a challenge leaves. -/
def afterFile (ctx : Ctx) (clusterId : Nat) (missingChainId : ChainId) (round : Nat)
    (cm : ClusterManager) : ClusterManager :=
  { cm with
    challenges := update cm.challenges
      (challengeKey clusterId missingChainId round ctx.msg.sender)
      (newChallenge ctx clusterId missingChainId round cm)
    challengeIds := cm.challengeIds ++ [challengeKey clusterId missingChainId round ctx.msg.sender] }

theorem challenges_afterFile (ctx : Ctx) (clusterId : Nat) (missingChainId : ChainId) (round : Nat)
    (cm : ClusterManager) :
    (afterFile ctx clusterId missingChainId round cm).challenges
        (challengeKey clusterId missingChainId round ctx.msg.sender)
      = newChallenge ctx clusterId missingChainId round cm :=
  update_self ..

theorem challenges_afterFile_of_ne {ctx : Ctx} {clusterId : Nat} {missingChainId : ChainId}
    {round : Nat} {id : Bytes32} (cm : ClusterManager)
    (h : id ≠ challengeKey clusterId missingChainId round ctx.msg.sender) :
    (afterFile ctx clusterId missingChainId round cm).challenges id = cm.challenges id :=
  update_of_ne h ..

/-- The guards of `fileDAChallenge`. -/
structure CanFile (ctx : Ctx) (clusterId : Nat) (missingChainId : ChainId) (round : Nat)
    (cm : ClusterManager) : Prop where
  window : cm.currentRound ≤ round + CHALLENGE_WINDOW
  range : round + CHALLENGE_WINDOW < 2 ^ 256
  active : (cm.clusters clusterId).isActive = true
  assigned : missingChainId ∈ (cm.clusters clusterId).assignedChainIds
  missing : cm.chainSubmittedInRound round missingChainId = false
  unresolved : (cm.challenges
    (challengeKey clusterId missingChainId round ctx.msg.sender)).resolved = false

/-- A challenge is filed iff it may be. -/
theorem fileDAChallenge_eq_ok {ctx : Ctx} {clusterId : Nat} {missingChainId : ChainId}
    {round : Nat} {cm cm' : ClusterManager} :
    fileDAChallenge ctx clusterId missingChainId round cm = .ok cm'
      ↔ CanFile ctx clusterId missingChainId round cm
        ∧ cm' = afterFile ctx clusterId missingChainId round cm := by
  constructor
  · intro h
    obtain ⟨last, hlast, h⟩ := bind_eq_ok.mp h
    obtain ⟨hrange, rfl⟩ := addU256_eq_ok.mp hlast
    obtain ⟨_, hwindow, h⟩ := bind_eq_ok.mp h
    obtain ⟨_, hactive, h⟩ := bind_eq_ok.mp h
    obtain ⟨_, hassigned, h⟩ := bind_eq_ok.mp h
    obtain ⟨_, hmissing, h⟩ := bind_eq_ok.mp h
    obtain ⟨_, hopen, h⟩ := bind_eq_ok.mp h
    rw [require_eq_ok] at hwindow hactive hassigned hmissing hopen
    exact ⟨⟨hwindow, hrange, hactive, hassigned, hmissing, hopen⟩, (pure_eq_ok.mp h).symm⟩
  · rintro ⟨⟨hwindow, hrange, hactive, hassigned, hmissing, hopen⟩, rfl⟩
    rw [fileDAChallenge, addU256_eq_ok.mpr ⟨hrange, rfl⟩, ok_bind, require_bind hwindow,
      require_bind hactive, require_bind hassigned, require_bind hmissing, require_bind hopen]
    rfl

/-- The manager as a reshuffle leaves it to its elections. -/
def afterDeal (shuffled : List ChainId) (cm : ClusterManager) : ClusterManager :=
  { deal cm.clusterIds 0 shuffled (clearAssignments cm) with currentEpoch := cm.currentEpoch + 1 }

/-- The assignment loop writes to the clusters and the reverse map only. -/
theorem deal_shape (ids : List Nat) (i : Nat) (l : List ChainId) (cm : ClusterManager) :
    deal ids i l cm
      = { cm with
          clusters := (deal ids i l cm).clusters
          chainToCluster := (deal ids i l cm).chainToCluster } := by
  induction l generalizing i cm with
  | nil => rfl
  | cons x rest ih => exact ih (i + 1) (assignChain (roundRobin ids i) x cm)

/-- A reshuffle writes to clusters, reverse map and epoch only. -/
theorem Reelected.shape_afterDeal {ids : List Nat} {shuffled : List ChainId}
    {cm cm' : ClusterManager} (h : Reelected ids (afterDeal shuffled cm) cm') :
    cm' = { cm with
      clusters := cm'.clusters
      chainToCluster := cm'.chainToCluster
      currentEpoch := cm'.currentEpoch } := by
  have hdeal := deal_shape cm.clusterIds 0 shuffled (clearAssignments cm)
  rw [h.shape, afterDeal, hdeal]
  rfl

/-- What a successful call did: a permutation was dealt, and heads were elected. -/
theorem reshuffleWith_ok {hash : List Byte → Bytes32} {ctx : Ctx} {allChainIds : List ChainId}
    {reg : ReputationRegistry} {cm cm' : ClusterManager}
    (h : reshuffleWith hash ctx allChainIds reg cm = .ok cm') :
    ctx.msg.sender = cm.owner ∧ cm.clusterIds.length > 0
      ∧ ∃ shuffled, shuffled.Perm allChainIds
        ∧ electAll ctx cm.clusterIds reg (afterDeal shuffled cm) = .ok cm' := by
  obtain ⟨_, howner, h⟩ := bind_eq_ok.mp h
  obtain ⟨next, hnext, h⟩ := bind_eq_ok.mp h
  obtain ⟨-, rfl⟩ := addU256_eq_ok.mp hnext
  obtain ⟨_, -, h⟩ := bind_eq_ok.mp h
  obtain ⟨_, -, h⟩ := bind_eq_ok.mp h
  obtain ⟨_, -, h⟩ := bind_eq_ok.mp h
  obtain ⟨parent, -, h⟩ := bind_eq_ok.mp h
  obtain ⟨_, hexist, h⟩ := bind_eq_ok.mp h
  exact ⟨require_eq_ok.mp howner, require_eq_ok.mp hexist, _, shuffle_perm _ allChainIds, h⟩

/-! ## §3. The effect of a call. -/

/-- The call that upholds a challenge. -/
structure Upholds (S : Setting) (ctx : Ctx) (challengeId : Bytes32) (reg reg' : ReputationRegistry)
    (cm : ClusterManager) (head : Address) : Prop where
  owner : ctx.msg.sender = cm.owner
  unresolved : (cm.challenges challengeId).resolved = false
  penalty : reg.updateState (asManager S ctx.msg)
    (cm.clusters (cm.challenges challengeId).clusterId).clusterHead .INVALID challengeId = .ok reg'
  draw : drawHead ctx (cm.challenges challengeId).clusterId reg' (markResolved challengeId true cm)
    = .ok head

/-- **The effect of a successful call.** -/
inductive Effect (S : Setting) (ctx : Ctx) (reg : ReputationRegistry) (cm : ClusterManager) :
    Call → ReputationRegistry → ClusterManager → Prop
  | createCluster {chainIds : List ChainId} {members : List Address} {head : Address}
      (owner : ctx.msg.sender = cm.owner) (chains : chainIds.length > 0)
      (nonempty : members.length > 0)
      (draw : drawHead ctx cm.nextClusterId reg (addCluster chainIds members cm) = .ok head) :
      Effect S ctx reg cm (.createCluster chainIds members) reg
        (setHead cm.nextClusterId head (addCluster chainIds members cm))
  | addMember {clusterId : Nat} {member : Address} (owner : ctx.msg.sender = cm.owner)
      (registered : reg.isCommitterRegistered member = true) :
      Effect S ctx reg cm (.addMember clusterId member) reg (afterMember clusterId member cm)
  | elect {clusterId : Nat} {head : Address} (active : (cm.clusters clusterId).isActive = true)
      (draw : drawHead ctx clusterId reg cm = .ok head) :
      Effect S ctx reg cm (.electClusterHead clusterId) reg (setHead clusterId head cm)
  | submit {clusterId : Nat} {chainRoots : List Bytes32}
      (guards : CanSubmit ctx clusterId chainRoots cm) :
      Effect S ctx reg cm (.submitClusterCommit clusterId chainRoots) reg
        (afterSubmit ctx clusterId chainRoots cm)
  | verify {commitId : Bytes32} {reg' : ReputationRegistry}
      (authorized : mayVerify S ctx.msg.sender cm)
      (unverified : (cm.clusterCommits commitId).isVerified = false)
      (credit : reg.updateState (asManager S ctx.msg) (cm.clusterCommits commitId).clusterHead .VALID
        (cm.clusterCommits commitId).aggregatedRoot = .ok reg') :
      Effect S ctx reg cm (.verifyClusterCommit commitId) reg' (markVerified commitId cm)
  | crossReference {committerAddrs : List Address} {submittedRoots : List Bytes32}
      {aliveFlags : List Bool} {reg' : ReputationRegistry}
      (update : crossReferenceAndUpdate S ctx committerAddrs submittedRoots aliveFlags reg cm
        = .ok reg') :
      Effect S ctx reg cm (.crossReferenceAndUpdate committerAddrs submittedRoots aliveFlags) reg' cm
  | reshuffle {allChainIds shuffled : List ChainId} {cm' : ClusterManager}
      (owner : ctx.msg.sender = cm.owner) (perm : shuffled.Perm allChainIds)
      (exist : cm.clusterIds.length > 0)
      (elections : Reelected cm.clusterIds (afterDeal shuffled cm) cm') :
      Effect S ctx reg cm (.reshuffleClusters allChainIds) reg cm'
  | file {clusterId : Nat} {missingChainId : ChainId} {round : Nat}
      (guards : CanFile ctx clusterId missingChainId round cm) :
      Effect S ctx reg cm (.fileDAChallenge clusterId missingChainId round) reg
        (afterFile ctx clusterId missingChainId round cm)
  | uphold {challengeId : Bytes32} {reg' : ReputationRegistry} {head : Address}
      (guards : Upholds S ctx challengeId reg reg' cm head) :
      Effect S ctx reg cm (.resolveDAChallenge challengeId true) reg'
        (setHead (cm.challenges challengeId).clusterId head (markResolved challengeId true cm))
  | dismiss {challengeId : Bytes32} (owner : ctx.msg.sender = cm.owner)
      (unresolved : (cm.challenges challengeId).resolved = false) :
      Effect S ctx reg cm (.resolveDAChallenge challengeId false) reg
        (markResolved challengeId false cm)
  | advance {reg' : ReputationRegistry} (owner : ctx.msg.sender = cm.owner)
      (rounds : reg.advanceRound (asManager S ctx.msg) = .ok reg') :
      Effect S ctx reg cm .advanceRound reg' { cm with currentRound := cm.currentRound + 1 }

/-- A verification credits the head. -/
theorem verifyClusterCommit_eq_ok {S : Setting} {msg : Msg} {commitId : Bytes32}
    {reg reg' : ReputationRegistry} {cm cm' : ClusterManager} :
    verifyClusterCommit S msg commitId reg cm = .ok (reg', cm')
      ↔ mayVerify S msg.sender cm ∧ (cm.clusterCommits commitId).isVerified = false
        ∧ reg.updateState (asManager S msg) (cm.clusterCommits commitId).clusterHead .VALID
          (cm.clusterCommits commitId).aggregatedRoot = .ok reg'
        ∧ cm' = markVerified commitId cm := by
  constructor
  · intro h
    obtain ⟨_, hauth, h⟩ := bind_eq_ok.mp h
    obtain ⟨_, hopen, h⟩ := bind_eq_ok.mp h
    obtain ⟨reg₁, hcredit, h⟩ := bind_eq_ok.mp h
    rw [pure_eq_ok, Prod.mk.injEq] at h
    obtain ⟨rfl, rfl⟩ := h
    exact ⟨require_eq_ok.mp hauth, require_eq_ok.mp hopen, hcredit, rfl⟩
  · rintro ⟨hauth, hopen, hcredit, rfl⟩
    rw [verifyClusterCommit, require_bind hauth, require_bind hopen, hcredit]
    rfl

/-- The owner sets up a cluster with a sole member. -/
theorem createCluster_single {ctx : Ctx} {chainIds : List ChainId} {m : Address}
    {reg : ReputationRegistry} {cm : ClusterManager} {w : Nat} (howner : ctx.msg.sender = cm.owner)
    (hchains : chainIds.length > 0) (hfresh : (cm.clusters cm.nextClusterId).members = [])
    (hnext : cm.nextClusterId + 1 < 2 ^ 256) (hw : reg.getElectionWeight m = .ok w)
    (hrange : w < 2 ^ 256) (hblock : 1 ≤ ctx.msg.number) :
    createCluster ctx chainIds [m] reg cm
      = .ok (setHead cm.nextClusterId m (addCluster chainIds [m] cm)) := by
  have hmembers : ((addCluster chainIds [m] cm).clusters cm.nextClusterId).members = [m] := by
    show (update cm.clusters cm.nextClusterId _ cm.nextClusterId).members = [m]
    rw [update_self]
    show (cm.clusters cm.nextClusterId).members ++ [m] = [m]
    rw [hfresh, List.nil_append]
  have hdraw := drawHead_singleton hmembers hw hrange hblock
  rw [createCluster, require_bind howner, require_bind hchains, require_bind (by simp),
    addU256_eq_ok.mpr ⟨hnext, rfl⟩, ok_bind]
  exact electHead_eq_ok.mpr ⟨m, hdraw, rfl⟩

/-- A challenge to a cluster with a sole member is upheld. -/
theorem resolveDAChallenge_single {S : Setting} {ctx : Ctx} {id : Bytes32} {m : Address} {w : Nat}
    {reg reg' : ReputationRegistry} {cm : ClusterManager} (howner : ctx.msg.sender = cm.owner)
    (hopen : (cm.challenges id).resolved = false)
    (hpenalty : reg.updateState (asManager S ctx.msg)
      (cm.clusters (cm.challenges id).clusterId).clusterHead .INVALID id = .ok reg')
    (hmembers : (cm.clusters (cm.challenges id).clusterId).members = [m])
    (hw : reg'.getElectionWeight m = .ok w) (hrange : w < 2 ^ 256) (hblock : 1 ≤ ctx.msg.number) :
    resolveDAChallenge S ctx id true reg cm
      = .ok (reg', setHead (cm.challenges id).clusterId m (markResolved id true cm)) := by
  have helect : electHead ctx (cm.challenges id).clusterId reg' (markResolved id true cm)
      = .ok (setHead (cm.challenges id).clusterId m (markResolved id true cm)) :=
    electHead_eq_ok.mpr ⟨m, drawHead_singleton hmembers hw hrange hblock, rfl⟩
  rw [resolveDAChallenge, require_bind howner, require_bind hopen]
  show (reg.updateState (asManager S ctx.msg)
    (cm.clusters (cm.challenges id).clusterId).clusterHead .INVALID id >>= _) = _
  rw [hpenalty, ok_bind, helect]
  rfl

section

variable {S : Setting} {ctx : Ctx} {reg reg' : ReputationRegistry} {cm cm' : ClusterManager}

/-- What a creation does. -/
theorem createCluster_effect {chainIds : List ChainId} {members : List Address}
    (h : createCluster ctx chainIds members reg cm = .ok cm') :
    Effect S ctx reg cm (.createCluster chainIds members) reg cm' := by
  obtain ⟨_, howner, h⟩ := bind_eq_ok.mp h
  obtain ⟨_, hchains, h⟩ := bind_eq_ok.mp h
  obtain ⟨_, hmembers, h⟩ := bind_eq_ok.mp h
  obtain ⟨_, -, h⟩ := bind_eq_ok.mp h
  obtain ⟨head, hdraw, rfl⟩ := electHead_eq_ok.mp h
  exact .createCluster (require_eq_ok.mp howner) (require_eq_ok.mp hchains)
    (require_eq_ok.mp hmembers) hdraw

/-- What a new member does. -/
theorem addMember_effect {clusterId : Nat} {member : Address}
    (h : addMember ctx clusterId member reg cm = .ok cm') :
    Effect S ctx reg cm (.addMember clusterId member) reg cm' := by
  obtain ⟨_, howner, h⟩ := bind_eq_ok.mp h
  obtain ⟨_, hregistered, h⟩ := bind_eq_ok.mp h
  rw [← pure_eq_ok.mp h]
  exact .addMember (require_eq_ok.mp howner) (require_eq_ok.mp hregistered)

theorem electClusterHead_effect {clusterId : Nat}
    (h : electClusterHead ctx clusterId reg cm = .ok cm') :
    Effect S ctx reg cm (.electClusterHead clusterId) reg cm' := by
  obtain ⟨_, hactive, h⟩ := bind_eq_ok.mp h
  obtain ⟨_, -, h⟩ := bind_eq_ok.mp h
  obtain ⟨_, -, h⟩ := bind_eq_ok.mp h
  obtain ⟨head, hdraw, rfl⟩ := electHead_eq_ok.mp h
  exact .elect (require_eq_ok.mp hactive) hdraw

/-- What a reshuffle does. -/
theorem reshuffleClusters_effect {allChainIds : List ChainId}
    (h : reshuffleClusters ctx allChainIds reg cm = .ok cm') :
    Effect S ctx reg cm (.reshuffleClusters allChainIds) reg cm' := by
  obtain ⟨howner, hexist, shuffled, hperm, helect⟩ := reshuffleWith_ok h
  exact .reshuffle howner hperm hexist (electAll_reelected helect)

/-- What a resolution does. -/
theorem resolveDAChallenge_effect {challengeId : Bytes32} {valid : Bool}
    (h : resolveDAChallenge S ctx challengeId valid reg cm = .ok (reg', cm')) :
    Effect S ctx reg cm (.resolveDAChallenge challengeId valid) reg' cm' := by
  obtain ⟨_, howner, h⟩ := bind_eq_ok.mp h
  obtain ⟨_, hopen, h⟩ := bind_eq_ok.mp h
  rw [require_eq_ok] at howner hopen
  cases valid with
  | false =>
    rw [if_neg Bool.false_ne_true, pure_eq_ok, Prod.mk.injEq] at h
    obtain ⟨rfl, rfl⟩ := h
    exact .dismiss howner hopen
  | true =>
    rw [if_pos rfl] at h
    obtain ⟨reg₁, hpenalty, h⟩ := bind_eq_ok.mp h
    obtain ⟨cm₁, helect, h⟩ := bind_eq_ok.mp h
    rw [pure_eq_ok, Prod.mk.injEq] at h
    obtain ⟨rfl, rfl⟩ := h
    obtain ⟨head, hdraw, rfl⟩ := electHead_eq_ok.mp helect
    exact .uphold ⟨howner, hopen, hpenalty, hdraw⟩

/-- What a new round does. -/
theorem advanceRound_effect (h : advanceRound S ctx reg cm = .ok (reg', cm')) :
    Effect S ctx reg cm .advanceRound reg' cm' := by
  obtain ⟨_, howner, h⟩ := bind_eq_ok.mp h
  obtain ⟨next, hnext, h⟩ := bind_eq_ok.mp h
  obtain ⟨-, rfl⟩ := addU256_eq_ok.mp hnext
  obtain ⟨reg₁, hrounds, h⟩ := bind_eq_ok.mp h
  rw [pure_eq_ok, Prod.mk.injEq] at h
  obtain ⟨rfl, rfl⟩ := h
  exact .advance (require_eq_ok.mp howner) hrounds

/-- **Inversion of a call.** -/
theorem exec_effect {call : Call} (h : exec S ctx call reg cm = .ok (reg', cm')) :
    Effect S ctx reg cm call reg' cm' := by
  cases call with
  | createCluster chainIds members =>
    obtain ⟨cm₁, hcm, heq⟩ := map_eq_ok.mp h
    cases heq
    exact createCluster_effect hcm
  | addMember clusterId member =>
    obtain ⟨cm₁, hcm, heq⟩ := map_eq_ok.mp h
    cases heq
    exact addMember_effect hcm
  | electClusterHead clusterId =>
    obtain ⟨cm₁, hcm, heq⟩ := map_eq_ok.mp h
    cases heq
    exact electClusterHead_effect hcm
  | submitClusterCommit clusterId chainRoots =>
    obtain ⟨cm₁, hcm, heq⟩ := map_eq_ok.mp h
    cases heq
    obtain ⟨hguards, rfl⟩ := submitClusterCommit_eq_ok.mp hcm
    exact .submit hguards
  | verifyClusterCommit commitId =>
    obtain ⟨hauth, hopen, hcredit, rfl⟩ := verifyClusterCommit_eq_ok.mp h
    exact .verify hauth hopen hcredit
  | crossReferenceAndUpdate committerAddrs submittedRoots aliveFlags =>
    obtain ⟨reg₁, hreg, heq⟩ := map_eq_ok.mp h
    cases heq
    exact .crossReference hreg
  | reshuffleClusters allChainIds =>
    obtain ⟨cm₁, hcm, heq⟩ := map_eq_ok.mp h
    cases heq
    exact reshuffleClusters_effect hcm
  | fileDAChallenge clusterId missingChainId round =>
    obtain ⟨cm₁, hcm, heq⟩ := map_eq_ok.mp h
    cases heq
    obtain ⟨hguards, rfl⟩ := fileDAChallenge_eq_ok.mp hcm
    exact .file hguards
  | resolveDAChallenge challengeId valid => exact resolveDAChallenge_effect h
  | advanceRound => exact advanceRound_effect h

end

/-! ## §4. Commit records. -/

/-- The commit records, their order, credits and chain lists are unchanged. -/
structure SameCommits (cm cm' : ClusterManager) : Prop where
  clusterCommits : cm'.clusterCommits = cm.clusterCommits
  commitHistory : cm'.commitHistory = cm.commitHistory
  credits : cm'.credits = cm.credits
  submittedChains : cm'.submittedChains = cm.submittedChains

/-- What a call does to the commit records. -/
inductive CommitStep (ctx : Ctx) (call : Call) (cm : ClusterManager) : ClusterManager → Prop
  | submit {clusterId : Nat} {chainRoots : List Bytes32}
      (what : call = .submitClusterCommit clusterId chainRoots)
      (guards : CanSubmit ctx clusterId chainRoots cm) :
      CommitStep ctx call cm (afterSubmit ctx clusterId chainRoots cm)
  | verify {commitId : Bytes32} (unverified : (cm.clusterCommits commitId).isVerified = false) :
      CommitStep ctx call cm (markVerified commitId cm)
  | same {cm' : ClusterManager} (commits : SameCommits cm cm') : CommitStep ctx call cm cm'

/-- Only submissions and verifications touch them; nothing touches the owner. -/
theorem Effect.commits {S : Setting} {ctx : Ctx} {reg reg' : ReputationRegistry}
    {cm cm' : ClusterManager} {call : Call} (h : Effect S ctx reg cm call reg' cm') :
    CommitStep ctx call cm cm' ∧ cm'.owner = cm.owner := by
  cases h with
  | submit guards => exact ⟨.submit rfl guards, rfl⟩
  | verify _ unverified _ => exact ⟨.verify unverified, rfl⟩
  | reshuffle _ _ _ elections =>
    have hshape := elections.shape_afterDeal
    rw [hshape]
    exact ⟨.same ⟨rfl, rfl, rfl, rfl⟩, rfl⟩
  | createCluster _ _ _ _ => exact ⟨.same ⟨rfl, rfl, rfl, rfl⟩, rfl⟩
  | addMember _ _ => exact ⟨.same ⟨rfl, rfl, rfl, rfl⟩, rfl⟩
  | elect _ _ => exact ⟨.same ⟨rfl, rfl, rfl, rfl⟩, rfl⟩
  | crossReference _ => exact ⟨.same ⟨rfl, rfl, rfl, rfl⟩, rfl⟩
  | file _ => exact ⟨.same ⟨rfl, rfl, rfl, rfl⟩, rfl⟩
  | uphold _ => exact ⟨.same ⟨rfl, rfl, rfl, rfl⟩, rfl⟩
  | dismiss _ _ => exact ⟨.same ⟨rfl, rfl, rfl, rfl⟩, rfl⟩
  | advance _ _ => exact ⟨.same ⟨rfl, rfl, rfl, rfl⟩, rfl⟩

end HZKA.ClusterManager
