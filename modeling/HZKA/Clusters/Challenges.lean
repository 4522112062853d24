/-
  HZKA.Clusters.Challenges
  ────────────
  **WHO PAYS FOR A MISSING CHAIN?**

  An upheld data-availability challenge penalises whoever heads the cluster at that
  moment.  Nothing compares the challenged round with the current one from above, the
  head and the chain list are those of the filing or of the resolution, and each
  challenger has a challenge of its own for the same omission.

  The round of the last election is in storage, and an election is the only thing that
  changes a head, or — a reshuffle elects everywhere — a chain list.  So a cluster not
  re-elected since round `r` still has the head and the chains it had at the end of `r`
  (`recalls_run`), and five checks on storage decide whether a penalty is fair.

    • `seat_call` — the step lemma: a call changes head or chains only with an election;
    • `recalls_run` — the run lemma, by induction from the end of the run;
    • `penalties_fair` — upholding only challenges that pass the checks is fair;
    • `penalty_not_fair` — a penalty for a round that has not come.
-/
import HZKA.Clusters.Partition

namespace HZKA.Clusters

open Function
open HZKA.Lib HZKA.EVM HZKA.Groth16Verifier HZKA.ClusterManager

/-! ## §1. Heads and chains change with elections only. -/

/-- Head, chains and last election of a cluster are unchanged. -/
structure SameSeat (a b : Cluster) : Prop where
  head : b.clusterHead = a.clusterHead
  chains : b.assignedChainIds = a.assignedChainIds
  election : b.lastElectionRound = a.lastElectionRound

theorem SameSeat.refl (a : Cluster) : SameSeat a a := ⟨rfl, rfl, rfl⟩

theorem sameSeat_update {clusters : Nat → Cluster} {c : Nat} {cluster : Cluster}
    (h : SameSeat (clusters c) cluster) (d : Nat) :
    SameSeat (clusters d) (update clusters c cluster d) :=
  rel_update SameSeat.refl h d

/-- What a call does to the clusters: rounds go up by at most one, and a cluster was there
with the same seat, or was just elected. -/
structure SeatStep (cm cm' : ClusterManager) : Prop where
  round : cm'.currentRound ≤ cm.currentRound + 1
  cluster : ∀ c ∈ cm'.clusterIds,
    c ∈ cm.clusterIds ∧ SameSeat (cm.clusters c) (cm'.clusters c)
      ∨ (cm'.clusters c).lastElectionRound = cm'.currentRound

/-- No election, no new cluster, no new round. -/
theorem seatStep_of_same {cm cm' : ClusterManager} (hround : cm'.currentRound = cm.currentRound)
    (hids : cm'.clusterIds = cm.clusterIds)
    (hseat : ∀ c, SameSeat (cm.clusters c) (cm'.clusters c)) : SeatStep cm cm' := by
  refine ⟨by omega, ?_⟩
  intro c hc
  rw [hids] at hc
  exact Or.inl ⟨hc, hseat c⟩

/-- An election changes the head alone. -/
theorem seatStep_setHead (clusterId : Nat) (head : Address) (cm : ClusterManager) :
    SeatStep cm (setHead clusterId head cm) := by
  refine ⟨Nat.le_succ _, ?_⟩
  intro c hc
  by_cases h : c = clusterId
  · right
    rw [h, clusters_setHead_self]
    rfl
  · left
    rw [clusters_setHead_of_ne h]
    exact ⟨hc, SameSeat.refl _⟩

/-- A new cluster takes a fresh seat. -/
theorem seatStep_create (head : Address) (chainIds : List ChainId) (members : List Address)
    (cm : ClusterManager) :
    SeatStep cm (setHead cm.nextClusterId head (addCluster chainIds members cm)) := by
  refine ⟨Nat.le_succ _, ?_⟩
  intro c hc
  by_cases h : c = cm.nextClusterId
  · right
    rw [h, clusters_setHead_self]
    rfl
  · left
    refine ⟨?_, ?_⟩
    · rcases List.mem_append.mp hc with hin | hnew
      · exact hin
      · exact absurd (List.mem_singleton.mp hnew) h
    · have hsame : (addCluster chainIds members cm).clusters c = cm.clusters c :=
        update_of_ne h _ _
      rw [clusters_setHead_of_ne h, hsame]
      exact SameSeat.refl _

/-- A reshuffle changes heads and chains. -/
theorem seatStep_reshuffle {shuffled : List ChainId} {cm cm' : ClusterManager}
    (h : Reelected cm.clusterIds (afterDeal shuffled cm) cm') : SeatStep cm cm' := by
  have hround : cm'.currentRound = cm.currentRound := by
    rw [h.shape_afterDeal]
  have hids : cm'.clusterIds = cm.clusterIds := by
    rw [h.shape_afterDeal]
  have hdealt : (afterDeal shuffled cm).currentRound = cm.currentRound := by
    rw [← hround, h.shape]
  refine ⟨by omega, ?_⟩
  intro c hc
  rw [hids] at hc
  right
  rw [h.elected c hc, hround, hdealt]

/-- **One call.** -/
theorem seat_call {S : Setting} {ctx : Ctx} {reg reg' : ReputationRegistry}
    {cm cm' : ClusterManager} {call : Call} (h : Effect S ctx reg cm call reg' cm') :
    SeatStep cm cm' := by
  cases h with
  | createCluster _ _ _ _ => exact seatStep_create _ _ _ cm
  | addMember _ _ => exact seatStep_of_same rfl rfl (sameSeat_update ⟨rfl, rfl, rfl⟩)
  | elect _ _ => exact seatStep_setHead _ _ cm
  | submit _ => exact seatStep_of_same rfl rfl (sameSeat_update ⟨rfl, rfl, rfl⟩)
  | verify _ _ _ => exact seatStep_of_same rfl rfl (fun _ => SameSeat.refl _)
  | crossReference _ => exact seatStep_of_same rfl rfl (fun _ => SameSeat.refl _)
  | reshuffle _ _ _ elections => exact seatStep_reshuffle elections
  | file _ => exact seatStep_of_same rfl rfl (fun _ => SameSeat.refl _)
  | @uphold challengeId _ head _ =>
    have hstep := seatStep_setHead (cm.challenges challengeId).clusterId head
      (markResolved challengeId true cm)
    exact ⟨hstep.round, hstep.cluster⟩
  | dismiss _ _ => exact seatStep_of_same rfl rfl (fun _ => SameSeat.refl _)
  | advance _ _ =>
    refine ⟨le_refl _, ?_⟩
    intro c hc
    exact Or.inl ⟨hc, SameSeat.refl _⟩

variable {pairing : PairingCheck} {S : Setting}

/-- **One transaction** as the seats see it. -/
theorem seat_step {s s' : System} {tx : System.Tx} (h : System.exec pairing S tx s = .ok s') :
    SeatStep s.manager s'.manager := by
  have hsame : SeatStep s.manager s.manager := seatStep_of_same rfl rfl (fun _ => SameSeat.refl _)
  cases System.exec_effect h with
  | manager effect => exact seat_call effect
  | clusterAudit _ call =>
    obtain ⟨-, -, -, rfl⟩ := verifyClusterCommit_eq_ok.mp call
    exact ⟨hsame.round, hsame.cluster⟩
  | legacyAudit _ call =>
    obtain ⟨-, -, -, rfl⟩ := verifyClusterCommit_eq_ok.mp call
    exact ⟨hsame.round, hsame.cluster⟩
  | registry _ => exact hsame
  | registerChain _ _ => exact hsame
  | submitCommit _ => exact hsame
  | weightedAudit _ => exact hsame
  | singleAudit _ => exact hsame
  | admin _ => exact hsame

/-! ## §2. The past of a seat. -/

/-- After some of the transactions the round was `round` and the cluster had the head and
the chains it has after all of them. -/
def Recalls (pairing : PairingCheck) (S : Setting) (s₀ : System) (txs : List System.Tx)
    (c round : Nat) : Prop :=
  ∃ k ≤ txs.length,
    (run (System.exec pairing S) s₀ (txs.take k)).manager.currentRound = round
      ∧ SameSeat ((run (System.exec pairing S) s₀ (txs.take k)).manager.clusters c)
        ((run (System.exec pairing S) s₀ txs).manager.clusters c)

/-- The present recalls itself. -/
theorem recalls_now (s₀ : System) (txs : List System.Tx) (c : Nat) :
    Recalls pairing S s₀ txs c (run (System.exec pairing S) s₀ txs).manager.currentRound :=
  ⟨txs.length, le_refl _, by rw [List.take_length], by rw [List.take_length]; exact SameSeat.refl _⟩

/-- A seat kept by one more transaction is recalled as before. -/
theorem Recalls.snoc {s₀ : System} {txs : List System.Tx} {c round : Nat} {tx : System.Tx}
    (h : Recalls pairing S s₀ txs c round)
    (hkeep : SameSeat ((run (System.exec pairing S) s₀ txs).manager.clusters c)
      ((run (System.exec pairing S) s₀ (txs ++ [tx])).manager.clusters c)) :
    Recalls pairing S s₀ (txs ++ [tx]) c round := by
  obtain ⟨k, hk, hround, hseat⟩ := h
  have htake : (txs ++ [tx]).take k = txs.take k := List.take_append_of_le_length hk
  refine ⟨k, by rw [List.length_append]; omega, by rw [htake]; exact hround, ?_⟩
  rw [htake]
  exact ⟨hkeep.head.trans hseat.head, hkeep.chains.trans hseat.chains,
    hkeep.election.trans hseat.election⟩

/-- **A cluster not elected since a round has the head and the chains of that round.** -/
theorem recalls_run (s₀ : System) (hnone : s₀.manager.clusterIds = []) (txs : List System.Tx) :
    ∀ c ∈ (run (System.exec pairing S) s₀ txs).manager.clusterIds, ∀ round,
      ((run (System.exec pairing S) s₀ txs).manager.clusters c).lastElectionRound ≤ round →
      round ≤ (run (System.exec pairing S) s₀ txs).manager.currentRound →
      Recalls pairing S s₀ txs c round := by
  induction txs using List.reverseRec with
  | nil =>
    intro c hc
    rw [run_nil, hnone] at hc
    exact absurd hc List.not_mem_nil
  | append_singleton txs tx ih =>
    intro c hc round hlow hhigh
    have hrun : run (System.exec pairing S) s₀ (txs ++ [tx])
        = commit (System.exec pairing S) (run (System.exec pairing S) s₀ txs) tx :=
      run_snoc s₀ txs tx
    cases hx : System.exec pairing S tx (run (System.exec pairing S) s₀ txs) with
    | error e =>
      rw [commit_of_error hx] at hrun
      rw [hrun] at hc hlow hhigh
      refine (ih c hc round hlow hhigh).snoc ?_
      rw [hrun]
      exact SameSeat.refl _
    | ok s' =>
      rw [commit_of_ok hx] at hrun
      have hstep := seat_step hx
      -- the current round is recalled by the state itself, an earlier one by `ih`
      by_cases hnow : round = s'.manager.currentRound
      · have h : Recalls pairing S s₀ (txs ++ [tx]) c _ := recalls_now s₀ (txs ++ [tx]) c
        rw [hrun] at h
        rw [hnow]
        exact h
      · rw [hrun] at hc hlow hhigh
        have hround := hstep.round
        rcases hstep.cluster c hc with ⟨hin, hseat⟩ | helected
        · rw [hseat.election] at hlow
          refine (ih c hin round hlow (by omega)).snoc ?_
          rw [hrun]
          exact hseat
        · omega

/-! ## §3. Resolved challenges stay. -/

/-- A resolved challenge stays. -/
theorem resolved_call {ctx : Ctx} {reg reg' : ReputationRegistry} {cm cm' : ClusterManager}
    {call : Call} (h : Effect S ctx reg cm call reg' cm') {id : Bytes32}
    (hid : (cm.challenges id).resolved = true) : cm'.challenges id = cm.challenges id := by
  have hne : ∀ key, (cm.challenges key).resolved = false → id ≠ key := by
    rintro key hkey rfl
    rw [hid] at hkey
    exact Bool.noConfusion hkey
  cases h with
  | file guards => exact update_of_ne (hne _ guards.unresolved) _ _
  | uphold guards => exact update_of_ne (hne _ guards.unresolved) _ _
  | dismiss _ unresolved => exact update_of_ne (hne _ unresolved) _ _
  | reshuffle _ _ _ elections =>
    rw [elections.shape]
    have hdeal : ∀ (ids : List Nat) (i : Nat) (l : List ChainId) (cm : ClusterManager),
        (deal ids i l cm).challenges = cm.challenges := by
      intro ids i l
      induction l generalizing i with
      | nil => exact fun _ => rfl
      | cons x rest ih => exact fun cm => ih (i + 1) (assignChain (roundRobin ids i) x cm)
    exact congrFun (hdeal cm.clusterIds 0 _ (clearAssignments cm)) id
  | createCluster _ _ _ _ => rfl
  | addMember _ _ => rfl
  | elect _ _ => rfl
  | submit _ => rfl
  | verify _ _ _ => rfl
  | crossReference _ => rfl
  | advance _ _ => rfl

/-- **Resolved challenges stay**, in every run. -/
theorem resolved_run {id : Bytes32} {ch : DataAvailabilityChallenge} (hch : ch.resolved = true)
    (txs : List System.Tx) {s : System} (hs : s.manager.challenges id = ch) :
    (run (System.exec pairing S) s txs).manager.challenges id = ch := by
  refine run_invariant (P := fun s : System => s.manager.challenges id = ch) ?_ txs hs
  intro s tx s' hs h
  refine System.manager_step (P := fun cm => cm.challenges id = ch) ?_ (fun _ _ hcm => hcm) hs h
  intro ctx call reg reg' cm cm' hcm heff
  rw [resolved_call heff (by rw [hcm]; exact hch), hcm]

/-! ## §4. Fair penalties. -/

/-- The omission a challenge is about. -/
def omission (ch : DataAvailabilityChallenge) : Nat × ChainId × Nat :=
  (ch.clusterId, ch.missingChainId, ch.round)

/-- The owner upholds the challenge `id`. -/
def upholds (ctx : Ctx) (id : Bytes32) : System.Tx := .manager ctx (.resolveDAChallenge id true)

/-- The penalty for the challenge `id`, applied after the transactions `before`, is the
first for its omission and hits the head that the cluster had in the challenged round,
a round that has come, in which the chain was assigned to the cluster and was not
submitted. -/
structure FairPenalty (pairing : PairingCheck) (S : Setting) (s₀ : System)
    (before : List System.Tx) (ch : DataAvailabilityChallenge) : Prop where
  once : ∀ earlier ctx id' later, before = earlier ++ upholds ctx id' :: later →
    (System.exec pairing S (upholds ctx id') (run (System.exec pairing S) s₀ earlier)).isOk = true →
    omission ((run (System.exec pairing S) s₀ earlier).manager.challenges id') ≠ omission ch
  round : ch.round ≤ (run (System.exec pairing S) s₀ before).manager.currentRound
  missing : (run (System.exec pairing S) s₀ before).manager.chainSubmittedInRound ch.round
    ch.missingChainId = false
  responsible : ∃ k ≤ before.length,
    (run (System.exec pairing S) s₀ (before.take k)).manager.currentRound = ch.round
      ∧ ch.missingChainId ∈ assigned (run (System.exec pairing S) s₀ (before.take k)).manager
        ch.clusterId
      ∧ ((run (System.exec pairing S) s₀ before).manager.clusters ch.clusterId).clusterHead
        = ((run (System.exec pairing S) s₀ (before.take k)).manager.clusters
          ch.clusterId).clusterHead

/-- Every penalty of the run is fair. -/
def PenaltiesFair (pairing : PairingCheck) (S : Setting) (s₀ : System) (txs : List System.Tx) :
    Prop :=
  ∀ before ctx id after, txs = before ++ upholds ctx id :: after →
    (System.exec pairing S (upholds ctx id) (run (System.exec pairing S) s₀ before)).isOk = true →
    FairPenalty pairing S s₀ before
      ((run (System.exec pairing S) s₀ before).manager.challenges id)

/-- Five checks on storage. -/
structure Upholdable (cm : ClusterManager) (ch : DataAvailabilityChallenge) : Prop where
  round : ch.round ≤ cm.currentRound
  assigned : ch.missingChainId ∈ (cm.clusters ch.clusterId).assignedChainIds
  missing : cm.chainSubmittedInRound ch.round ch.missingChainId = false
  seated : (cm.clusters ch.clusterId).lastElectionRound ≤ ch.round
  first : ∀ id, (cm.challenges id).resolved = true → (cm.challenges id).valid = true →
    omission (cm.challenges id) ≠ omission ch

/-- A challenge that is upheld passes the checks. -/
def UpholdsRightly (pairing : PairingCheck) (S : Setting) (s : System) (tx : System.Tx) : Prop :=
  ∀ ctx id, tx = upholds ctx id → (System.exec pairing S tx s).isOk = true →
    Upholdable s.manager (s.manager.challenges id)

/-- An upheld challenge is recorded as such. -/
theorem challenges_of_upholds {s s' : System} {ctx : Ctx} {id : Bytes32}
    (h : System.exec pairing S (upholds ctx id) s = .ok s') :
    s'.manager.challenges id = { s.manager.challenges id with resolved := true, valid := true } := by
  have heff := System.exec_effect h
  unfold upholds at heff
  cases heff with
  | manager effect =>
    cases effect with
    | uphold guards => exact update_self ..

/-- An earlier penalty of the run is on record. -/
theorem earlier_on_record {s₀ : System} {earlier : List System.Tx} {ctx : Ctx} {id : Bytes32}
    (later : List System.Tx) (hok : (System.exec pairing S (upholds ctx id)
      (run (System.exec pairing S) s₀ earlier)).isOk = true) :
    (run (System.exec pairing S) s₀ (earlier ++ upholds ctx id :: later)).manager.challenges id
      = { (run (System.exec pairing S) s₀ earlier).manager.challenges id with
          resolved := true, valid := true } := by
  have hrecord := challenges_of_upholds (exec_eq_ok_commit hok)
  rw [run_append, run_cons]
  exact resolved_run rfl later hrecord

/-! ## §5. A challenge to the cluster of chain 5.

Account 1 owns everything and is the only member of the cluster; account 7 challenges it
for a round of its choice. -/

/-- The manager may report. -/
def authorizeManager : System.Tx := .registry ⟨owner.msg, .setAuthorizedAuditor 2 true⟩

/-- An account outside. -/
def challenger : Ctx := ⟨⟨7, 1, 100, true⟩, 0⟩

/-- It challenges chain 5. -/
def challenge (round : Nat) : System.Tx := .manager challenger (.fileDAChallenge 1 5 round)

/-- The challenge's id. -/
def challengeId (round : Nat) : Bytes32 := challengeKey 1 5 round challenger.msg.sender

/-- The registry with the manager authorized. -/
def authorized : ReputationRegistry :=
  { ReputationRegistry.deploy 1 with
    authorizedAuditors :=
      update (ReputationRegistry.deploy 1).authorizedAuditors 2 true }

/-- The system with the challenge filed. -/
def challenged (round : Nat) : System :=
  ⟨authorized, afterFile challenger 1 5 round (withCluster [5] (deploy 1)), AuditContractV2.deploy 1⟩

theorem authorize_ok : ReputationRegistry.exec ⟨owner.msg, .setAuthorizedAuditor 2 true⟩
    (ReputationRegistry.deploy 1) = .ok authorized :=
  ReputationRegistry.setAuthorizedAuditor_ok 2 true rfl

theorem authorized_inv : ReputationRegistry.RegistryInv authorized :=
  ReputationRegistry.registryInv_step (ReputationRegistry.registryInv_deploy 1) authorize_ok

theorem challenges_challenged (round : Nat) :
    (challenged round).manager.challenges (challengeId round)
      = newChallenge challenger 1 5 round (withCluster [5] (deploy 1)) :=
  challenges_afterFile challenger 1 5 round _

/-- The challenge is filed. -/
theorem exec_challenge (pairing : PairingCheck) {round : Nat} (hround : round ≤ 100) :
    System.exec pairing setting (challenge round)
      ⟨authorized, withCluster [5] (deploy 1), AuditContractV2.deploy 1⟩ = .ok (challenged round) := by
  have hguards : CanFile challenger 1 5 round (withCluster [5] (deploy 1)) := by
    refine ⟨?_, ?_, rfl, List.mem_singleton.mpr rfl, rfl, rfl⟩
    · show 1 ≤ round + 10
      omega
    · show round + 10 < 2 ^ 256
      omega
  refine System.exec_manager_ok (by decide) ?_
  exact map_eq_ok.mpr ⟨_, fileDAChallenge_eq_ok.mpr ⟨hguards, rfl⟩, rfl⟩

theorem run_challenge (pairing : PairingCheck) {round : Nat} (hround : round ≤ 100) :
    run (System.exec pairing setting) (System.deploy (.all 1))
      [authorizeManager, clusterOf [5], challenge round] = challenged round := by
  have hfirst : System.exec pairing setting authorizeManager (System.deploy (.all 1))
      = .ok ⟨authorized, deploy 1, AuditContractV2.deploy 1⟩ :=
    System.exec_registry_ok (by decide) authorize_ok
  have hsecond : System.exec pairing setting (clusterOf [5])
      ⟨authorized, deploy 1, AuditContractV2.deploy 1⟩ = .ok _ :=
    exec_clusterOf pairing (by decide) (by decide) authorized_inv rfl rfl (by decide)
  rw [run_cons, commit_of_ok hfirst, run_cons, commit_of_ok hsecond, run_cons,
    commit_of_ok (exec_challenge pairing hround), run_nil]

/-- The owner upholds it, whatever the round. -/
theorem upholds_ok (pairing : PairingCheck) (round : Nat) :
    (System.exec pairing setting (upholds owner (challengeId round)) (challenged round)).isOk
      = true := by
  have hrecord := challenges_challenged round
  have hregistered : (authorized.states 1).isRegistered = true := by
    show ((ReputationRegistry.deploy 1).states 1).isRegistered = true
    rw [ReputationRegistry.deploy_states_self]
    rfl
  have hstake : (authorized.states 1).stakedAmount = 0 := by
    show ((ReputationRegistry.deploy 1).states 1).stakedAmount = 0
    rw [ReputationRegistry.deploy_states_self]
    rfl
  have hupdate : ∃ reg', authorized.updateState (asManager setting owner.msg) 1 .INVALID
      (challengeId round) = .ok reg' :=
    ReputationRegistry.updateState_ok .INVALID (challengeId round) rfl hregistered
      (authorized_inv.records 1 hregistered) (fun _ => by rw [hstake]; decide)
      (fun _ => by rw [hstake]; decide)
  obtain ⟨reg', hpenalty⟩ := hupdate
  have hinv : ReputationRegistry.RegistryInv reg' :=
    ReputationRegistry.registryInv_step authorized_inv
      (show ReputationRegistry.exec ⟨asManager setting owner.msg, .updateState 1 .INVALID
        (challengeId round)⟩ authorized = .ok reg' from hpenalty)
  obtain ⟨w, hle, hw⟩ := ReputationRegistry.getElectionWeight_ok hinv 1
  have hrange : w < 2 ^ 256 := lt_of_le_of_lt hle (by simp [ReputationRegistry.W_MAX])
  have hresolve : ∃ cm', resolveDAChallenge setting owner (challengeId round) true authorized
      (challenged round).manager = .ok (reg', cm') :=
    ⟨_, resolveDAChallenge_single rfl (by rw [hrecord]; rfl) (by rw [hrecord]; exact hpenalty)
      (by rw [hrecord]; rfl) hw hrange (by decide)⟩
  obtain ⟨cm', hresolve⟩ := hresolve
  have hexec : System.exec pairing setting (upholds owner (challengeId round)) (challenged round)
      = .ok { challenged round with registry := reg', manager := cm' } :=
    System.exec_manager_ok (by decide) hresolve
  rw [hexec]
  rfl

/-! ## §6. Whole runs. -/

/-- **Penalties are fair** in every run in which each upheld challenge passes the checks. -/
theorem penalties_fair (pairing : PairingCheck) (S : Setting) (deployers : Deployers)
    (txs : List System.Tx)
    (hmeet : StepsMeet (System.exec pairing S) (UpholdsRightly pairing S)
      (System.deploy deployers) txs) :
    PenaltiesFair pairing S (System.deploy deployers) txs := by
  intro before ctx id after htxs hok
  rw [htxs, stepsMeet_append] at hmeet
  have hchecks := hmeet.2.1 ctx id rfl hok
  have hnumbered : Numbered (run (System.exec pairing S) (System.deploy deployers)
      before).manager :=
    run_invariant (P := fun s : System => Numbered s.manager) numbered_step before
      (numbered_deploy deployers.manager)
  refine ⟨?_, hchecks.round, hchecks.missing, ?_⟩
  · intro earlier ctx' id' later hbefore hok'
    have hrecord := earlier_on_record later hok'
    rw [← hbefore] at hrecord
    have hne := hchecks.first id' (by rw [hrecord]) (by rw [hrecord])
    rw [hrecord] at hne
    exact hne
  · -- a cluster with a chain has been created, so its seat has a past
    have hcreated : ((run (System.exec pairing S) (System.deploy deployers)
        before).manager.challenges id).clusterId ∈ (run (System.exec pairing S)
        (System.deploy deployers) before).manager.clusterIds := by
      by_contra hout
      have hassigned : _ ∈ assigned _ _ := hchecks.assigned
      rw [hnumbered.unused _ hout] at hassigned
      exact List.not_mem_nil hassigned
    obtain ⟨k, hk, hround, hseat⟩ := recalls_run (System.deploy deployers) rfl
      before _ hcreated _ hchecks.seated hchecks.round
    refine ⟨k, hk, hround, ?_, hseat.head⟩
    show _ ∈ (Cluster.assignedChainIds _)
    rw [← hseat.chains]
    exact hchecks.assigned

/-- In round 1, chain 5 is missing and its cluster is challenged for it. -/
theorem first_round_penalty_fair :
    PenaltiesFair (fun _ _ _ => .ok true) setting (System.deploy (.all 1))
      [authorizeManager, clusterOf [5], challenge 1, upholds owner (challengeId 1)] := by
  refine penalties_fair _ setting (.all 1) _ ?_
  refine (stepsMeet_append _ [authorizeManager, clusterOf [5], challenge 1]
    [upholds owner (challengeId 1)]).mpr ⟨⟨?_, ?_, ?_, trivial⟩, ?_, trivial⟩
  · exact fun _ _ h => nomatch h
  · exact fun _ _ h => nomatch h
  · exact fun _ _ h => nomatch h
  · rw [run_challenge _ (by decide)]
    intro ctx id htx _
    obtain ⟨rfl, hcall⟩ := System.Tx.manager.inj htx
    obtain ⟨rfl, _⟩ := Call.resolveDAChallenge.inj hcall
    rw [challenges_challenged]
    refine ⟨le_refl 1, List.mem_singleton.mpr rfl, rfl, le_refl 1, ?_⟩
    -- no challenge is resolved yet
    intro id hresolved
    by_cases hid : id = challengeId 1
    · rw [hid, challenges_challenged] at hresolved
      exact Bool.noConfusion hresolved
    · have hblank : (challenged 1).manager.challenges id = (withCluster [5] (deploy 1)).challenges id :=
        challenges_afterFile_of_ne _ hid
      rw [hblank] at hresolved
      exact Bool.noConfusion hresolved

/-- In round 1 the head is penalised for chain 5 missing in round 5. -/
theorem penalty_not_fair : ¬ ∀ (pairing : PairingCheck) (S : Setting)
    (deployers : Deployers) (txs : List System.Tx),
    PenaltiesFair pairing S (System.deploy deployers) txs := by
  intro hall
  have hrun := run_challenge (fun _ _ _ => .ok true) (show 5 ≤ 100 by decide)
  have hfair := hall (fun _ _ _ => .ok true) setting (.all 1)
    [authorizeManager, clusterOf [5], challenge 5, upholds owner (challengeId 5)]
    [authorizeManager, clusterOf [5], challenge 5] owner (challengeId 5) [] rfl
  rw [hrun] at hfair
  have hround := (hfair (upholds_ok _ 5)).round
  rw [hrun, challenges_challenged] at hround
  exact absurd hround (by decide)

end HZKA.Clusters
