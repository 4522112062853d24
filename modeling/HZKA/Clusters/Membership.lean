/-
  HZKA.Clusters.Membership
  ────────────
  **WHO IS IN A CLUSTER.**

  Two functions extend a member list.  `createCluster` takes any array; `addMember` asks
  for a registered committer, but not for a new one, and serves ids no cluster has yet.

    • `membership_iff` — over every run, active clusters have distinct registered members
      with the head among them EXACTLY when each `createCluster` leaves such a list and each
      `addMember` to an active cluster adds somebody new;
    • `share_le`, `verifies_of_registered` — what rests on it: nobody stands for election
      with more than the capped weight, and no recorded commit fails to verify because its
      head is unregistered;
    • `membership_unsound` — the contract checks neither condition, and all three fail.
-/
import HZKA.Clusters.Authority
import HZKA.Psi.ClusterPath

namespace HZKA.Clusters

open Function
open HZKA.Lib HZKA.EVM HZKA.Groth16Verifier HZKA.ClusterManager

/-! ## §1. What a call does to the member lists. -/

/-- Same members, same status; the head is the old one or a member. -/
structure SameMembers (c c' : Cluster) : Prop where
  members : c'.members = c.members
  active : c'.isActive = c.isActive
  head : c'.clusterHead = c.clusterHead ∨ c'.clusterHead ∈ c.members

theorem SameMembers.refl (c : Cluster) : SameMembers c c := ⟨rfl, rfl, .inl rfl⟩

/-- Keeping members composes. -/
theorem SameMembers.trans {c c' c'' : Cluster} (h : SameMembers c c') (h' : SameMembers c' c'') :
    SameMembers c c'' := by
  refine ⟨h'.members.trans h.members, h'.active.trans h.active, ?_⟩
  rcases h'.head with hsame | hmem
  · rw [hsame]
    exact h.head
  · exact .inr (h.members ▸ hmem)

theorem sameMembers_update {clusters : Nat → Cluster} {id : Nat} {cluster : Cluster}
    (h : SameMembers (clusters id) cluster) (c : Nat) :
    SameMembers (clusters c) (update clusters id cluster c) :=
  rel_update SameMembers.refl h c

/-- An election keeps the members. -/
theorem sameMembers_setHead {clusterId : Nat} {head : Address} {cm : ClusterManager}
    (h : head ∈ (cm.clusters clusterId).members) (c : Nat) :
    SameMembers (cm.clusters c) ((setHead clusterId head cm).clusters c) := by
  apply sameMembers_update
  exact ⟨rfl, rfl, .inr h⟩

/-- Elections keep the members. -/
theorem sameMembers_electAll {ctx : Ctx} {reg : ReputationRegistry} (ids : List Nat) :
    ∀ {cm cm' : ClusterManager}, electAll ctx ids reg cm = .ok cm' →
      ∀ c, SameMembers (cm.clusters c) (cm'.clusters c) := by
  unfold electAll
  induction ids with
  | nil =>
    intro cm cm' h c
    rw [List.foldlM_nil, pure_eq_ok] at h
    rw [← h]
    exact .refl _
  | cons cid ids ih =>
    intro cm cm' h c
    rw [List.foldlM_cons, bind_eq_ok] at h
    obtain ⟨cm₁, hfirst, hrest⟩ := h
    obtain ⟨head, hdraw, rfl⟩ := electHead_eq_ok.mp hfirst
    exact (sameMembers_setHead (drawHead_mem hdraw) c).trans (ih hrest c)

/-- The clearing loop of a reshuffle touches the chain lists only. -/
theorem sameMembers_clear (ids : List Nat) (c : Nat) :
    ∀ clusters : Nat → Cluster, SameMembers (clusters c) (ids.foldl (fun clusters cid =>
      update clusters cid { clusters cid with assignedChainIds := [] }) clusters c) := by
  induction ids with
  | nil =>
    intro clusters
    exact .refl _
  | cons cid ids ih =>
    intro clusters
    rw [List.foldl_cons]
    refine (sameMembers_update ?_ c).trans (ih _)
    exact ⟨rfl, rfl, .inl rfl⟩

/-- So does the assignment loop. -/
theorem sameMembers_deal (ids : List Nat) (l : List ChainId) (c : Nat) :
    ∀ (i : Nat) (cm : ClusterManager),
      SameMembers (cm.clusters c) ((deal ids i l cm).clusters c) := by
  induction l with
  | nil =>
    intro i cm
    exact .refl _
  | cons x rest ih =>
    intro i cm
    have hone : SameMembers (cm.clusters c)
        ((assignChain (roundRobin ids i) x cm).clusters c) := by
      apply sameMembers_update
      exact ⟨rfl, rfl, .inl rfl⟩
    exact hone.trans (ih (i + 1) _)

theorem sameMembers_afterDeal (shuffled : List ChainId) (cm : ClusterManager) (c : Nat) :
    SameMembers (cm.clusters c) ((afterDeal shuffled cm).clusters c) := by
  have hclear : SameMembers (cm.clusters c) ((clearAssignments cm).clusters c) :=
    sameMembers_clear cm.clusterIds c cm.clusters
  exact hclear.trans (sameMembers_deal cm.clusterIds shuffled c 0 (clearAssignments cm))

/-- A reshuffle keeps the members. -/
theorem sameMembers_reshuffle {ctx : Ctx} {allChainIds : List ChainId} {reg : ReputationRegistry}
    {cm cm' : ClusterManager} (h : reshuffleClusters ctx allChainIds reg cm = .ok cm') (c : Nat) :
    SameMembers (cm.clusters c) (cm'.clusters c) := by
  obtain ⟨-, -, shuffled, -, helect⟩ := reshuffleWith_ok h
  exact (sameMembers_afterDeal shuffled cm c).trans (sameMembers_electAll _ helect c)

/-- **What a transaction does to the clusters**: it founds one, adds a member to one, or
leaves all member lists alone. -/
inductive MemberStep (s : System) (cm' : ClusterManager) : System.Tx → Prop
  | create {ctx : Ctx} {chainIds : List ChainId} {members : List Address}
      (members_eq : (cm'.clusters s.manager.nextClusterId).members
        = (s.manager.clusters s.manager.nextClusterId).members ++ members)
      (active : (cm'.clusters s.manager.nextClusterId).isActive = true)
      (head : (cm'.clusters s.manager.nextClusterId).clusterHead
        ∈ (cm'.clusters s.manager.nextClusterId).members)
      (others : ∀ c, c ≠ s.manager.nextClusterId → cm'.clusters c = s.manager.clusters c) :
      MemberStep s cm' (.manager ctx (.createCluster chainIds members))
  | join {ctx : Ctx} {clusterId : Nat} {member : Address}
      (registered : s.registry.isCommitterRegistered member = true)
      (state : cm' = afterMember clusterId member s.manager) :
      MemberStep s cm' (.manager ctx (.addMember clusterId member))
  | same {tx : System.Tx} (kept : ∀ c, SameMembers (s.manager.clusters c) (cm'.clusters c))
      (hcreate : ∀ ctx chainIds members, tx ≠ .manager ctx (.createCluster chainIds members))
      (hjoin : ∀ ctx clusterId member, tx ≠ .manager ctx (.addMember clusterId member)) :
      MemberStep s cm' tx

variable {pairing : PairingCheck} {S : Setting}

/-- A new cluster has the listed members. -/
theorem create_step {ctx : Ctx} {chainIds : List ChainId} {members : List Address}
    {head : Address} (s : System)
    (draw : drawHead ctx s.manager.nextClusterId s.registry
      (addCluster chainIds members s.manager) = .ok head) :
    MemberStep s (setHead s.manager.nextClusterId head (addCluster chainIds members s.manager))
      (.manager ctx (.createCluster chainIds members)) := by
  have hnew : (addCluster chainIds members s.manager).clusters s.manager.nextClusterId
      = { s.manager.clusters s.manager.nextClusterId with
          clusterId := s.manager.nextClusterId
          assignedChainIds := chainIds
          isActive := true
          members := (s.manager.clusters s.manager.nextClusterId).members ++ members } :=
    update_self ..
  have hmem := drawHead_mem draw
  refine .create ?_ ?_ ?_ ?_
  · rw [clusters_setHead_self, hnew]
  · rw [clusters_setHead_self, hnew]
  · rw [clusters_setHead_self]
    exact hmem
  · intro c hc
    rw [clusters_setHead_of_ne hc]
    exact update_of_ne hc ..

/-- A manager call, as the members see it. -/
theorem memberStep_manager {ctx : Ctx} {call : Call} {s s' : System}
    (h : System.exec pairing S (.manager ctx call) s = .ok s') :
    MemberStep s s'.manager (.manager ctx call) := by
  have heff := System.exec_effect h
  obtain ⟨-, hdispatch⟩ := System.exec_eq_ok.mp h
  obtain ⟨⟨reg', cm'⟩, hcall, rfl⟩ := map_eq_ok.mp hdispatch
  have hsame : ∀ c, SameMembers (s.manager.clusters c) (s.manager.clusters c) := fun _ => .refl _
  cases heff with
  | manager effect =>
    cases effect with
    | createCluster _ _ _ draw => exact create_step s draw
    | addMember _ registered => exact .join registered rfl
    | elect _ draw =>
      exact .same (sameMembers_setHead (drawHead_mem draw)) (fun _ _ _ hc => nomatch hc)
        (fun _ _ _ hc => nomatch hc)
    | submit _ =>
      refine .same ?_ (fun _ _ _ hc => nomatch hc) (fun _ _ _ hc => nomatch hc)
      exact sameMembers_update ⟨rfl, rfl, .inl rfl⟩
    | verify _ _ _ =>
      exact .same hsame (fun _ _ _ hc => nomatch hc) (fun _ _ _ hc => nomatch hc)
    | crossReference _ =>
      exact .same hsame (fun _ _ _ hc => nomatch hc) (fun _ _ _ hc => nomatch hc)
    | reshuffle _ _ _ _ =>
      -- the effect does not say whom the elections drew
      obtain ⟨cm₁, hreshuffle, heq⟩ := map_eq_ok.mp hcall
      obtain ⟨-, rfl⟩ := Prod.mk.inj heq
      exact .same (sameMembers_reshuffle hreshuffle) (fun _ _ _ hc => nomatch hc)
        (fun _ _ _ hc => nomatch hc)
    | file _ => exact .same hsame (fun _ _ _ hc => nomatch hc) (fun _ _ _ hc => nomatch hc)
    | uphold guards =>
      exact .same (sameMembers_setHead (drawHead_mem guards.draw))
        (fun _ _ _ hc => nomatch hc) (fun _ _ _ hc => nomatch hc)
    | dismiss _ _ => exact .same hsame (fun _ _ _ hc => nomatch hc) (fun _ _ _ hc => nomatch hc)
    | advance _ _ => exact .same hsame (fun _ _ _ hc => nomatch hc) (fun _ _ _ hc => nomatch hc)

/-- **Inversion of a transaction, for the member lists.** -/
theorem memberStep {tx : System.Tx} {s s' : System} (h : System.exec pairing S tx s = .ok s') :
    MemberStep s s'.manager tx := by
  have hsame : ∀ {cm' : ClusterManager} {tx : System.Tx}, cm'.clusters = s.manager.clusters →
      (∀ ctx call, tx ≠ .manager ctx call) → MemberStep s cm' tx := by
    intro cm' tx hclusters htx
    refine .same ?_ (fun ctx _ _ => htx ctx _) (fun ctx _ _ => htx ctx _)
    intro c
    rw [hclusters]
    exact .refl _
  cases tx with
  | manager ctx call => exact memberStep_manager h
  | registry tx =>
    cases System.exec_effect h with
    | registry call => exact hsame rfl (fun _ _ hc => nomatch hc)
  | audit msg call =>
    cases System.exec_effect h with
    | clusterAudit _ call =>
      obtain ⟨-, -, -, rfl⟩ := verifyClusterCommit_eq_ok.mp call
      exact hsame rfl (fun _ _ hc => nomatch hc)
    | legacyAudit _ call =>
      obtain ⟨-, -, -, rfl⟩ := verifyClusterCommit_eq_ok.mp call
      exact hsame rfl (fun _ _ hc => nomatch hc)
    | registerChain _ _ => exact hsame rfl (fun _ _ hc => nomatch hc)
    | submitCommit _ => exact hsame rfl (fun _ _ hc => nomatch hc)
    | weightedAudit _ => exact hsame rfl (fun _ _ hc => nomatch hc)
    | singleAudit _ => exact hsame rfl (fun _ _ hc => nomatch hc)
    | admin _ => exact hsame rfl (fun _ _ hc => nomatch hc)

/-! ## §2. The invariant and its condition. -/

/-- Distinct registered members, and the head among them. -/
structure SoundCluster (reg : ReputationRegistry) (c : Cluster) : Prop where
  distinct : c.members.Nodup
  registered : ∀ m ∈ c.members, reg.isCommitterRegistered m = true
  headed : c.clusterHead ∈ c.members

/-- Every active cluster is sound. -/
def SoundClusters (s : System) : Prop :=
  ∀ id, (s.manager.clusters id).isActive = true → SoundCluster s.registry (s.manager.clusters id)

/-- The condition on a transaction that succeeds.  A new cluster may already have members:
`addMember` serves its id before it exists. -/
structure KeepsMembers (pairing : PairingCheck) (S : Setting) (s : System) (tx : System.Tx) :
    Prop where
  create : ∀ ctx chainIds members, tx = .manager ctx (.createCluster chainIds members) →
    (System.exec pairing S tx s).isOk = true →
    ((s.manager.clusters s.manager.nextClusterId).members ++ members).Nodup
      ∧ ∀ m ∈ (s.manager.clusters s.manager.nextClusterId).members ++ members,
        s.registry.isCommitterRegistered m = true
  join : ∀ ctx clusterId member, tx = .manager ctx (.addMember clusterId member) →
    (System.exec pairing S tx s).isOk = true → (s.manager.clusters clusterId).isActive = true →
    member ∉ (s.manager.clusters clusterId).members

theorem keepsMembers_of_error {tx : System.Tx} {s : System} {e : Revert}
    (h : System.exec pairing S tx s = .error e) : KeepsMembers pairing S s tx := by
  constructor
  · intro ctx chainIds members _ hok
    rw [h] at hok
    exact absurd hok Bool.false_ne_true
  · intro ctx clusterId member _ hok
    rw [h] at hok
    exact absurd hok Bool.false_ne_true

/-- Committers stay registered. -/
theorem registered_system {tx : System.Tx} {s s' : System}
    (h : System.exec pairing S tx s = .ok s') {a : Address}
    (ha : s.registry.isCommitterRegistered a = true) :
    s'.registry.isCommitterRegistered a = true :=
  System.registry_step (P := fun reg => reg.isCommitterRegistered a = true)
    (fun _ _ _ hreg hcall => ReputationRegistry.registered_step hreg hcall) ha h

/-- What keeps members keeps soundness. -/
theorem SoundCluster.same {reg reg' : ReputationRegistry} {c c' : Cluster}
    (h : SoundCluster reg c) (hsame : SameMembers c c')
    (hreg : ∀ a, reg.isCommitterRegistered a = true → reg'.isCommitterRegistered a = true) :
    SoundCluster reg' c' := by
  refine ⟨?_, ?_, ?_⟩
  · rw [hsame.members]
    exact h.distinct
  · intro m hm
    rw [hsame.members] at hm
    exact hreg m (h.registered m hm)
  · rw [hsame.members]
    rcases hsame.head with hold | hmem
    · rw [hold]
      exact h.headed
    · exact hmem

/-- Founding a cluster writes nothing to the registry. -/
theorem registry_create {ctx : Ctx} {chainIds : List ChainId} {members : List Address}
    {s s' : System}
    (h : System.exec pairing S (.manager ctx (.createCluster chainIds members)) s = .ok s') :
    s'.registry = s.registry := by
  cases System.exec_effect h with
  | manager effect =>
    cases effect with
    | createCluster _ _ _ _ => rfl

theorem members_join (clusterId : Nat) (member : Address) (cm : ClusterManager) :
    (afterMember clusterId member cm).clusters clusterId
      = { cm.clusters clusterId with members := (cm.clusters clusterId).members ++ [member] } :=
  update_self ..

theorem members_join_of_ne {clusterId c : Nat} (member : Address) (cm : ClusterManager)
    (h : c ≠ clusterId) : (afterMember clusterId member cm).clusters c = cm.clusters c :=
  update_of_ne h ..

/-- **One transaction keeps the clusters sound exactly when it meets the condition.** -/
theorem soundClusters_step {s s' : System} {tx : System.Tx} (hs : SoundClusters s)
    (h : System.exec pairing S tx s = .ok s') :
    SoundClusters s' ↔ KeepsMembers pairing S s tx := by
  have hok := isOk_of_eq h
  have hreg : ∀ a, s.registry.isCommitterRegistered a = true →
      s'.registry.isCommitterRegistered a = true := fun a => registered_system h
  cases memberStep h with
  | @create ctx chainIds members members_eq active head others =>
    constructor
    · intro hs'
      have hnew := hs' _ active
      have hold := registry_create h
      refine ⟨?_, fun _ _ _ hc => nomatch hc⟩
      intro ctx' chainIds' members' htx _
      cases htx
      rw [← members_eq, ← hold]
      exact ⟨hnew.distinct, hnew.registered⟩
    · intro hkeeps id hactive
      by_cases hid : id = s.manager.nextClusterId
      · obtain ⟨hdistinct, hregistered⟩ := hkeeps.create ctx chainIds members rfl hok
        subst hid
        refine ⟨?_, ?_, head⟩
        · rw [members_eq]
          exact hdistinct
        · intro m hm
          rw [members_eq] at hm
          exact hreg m (hregistered m hm)
      · rw [others id hid] at hactive ⊢
        exact (hs id hactive).same (.refl _) hreg
  | @join ctx clusterId member registered state =>
    constructor
    · intro hs'
      refine ⟨(fun _ _ _ hc => nomatch hc), ?_⟩
      intro ctx' clusterId' member' htx _ hactive
      cases htx
      have hnew := hs' clusterId (by rw [state, members_join]; exact hactive)
      have hdistinct := hnew.distinct
      rw [state, members_join] at hdistinct
      intro hin
      exact List.disjoint_of_nodup_append hdistinct hin (List.mem_singleton_self member)
    · intro hkeeps id hactive
      by_cases hid : id = clusterId
      · subst hid
        rw [state, members_join] at hactive ⊢
        have hsound := hs id hactive
        refine ⟨?_, ?_, List.mem_append_left _ hsound.headed⟩
        · apply List.Nodup.append hsound.distinct (List.nodup_singleton member)
          rw [List.disjoint_singleton]
          exact hkeeps.join ctx id member rfl hok hactive
        · intro m hm
          rcases List.mem_append.mp hm with hold | hlast
          · exact hreg m (hsound.registered m hold)
          · rw [List.mem_singleton.mp hlast]
            exact hreg member registered
      · rw [state, members_join_of_ne member s.manager hid] at hactive ⊢
        exact (hs id hactive).same (.refl _) hreg
  | same kept hcreate hjoin =>
    refine iff_of_true ?_ ⟨?_, ?_⟩
    · intro id hactive
      rw [(kept id).active] at hactive
      exact (hs id hactive).same (kept id) hreg
    · intro ctx chainIds members htx
      exact absurd htx (hcreate ctx chainIds members)
    · intro ctx clusterId member htx
      exact absurd htx (hjoin ctx clusterId member)

/-- **Every prefix is sound iff each step keeps members**. -/
theorem soundClusters_iff (pairing : PairingCheck) (S : Setting)
    (deployers : Deployers) (txs : List System.Tx) :
    (∀ k, SoundClusters (run (System.exec pairing S) (System.deploy deployers)
        (txs.take k)))
      ↔ StepsMeet (System.exec pairing S) (KeepsMembers pairing S)
          (System.deploy deployers) txs :=
  run_invariant_iff (Q := SoundClusters) (P := fun _ => True) (fun _ _ _ _ _ => trivial)
    (fun _ _ _ _ hs h => soundClusters_step hs h) (fun _ _ _ h => keepsMembers_of_error h) txs
    trivial (fun _ hactive => absurd hactive Bool.false_ne_true)

/-! ## §3. What rests on it. -/

/-- What `totalWeight` adds up for one account stays below the cap, if it is listed once. -/
theorem share_le {reg : ReputationRegistry} (hinv : ReputationRegistry.RegistryInv reg)
    {members : List Address} (h : members.Nodup) (a : Address) :
    ∃ w, w ≤ ReputationRegistry.W_MAX
      ∧ totalWeight (members.filter (fun m => m = a)) reg = .ok w := by
  have hcount : (members.filter (fun m => m = a)).length ≤ 1 := by
    have hle := List.nodup_iff_count_le_one.mp h a
    rw [List.count_eq_countP, List.countP_eq_length_filter] at hle
    exact hle
  have hlisted : ∀ m ∈ members.filter (fun m => m = a), m = a := by
    intro m hm
    exact of_decide_eq_true (List.mem_filter.mp hm).2
  generalize members.filter (fun m => m = a) = entries at hcount hlisted
  cases entries with
  | nil => exact ⟨0, Nat.zero_le _, rfl⟩
  | cons m rest =>
    have hrest : rest = [] := by
      rw [List.length_cons] at hcount
      exact List.length_eq_zero_iff.mp (by omega)
    obtain ⟨w, hle, hw⟩ := ReputationRegistry.getElectionWeight_ok hinv m
    have hrange : w < 2 ^ 256 := by
      have hcap : ReputationRegistry.W_MAX < 2 ^ 256 := by norm_num [ReputationRegistry.W_MAX]
      omega
    refine ⟨w, hle, ?_⟩
    rw [hrest]
    apply (totalWeight_iff (w := fun _ => w) _).mpr
    · exact ⟨hrange, Nat.add_zero w⟩
    · intro b hb
      rw [List.mem_singleton.mp hb, hw]

/-- The heads of all recorded commits are registered. -/
def HeadsRegistered (s : System) : Prop :=
  ∀ id ∈ s.manager.commitHistory,
    s.registry.isCommitterRegistered (s.manager.clusterCommits id).clusterHead = true

/-- **One transaction** keeps the heads registered. -/
theorem headsRegistered_step {s s' : System} {tx : System.Tx} (hs : SoundClusters s)
    (hheads : HeadsRegistered s) (h : System.exec pairing S tx s = .ok s') : HeadsRegistered s' := by
  obtain ⟨-, hstep⟩ := System.commits_step h
  intro id hid
  apply registered_system h
  rcases hstep with ⟨ctx, clusterId, chainRoots, -, hguards, hs'⟩ | ⟨commitId, -, hs'⟩ | hsame
  · rw [hs'] at hid ⊢
    by_cases hnew : id = newCommitKey ctx clusterId chainRoots s.manager
    · -- the sender is the head of an active cluster
      rw [hnew, (commits_afterSubmit_self ctx clusterId chainRoots s.manager).1]
      have hsound := hs clusterId hguards.active
      show s.registry.isCommitterRegistered ctx.msg.sender = true
      rw [hguards.head]
      exact hsound.registered _ hsound.headed
    · rw [(commits_afterSubmit_of_ne s.manager hnew).1]
      rcases List.mem_append.mp hid with hold | hlast
      · exact hheads id hold
      · exact absurd (List.mem_singleton.mp hlast) hnew
  · rw [hs'] at hid ⊢
    rw [commits_markVerified commitId id s.manager]
    exact hheads id hid
  · rw [hsame.commitHistory] at hid
    rw [hsame.clusterCommits]
    exact hheads id hid

/-- **Every run** keeps the heads registered. -/
theorem headsRegistered_run (pairing : PairingCheck) (S : Setting)
    (deployers : Deployers) {txs : List System.Tx}
    (hmeets : StepsMeet (System.exec pairing S) (KeepsMembers pairing S)
      (System.deploy deployers) txs) :
    HeadsRegistered (run (System.exec pairing S) (System.deploy deployers) txs) := by
  have hboth := run_invariant_of (P := fun s => SoundClusters s ∧ HeadsRegistered s)
    (fun s tx s' hkeeps hP h => ⟨(soundClusters_step hP.1 h).mpr hkeeps,
      headsRegistered_step hP.1 hP.2 h⟩) txs (System.deploy deployers)
    ⟨fun _ hactive => absurd hactive Bool.false_ne_true, fun _ hid => absurd hid List.not_mem_nil⟩
    hmeets
  exact hboth.2

/-- Only an unregistered head makes `updateState` fail with this message. -/
theorem updateState_registered {msg : Msg} {ct : Address} {e : EventType} {p : Bytes32}
    {reg : ReputationRegistry} (hinv : ReputationRegistry.RegistryInv reg)
    (hct : reg.isCommitterRegistered ct = true) (he : e ≠ .INVALID) :
    reg.updateState msg ct e p ≠ .error (.require "Not registered") := by
  intro hfail
  by_cases hauth : reg.authorizedAuditors msg.sender = true
  · obtain ⟨reg', hupdate⟩ := ReputationRegistry.updateState_ok e p hauth hct
      (hinv.records ct hct) (fun hc => absurd hc he) (fun hc => absurd hc he)
    rw [hupdate] at hfail
    exact nomatch hfail
  · unfold ReputationRegistry.updateState at hfail
    rcases bind_eq_error.mp hfail with hrequire | ⟨_, hok, -⟩
    · obtain ⟨-, hmsg⟩ := require_eq_error.mp hrequire
      exact absurd hmsg (by decide)
    · exact hauth (require_eq_ok.mp hok)

/-- A registered head's commit is verified. -/
theorem verifies_of_registered {msg : Msg} {commitId : Bytes32} {reg : ReputationRegistry}
    {cm : ClusterManager} (hinv : ReputationRegistry.RegistryInv reg)
    (h : reg.isCommitterRegistered (cm.clusterCommits commitId).clusterHead = true) :
    verifyClusterCommit S msg commitId reg cm ≠ .error (.require "Not registered") := by
  intro hfail
  unfold verifyClusterCommit at hfail
  rcases bind_eq_error.mp hfail with hrequire | ⟨_, -, hfail⟩
  · exact absurd (require_eq_error.mp hrequire).2 (by decide)
  rcases bind_eq_error.mp hfail with hrequire | ⟨_, -, hfail⟩
  · exact absurd (require_eq_error.mp hrequire).2 (by decide)
  rcases bind_eq_error.mp hfail with hcredit | ⟨reg', -, hdone⟩
  · exact updateState_registered hinv h (show EventType.VALID ≠ .INVALID by decide) hcredit
  · exact nomatch hdone

/-- **Sound membership**: the clusters, the weights that stand for election, and the recorded
commits. -/
structure Membership (S : Setting) (s : System) : Prop where
  clusters : SoundClusters s
  share : ∀ id, (s.manager.clusters id).isActive = true → ∀ a,
    ∃ w, w ≤ ReputationRegistry.W_MAX
      ∧ totalWeight ((s.manager.clusters id).members.filter (fun m => m = a)) s.registry = .ok w
  verifies : ∀ commitId ∈ s.manager.commitHistory, ∀ msg,
    verifyClusterCommit S msg commitId s.registry s.manager ≠ .error (.require "Not registered")

/-- **Membership is sound along a run exactly when every transaction meets the condition.** -/
theorem membership_iff (pairing : PairingCheck) (S : Setting) (deployers : Deployers)
    (txs : List System.Tx) :
    (∀ k, Membership S (run (System.exec pairing S) (System.deploy deployers)
        (txs.take k)))
      ↔ StepsMeet (System.exec pairing S) (KeepsMembers pairing S)
          (System.deploy deployers) txs := by
  constructor
  · intro hall
    exact (soundClusters_iff pairing S deployers txs).mp
      (fun k => (hall k).clusters)
  · intro hmeets k
    have hinv := System.registryInv_run pairing S deployers (txs.take k)
    have hsound := (soundClusters_iff pairing S deployers txs).mpr hmeets k
    have hheads := headsRegistered_run pairing S deployers (stepsMeet_take hmeets k)
    refine ⟨hsound, ?_, ?_⟩
    · intro id hactive a
      exact share_le hinv (hsound id hactive).distinct a
    · intro commitId hid msg
      exact verifies_of_registered hinv (hheads commitId hid)

/-! ## §4. Without the condition.

The cluster of account 7, who is not registered, goes on: account 1 joins it twice, or account 7
submits a commit as its head. -/

/-- Account 7 is nobody. -/
theorem states_seven : authorized.states 7 = StateSnapshot.zero := by
  show (ReputationRegistry.deploy 1).states 7 = StateSnapshot.zero
  exact ReputationRegistry.deploy_states_of_ne (by decide)

/-- Account 1 in the list twice. -/
def joinedTwice : System :=
  ⟨authorized, afterMember 1 1 (afterMember 1 1 headedBySeven), AuditContractV2.deploy 1⟩

theorem exec_joinCluster (pairing : PairingCheck) {cm : ClusterManager} (howner : cm.owner = 1) :
    System.exec pairing setting joinCluster ⟨authorized, cm, AuditContractV2.deploy 1⟩
      = .ok ⟨authorized, afterMember 1 1 cm, AuditContractV2.deploy 1⟩ := by
  have hjoin : addMember owner 1 1 authorized cm = .ok (afterMember 1 1 cm) := by
    rw [addMember, require_bind (show owner.msg.sender = cm.owner from howner.symm),
      require_bind (show authorized.isCommitterRegistered 1 = true from registered_one)]
    rfl
  exact System.exec_manager_ok (by decide) (map_eq_ok.mpr ⟨_, hjoin, rfl⟩)

theorem run_joinedTwice (pairing : PairingCheck) :
    run (System.exec pairing setting) (System.deploy (.all 1))
      ([authorizeManager, foundCluster] ++ [joinCluster, joinCluster]) = joinedTwice := by
  rw [run_append, run_headed, run_cons, headed, commit_of_ok (exec_joinCluster pairing rfl),
    run_cons, commit_of_ok (exec_joinCluster pairing rfl), run_nil]
  rfl

/-- The genesis account has the full capped weight. -/
theorem weight_one : authorized.getElectionWeight 1 = .ok ReputationRegistry.W_MAX := by
  have hstate : authorized.states 1 = ReputationRegistry.genesisState :=
    ReputationRegistry.deploy_states_self 1
  have hbase : ReputationRegistry.genesisState.baseReputation = ReputationRegistry.W_MAX := by
    norm_num [ReputationRegistry.genesisState, ReputationRegistry.R_MAX, ReputationRegistry.W_MAX]
  have hweight := ReputationRegistry.electionWeight_of_faultless authorized_inv 1
  rw [hstate, hbase] at hweight
  exact hweight rfl rfl (by norm_num [ReputationRegistry.R_MIN, ReputationRegistry.W_MAX]) (le_refl _)

/-- Twice that. -/
theorem weight_joinedTwice : totalWeight ((joinedTwice.manager.clusters 1).members.filter
    (fun m => m = 1)) authorized
      = .ok (ReputationRegistry.W_MAX + ReputationRegistry.W_MAX) := by
  have hmembers : (joinedTwice.manager.clusters 1).members.filter (fun m => m = 1)
      = [(1 : Address), 1] := by decide
  rw [hmembers]
  apply (totalWeight_iff (w := fun _ => ReputationRegistry.W_MAX) _).mpr
  · exact ⟨by norm_num [ReputationRegistry.W_MAX], rfl⟩
  · intro m hm
    have hone : m = 1 := by simpa using hm
    rw [hone, weight_one]

/-- The head submits a root for chain 0. -/
def sevenSubmits : System.Tx := .manager seven (.submitClusterCommit 1 [9])

/-- The system with a commit of 7. -/
def submitted : System :=
  ⟨authorized, afterSubmit seven 1 [9] headedBySeven, AuditContractV2.deploy 1⟩

theorem run_submitted (pairing : PairingCheck) :
    run (System.exec pairing setting) (System.deploy (.all 1))
      ([authorizeManager, foundCluster] ++ [sevenSubmits]) = submitted := by
  have hguards : CanSubmit seven 1 [9] headedBySeven := ⟨rfl, rfl, rfl, by decide⟩
  have hsubmit : submitClusterCommit seven 1 [9] headedBySeven
      = .ok (afterSubmit seven 1 [9] headedBySeven) := submitClusterCommit_eq_ok.mpr ⟨hguards, rfl⟩
  have hexec : System.exec pairing setting sevenSubmits headed = .ok submitted :=
    System.exec_manager_ok (by decide) (map_eq_ok.mpr ⟨_, hsubmit, rfl⟩)
  rw [run_snoc, run_headed, commit_of_ok hexec]

/-- Its head cannot be credited. -/
theorem submitted_reverts : verifyClusterCommit setting owner.msg
    (newCommitKey seven 1 [9] headedBySeven) authorized submitted.manager
      = .error (.require "Not registered") := by
  have hrecord : submitted.manager.clusterCommits (newCommitKey seven 1 [9] headedBySeven)
      = newClusterCommit seven 1 [9] headedBySeven :=
    (commits_afterSubmit_self seven 1 [9] headedBySeven).1
  have hunknown : (authorized.states 7).isRegistered ≠ true := by
    rw [states_seven]
    decide
  have hupdate : authorized.updateState (asManager setting owner.msg) 7 .VALID
      (merkleRoot [9]) = .error (.require "Not registered") := by
    unfold ReputationRegistry.updateState
    rw [require_bind (show authorized.authorizedAuditors (asManager setting owner.msg).sender = true
      from rfl)]
    exact bind_eq_error.mpr (.inl (require_eq_error.mpr ⟨hunknown, rfl⟩))
  unfold verifyClusterCommit
  dsimp only
  rw [require_bind (show mayVerify setting owner.msg.sender submitted.manager from .inl rfl), hrecord,
    require_bind (show (newClusterCommit seven 1 [9] headedBySeven).isVerified = false from rfl)]
  exact bind_eq_error.mpr (.inl hupdate)

/-- **None of the three holds along every run.** -/
theorem membership_unsound :
    (¬ ∀ (pairing : PairingCheck) (S : Setting) (deployers : Deployers)
        (txs : List System.Tx), SoundClusters
          (run (System.exec pairing S) (System.deploy deployers) txs))
      ∧ (¬ ∀ (pairing : PairingCheck) (S : Setting) (deployers : Deployers)
        (txs : List System.Tx) (id : Nat) (a : Address) (w : Nat),
        ((run (System.exec pairing S) (System.deploy deployers)
          txs).manager.clusters id).isActive = true →
        totalWeight (((run (System.exec pairing S) (System.deploy deployers)
          txs).manager.clusters id).members.filter (fun m => m = a))
          (run (System.exec pairing S) (System.deploy deployers) txs).registry
          = .ok w →
        w ≤ ReputationRegistry.W_MAX)
      ∧ ¬ ∀ (pairing : PairingCheck) (S : Setting) (deployers : Deployers)
        (txs : List System.Tx) (msg : Msg),
        ∀ commitId ∈ (run (System.exec pairing S) (System.deploy deployers)
          txs).manager.commitHistory,
        verifyClusterCommit S msg commitId
          (run (System.exec pairing S) (System.deploy deployers) txs).registry
          (run (System.exec pairing S) (System.deploy deployers) txs).manager
          ≠ .error (.require "Not registered") := by
  refine ⟨?_, ?_, ?_⟩
  · intro hall
    have hsound := hall (fun _ _ _ => .ok true) setting (.all 1) [authorizeManager, foundCluster]
    rw [run_headed] at hsound
    have hseven : authorized.isCommitterRegistered 7 = true :=
      (hsound 1 rfl).registered 7 (show (7 : Address) ∈ [(7 : Address)] from List.mem_singleton_self 7)
    have hblank : authorized.isCommitterRegistered 7 = false := by
      unfold ReputationRegistry.isCommitterRegistered
      rw [states_seven]
      rfl
    rw [hblank] at hseven
    exact absurd hseven (by decide)
  · intro hall
    have hcapped := hall (fun _ _ _ => .ok true) setting (.all 1)
      ([authorizeManager, foundCluster] ++ [joinCluster, joinCluster]) 1 1
      (ReputationRegistry.W_MAX + ReputationRegistry.W_MAX)
    rw [run_joinedTwice] at hcapped
    exact absurd (hcapped rfl weight_joinedTwice) (by norm_num [ReputationRegistry.W_MAX])
  · intro hall
    have hverifies := hall (fun _ _ _ => .ok true) setting (.all 1)
      ([authorizeManager, foundCluster] ++ [sevenSubmits]) owner.msg
      (newCommitKey seven 1 [9] headedBySeven)
    rw [run_submitted] at hverifies
    exact hverifies (List.mem_append_right _ (List.mem_singleton_self _)) submitted_reverts

end HZKA.Clusters
