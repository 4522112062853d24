/-
  HZKA.Clusters.Authority
  ────────────
  **HOW FAR A CLUSTER HEAD REACHES.**

  `crossReferenceAndUpdate` admits, besides the owner, the head of the cluster of chain 0,
  and then reports an event to the registry for every address it is handed.  It never
  compares these addresses with the members of a cluster.

    • `states_crossReference` — the loop, address by address: a record goes through the
      events listed for its own address and no others;
    • `confined_of_members`   — a call by the head of the cluster of chain 0 that lists its
      members only stays within it: over every run that cluster is active;
    • `exec_probe`            — a head can move every record that a report can move at all;
    • `head_confined_iff`     — so its authority is confined EXACTLY when all committers in
      good standing are members of its cluster;
    • `head_reaches_out`      — account 7, alone in the cluster of chain 0, lowers the
      reputation of account 1.
-/
import HZKA.Clusters.Challenges
import HZKA.Reputation.Order

namespace HZKA.Clusters

open Function
open HZKA.Lib HZKA.EVM HZKA.Groth16Verifier HZKA.ClusterManager
open HZKA.ReputationRegistry (recordStep afterEvents)

/-! ## §1. The loop, address by address. -/

/-- A report moves the record it is about. -/
theorem states_afterUpdate (ct : Address) (e : EventType) (p : Bytes32) (reg : ReputationRegistry)
    (a : Address) :
    (reg.afterUpdate ct e p).states a
      = if ct = a then recordStep (reg.states a) e else reg.states a := by
  unfold ReputationRegistry.afterUpdate recordStep
  by_cases ha : ct = a
  · subst ha
    rw [if_pos rfl]
    split
    next => rfl
    next =>
      show update reg.states ct _ ct = _
      rw [update_self]
  · rw [if_neg ha]
    split
    next => rfl
    next =>
      show update reg.states ct _ a = _
      rw [update_of_ne (Ne.symm ha)]

/-- The events a call lists for an address, in order. -/
def eventsFor (committerAddrs : List Address) (submittedRoots : List Bytes32)
    (aliveFlags : List Bool) (a : Address) : List EventType :=
  ((committerAddrs.zip (submittedRoots.zip aliveFlags)).filter (fun entry => entry.1 = a)).map
    (fun entry => crossReferenceEvent (majorityRoot submittedRoots) entry.2.1 entry.2.2)

/-- The loop body, for any choice of events. -/
theorem states_loop {msg : Msg} (event : Bytes32 × Bool → EventType) (a : Address) :
    ∀ {entries : List (Address × Bytes32 × Bool)} {reg reg' : ReputationRegistry},
    entries.foldlM (fun reg entry => reg.updateState msg entry.1 (event entry.2) entry.2.1) reg
      = .ok reg' →
    reg'.states a
      = afterEvents ((entries.filter (fun entry => entry.1 = a)).map (fun entry => event entry.2))
        (reg.states a) := by
  intro entries
  induction entries with
  | nil =>
    intro reg reg' h
    rw [List.foldlM_nil, pure_eq_ok] at h
    rw [← h]
    rfl
  | cons entry rest ih =>
    intro reg reg' h
    obtain ⟨reg₁, hfirst, hrest⟩ := bind_eq_ok.mp h
    obtain ⟨-, rfl⟩ := ReputationRegistry.updateState_eq_ok hfirst
    rw [ih hrest, states_afterUpdate]
    -- the entry is the address's own, or it leaves its record alone
    by_cases hentry : entry.1 = a
    · rw [if_pos hentry, List.filter_cons, if_pos (decide_eq_true hentry), List.map_cons]
      rfl
    · rw [if_neg hentry, List.filter_cons, if_neg (by simpa using hentry)]

/-- The guards of `crossReferenceAndUpdate`. -/
structure CanCrossReference (ctx : Ctx) (committerAddrs : List Address)
    (submittedRoots : List Bytes32) (aliveFlags : List Bool) (cm : ClusterManager) : Prop where
  authorized : ctx.msg.sender = cm.owner
    ∨ (cm.clusters (cm.chainToCluster 0)).clusterHead = ctx.msg.sender
  roots : committerAddrs.length = submittedRoots.length
  flags : committerAddrs.length = aliveFlags.length

theorem crossReferenceAndUpdate_eq_ok {S : Setting} {ctx : Ctx} {committerAddrs : List Address}
    {submittedRoots : List Bytes32} {aliveFlags : List Bool} {reg reg' : ReputationRegistry}
    {cm : ClusterManager} :
    crossReferenceAndUpdate S ctx committerAddrs submittedRoots aliveFlags reg cm = .ok reg'
      ↔ CanCrossReference ctx committerAddrs submittedRoots aliveFlags cm
        ∧ (committerAddrs.zip (submittedRoots.zip aliveFlags)).foldlM (fun reg entry =>
            reg.updateState (asManager S ctx.msg) entry.1
              (crossReferenceEvent (majorityRoot submittedRoots) entry.2.1 entry.2.2) entry.2.1) reg
          = .ok reg' := by
  constructor
  · intro h
    obtain ⟨_, hauth, h⟩ := bind_eq_ok.mp h
    obtain ⟨_, hroots, h⟩ := bind_eq_ok.mp h
    obtain ⟨_, hflags, h⟩ := bind_eq_ok.mp h
    rw [require_eq_ok] at hauth hroots hflags
    exact ⟨⟨hauth, hroots, hflags⟩, h⟩
  · intro h
    rw [crossReferenceAndUpdate, require_bind h.1.authorized, require_bind h.1.roots,
      require_bind h.1.flags]
    exact h.2

/-- **The call, address by address.** -/
theorem states_crossReference {S : Setting} {ctx : Ctx} {committerAddrs : List Address}
    {submittedRoots : List Bytes32} {aliveFlags : List Bool} {reg reg' : ReputationRegistry}
    {cm : ClusterManager}
    (h : crossReferenceAndUpdate S ctx committerAddrs submittedRoots aliveFlags reg cm = .ok reg')
    (a : Address) : reg'.states a
      = afterEvents (eventsFor committerAddrs submittedRoots aliveFlags a) (reg.states a) :=
  states_loop (fun p => crossReferenceEvent (majorityRoot submittedRoots) p.1 p.2) a
    (crossReferenceAndUpdate_eq_ok.mp h).2

/-- An address that is not listed keeps its record. -/
theorem eventsFor_of_not_mem {committerAddrs : List Address} (submittedRoots : List Bytes32)
    (aliveFlags : List Bool) {a : Address} (ha : a ∉ committerAddrs) :
    eventsFor committerAddrs submittedRoots aliveFlags a = [] := by
  have hnone : (committerAddrs.zip (submittedRoots.zip aliveFlags)).filter
      (fun entry => entry.1 = a) = [] := by
    apply List.filter_eq_nil_iff.mpr
    intro entry hentry hsame
    have hlisted := (List.of_mem_zip (show (entry.1, entry.2) ∈ _ from hentry)).1
    rw [of_decide_eq_true hsame] at hlisted
    exact ha hlisted
  unfold eventsFor
  rw [hnone]
  rfl

/-! ## §2. The property. -/

/-- The caller heads an active cluster, and only members of it have a new record. -/
def Confined (caller : Address) (s s' : System) : Prop :=
  ∃ clusterId, (s.manager.clusters clusterId).isActive = true
    ∧ (s.manager.clusters clusterId).clusterHead = caller
    ∧ ∀ a, s'.registry.states a ≠ s.registry.states a → a ∈ (s.manager.clusters clusterId).members

/-- The transaction. -/
def crossReference (ctx : Ctx) (committerAddrs : List Address) (submittedRoots : List Bytes32)
    (aliveFlags : List Bool) : System.Tx :=
  .manager ctx (.crossReferenceAndUpdate committerAddrs submittedRoots aliveFlags)

variable {pairing : PairingCheck} {S : Setting}

/-- What a successful transaction leaves. -/
theorem exec_crossReference {ctx : Ctx} {committerAddrs : List Address}
    {submittedRoots : List Bytes32} {aliveFlags : List Bool} {s s' : System}
    (h : System.exec pairing S (crossReference ctx committerAddrs submittedRoots aliveFlags) s
      = .ok s') :
    CanCrossReference ctx committerAddrs submittedRoots aliveFlags s.manager
      ∧ ∀ a, s'.registry.states a
        = afterEvents (eventsFor committerAddrs submittedRoots aliveFlags a)
          (s.registry.states a) := by
  unfold crossReference at h
  cases System.exec_effect h with
  | manager effect =>
    cases effect with
    | crossReference update =>
      exact ⟨(crossReferenceAndUpdate_eq_ok.mp update).1, states_crossReference update⟩

/-! ## §3. Reachable assignments. -/

/-- Listed clusters are active, and the reverse map points to listed clusters or to none. -/
structure Founded (cm : ClusterManager) : Prop where
  active : ∀ c ∈ cm.clusterIds, (cm.clusters c).isActive = true
  mapped : ∀ x, cm.chainToCluster x ≠ 0 → cm.chainToCluster x ∈ cm.clusterIds

/-- No cluster yet. -/
theorem founded_deploy (deployer : Address) : Founded (deploy deployer) := by
  refine ⟨?_, ?_⟩
  · intro c hc
    exact absurd hc List.not_mem_nil
  · intro x hx
    exact absurd rfl hx

/-- A call that changes neither list nor map, and keeps active what is active. -/
theorem founded_of_same {cm cm' : ClusterManager} (hcm : Founded cm)
    (hids : cm'.clusterIds = cm.clusterIds) (hmap : cm'.chainToCluster = cm.chainToCluster)
    (hactive : ∀ c, (cm'.clusters c).isActive = (cm.clusters c).isActive) : Founded cm' := by
  refine ⟨?_, ?_⟩
  · intro c hc
    rw [hids] at hc
    rw [hactive]
    exact hcm.active c hc
  · intro x hx
    rw [hmap] at hx ⊢
    rw [hids]
    exact hcm.mapped x hx

theorem active_update {clusters : Nat → Cluster} {c : Nat} {cluster : Cluster}
    (h : cluster.isActive = (clusters c).isActive) (d : Nat) :
    (update clusters c cluster d).isActive = (clusters d).isActive :=
  rel_update (R := fun a b : Cluster => b.isActive = a.isActive) (fun _ => rfl) h d

/-- A new cluster is founded. -/
theorem founded_create {cm : ClusterManager} (hcm : Founded cm) (chainIds : List ChainId)
    (members : List Address) : Founded (addCluster chainIds members cm) := by
  refine ⟨?_, ?_⟩
  · intro c hc
    show (update cm.clusters cm.nextClusterId _ c).isActive = true
    by_cases hnew : c = cm.nextClusterId
    · rw [hnew, update_self]
    · rw [update_of_ne hnew]
      rcases List.mem_append.mp hc with hold | hlast
      · exact hcm.active c hold
      · exact absurd (List.mem_singleton.mp hlast) hnew
  · intro x hx
    have hmap : (addCluster chainIds members cm).chainToCluster x
        = if x ∈ chainIds then cm.nextClusterId else cm.chainToCluster x := mapChains_apply ..
    show _ ∈ cm.clusterIds ++ [cm.nextClusterId]
    rw [hmap] at hx ⊢
    by_cases hin : x ∈ chainIds
    · rw [if_pos hin]
      exact List.mem_append_right _ (List.mem_singleton_self _)
    · rw [if_neg hin] at hx ⊢
      exact List.mem_append_left _ (hcm.mapped x hx)

/-- The clearing loop touches the chain lists only. -/
theorem active_clear (ids : List Nat) (clusters : Nat → Cluster) (d : Nat) :
    (ids.foldl (fun clusters cid =>
      update clusters cid { clusters cid with assignedChainIds := [] }) clusters d).isActive
      = (clusters d).isActive := by
  induction ids generalizing clusters with
  | nil => rfl
  | cons cid ids ih =>
    have hkeep : ({ clusters cid with assignedChainIds := [] } : Cluster).isActive
        = (clusters cid).isActive := rfl
    rw [List.foldl_cons, ih]
    exact active_update hkeep d

/-- So does the assignment loop, and it maps chains to listed clusters. -/
theorem founded_deal {ids : List Nat} (hids : ids.length > 0) (l : List ChainId) :
    ∀ (i : Nat) {cm : ClusterManager}, cm.clusterIds = ids → Founded cm → Founded (deal ids i l cm) := by
  induction l with
  | nil =>
    intro i cm _ hcm
    exact hcm
  | cons x rest ih =>
    intro i cm hlist hcm
    refine ih (i + 1) hlist ⟨?_, ?_⟩
    · intro c hc
      have hsame : ((assignChain (roundRobin ids i) x cm).clusters c).isActive
          = (cm.clusters c).isActive := by
        apply active_update
        rfl
      rw [hsame]
      exact hcm.active c hc
    · intro y hy
      show update cm.chainToCluster x (roundRobin ids i) y ∈ cm.clusterIds
      by_cases hxy : y = x
      · rw [hxy, update_self, hlist]
        exact roundRobin_mem hids i
      · have hkeep : (assignChain (roundRobin ids i) x cm).chainToCluster y
            = cm.chainToCluster y := update_of_ne hxy ..
        rw [hkeep] at hy
        rw [update_of_ne hxy]
        exact hcm.mapped y hy

/-- A reshuffle keeps it. -/
theorem founded_reshuffle {cm cm' : ClusterManager} {shuffled : List ChainId} (hcm : Founded cm)
    (hexist : cm.clusterIds.length > 0)
    (h : Reelected cm.clusterIds (afterDeal shuffled cm) cm') : Founded cm' := by
  have hclear : Founded (clearAssignments cm) :=
    founded_of_same hcm rfl rfl (fun c => active_clear cm.clusterIds cm.clusters c)
  have hdeal : Founded (deal cm.clusterIds 0 shuffled (clearAssignments cm)) :=
    founded_deal hexist shuffled 0 rfl hclear
  have hafter : Founded (afterDeal shuffled cm) := ⟨hdeal.active, hdeal.mapped⟩
  refine founded_of_same hafter ?_ ?_ ?_
  · rw [h.shape]
  · rw [h.shape]
  · intro c
    rw [h.kept c]

/-- **One call.** -/
theorem founded_call {ctx : Ctx} {reg reg' : ReputationRegistry} {cm cm' : ClusterManager}
    {call : Call} (hcm : Founded cm) (h : Effect S ctx reg cm call reg' cm') : Founded cm' := by
  cases h with
  | createCluster _ _ _ _ =>
    exact founded_of_same (founded_create hcm _ _) rfl rfl (active_update rfl)
  | addMember _ _ => exact founded_of_same hcm rfl rfl (active_update rfl)
  | elect _ _ => exact founded_of_same hcm rfl rfl (active_update rfl)
  | submit _ => exact founded_of_same hcm rfl rfl (active_update rfl)
  | verify _ _ _ => exact founded_of_same hcm rfl rfl (fun _ => rfl)
  | crossReference _ => exact hcm
  | reshuffle _ _ exist elections => exact founded_reshuffle hcm exist elections
  | file _ => exact founded_of_same hcm rfl rfl (fun _ => rfl)
  | uphold _ => exact founded_of_same hcm rfl rfl (active_update rfl)
  | dismiss _ _ => exact founded_of_same hcm rfl rfl (fun _ => rfl)
  | advance _ _ => exact founded_of_same hcm rfl rfl (fun _ => rfl)

/-- **Every run.** -/
theorem founded_run (pairing : PairingCheck) (S : Setting) (deployers : Deployers)
    (txs : List System.Tx) :
    Founded (run (System.exec pairing S) (System.deploy deployers) txs).manager := by
  refine run_invariant (P := fun s : System => Founded s.manager) ?_ txs
    (founded_deploy deployers.manager)
  intro s tx s' hs h
  exact System.manager_step (P := Founded) (fun _ _ _ _ _ _ hcm heff => founded_call hcm heff)
    (fun _ _ hcm => ⟨hcm.active, hcm.mapped⟩) hs h

/-- A caller other than the owner heads an active cluster, once chain 0 has one. -/
theorem head_of_active (deployers : Deployers) (txs : List System.Tx) {ctx : Ctx}
    {committerAddrs : List Address} {submittedRoots : List Bytes32} {aliveFlags : List Bool}
    {s s' : System}
    (hs : run (System.exec pairing S) (System.deploy deployers) txs = s)
    (hcaller : ctx.msg.sender ≠ s.manager.owner) (hzero : s.manager.chainToCluster 0 ≠ 0)
    (h : System.exec pairing S (crossReference ctx committerAddrs submittedRoots aliveFlags) s
      = .ok s') :
    (s.manager.clusters (s.manager.chainToCluster 0)).isActive = true
      ∧ (s.manager.clusters (s.manager.chainToCluster 0)).clusterHead = ctx.msg.sender := by
  have hfounded := founded_run pairing S deployers txs
  rw [hs] at hfounded
  refine ⟨hfounded.active _ (hfounded.mapped 0 hzero), ?_⟩
  rcases (exec_crossReference h).1.authorized with howner | hhead
  · exact absurd howner hcaller
  · exact hhead

/-- So a call that lists members of that cluster only is confined to it. -/
theorem confined_of_members (deployers : Deployers) (txs : List System.Tx) {ctx : Ctx}
    {committerAddrs : List Address} {submittedRoots : List Bytes32} {aliveFlags : List Bool}
    {s s' : System}
    (hs : run (System.exec pairing S) (System.deploy deployers) txs = s)
    (hcaller : ctx.msg.sender ≠ s.manager.owner) (hzero : s.manager.chainToCluster 0 ≠ 0)
    (hmembers : ∀ a ∈ committerAddrs,
      a ∈ (s.manager.clusters (s.manager.chainToCluster 0)).members)
    (h : System.exec pairing S (crossReference ctx committerAddrs submittedRoots aliveFlags) s
      = .ok s') : Confined ctx.msg.sender s s' := by
  obtain ⟨hactive, hhead⟩ := head_of_active deployers txs hs hcaller hzero h
  refine ⟨_, hactive, hhead, ?_⟩
  intro a hchanged
  by_contra hout
  apply hchanged
  rw [(exec_crossReference h).2 a,
    eventsFor_of_not_mem _ _ (fun hlisted => hout (hmembers a hlisted))]
  rfl

/-! ## §4. What a report can move. -/

/-- A report by the manager moves the record: the registry takes its reports, and the address
is a committer that is not jailed. -/
structure Exposed (S : Setting) (s : System) (a : Address) : Prop where
  authorized : s.registry.authorizedAuditors S.clusterManager = true
  registered : (s.registry.states a).isRegistered = true
  free : (s.registry.states a).isJailed = false

/-- A jailed record stays as it is. -/
theorem afterEvents_of_jailed {s : StateSnapshot} (h : s.isJailed = true) (es : List EventType) :
    afterEvents es s = s := by
  induction es with
  | nil => rfl
  | cons e es ih =>
    show afterEvents es (recordStep s e) = s
    unfold recordStep
    rw [if_pos h]
    exact ih

/-- A loop that goes through reports registered addresses, as an authorized sender. -/
theorem reported_of_loop {msg : Msg} (event : Bytes32 × Bool → EventType) :
    ∀ {entries : List (Address × Bytes32 × Bool)} {reg reg' : ReputationRegistry},
    entries.foldlM (fun reg entry => reg.updateState msg entry.1 (event entry.2) entry.2.1) reg
      = .ok reg' →
    ∀ entry ∈ entries, reg.authorizedAuditors msg.sender = true
      ∧ (reg.states entry.1).isRegistered = true := by
  intro entries
  induction entries with
  | nil => exact fun _ entry hentry => absurd hentry List.not_mem_nil
  | cons first rest ih =>
    intro reg reg' h entry hentry
    obtain ⟨reg₁, hfirst, hrest⟩ := bind_eq_ok.mp h
    have hauth : reg.authorizedAuditors msg.sender = true := by
      obtain ⟨_, hauth, _⟩ := bind_eq_ok.mp hfirst
      exact require_eq_ok.mp hauth
    obtain ⟨hregistered, rfl⟩ := ReputationRegistry.updateState_eq_ok hfirst
    rcases List.mem_cons.mp hentry with rfl | hlater
    · exact ⟨hauth, hregistered⟩
    · -- a report changes no registration
      refine ⟨hauth, ?_⟩
      have hkept := (ih hrest entry hlater).2
      rw [states_afterUpdate] at hkept
      split at hkept
      case isTrue =>
        unfold recordStep at hkept
        split at hkept
        case isTrue => exact hkept
        case isFalse => rwa [ReputationRegistry.nextState_isRegistered] at hkept
      case isFalse => exact hkept

/-- A record that a call changes was exposed. -/
theorem exposed_of_changed {ctx : Ctx} {committerAddrs : List Address}
    {submittedRoots : List Bytes32} {aliveFlags : List Bool} {s s' : System} {a : Address}
    (h : System.exec pairing S (crossReference ctx committerAddrs submittedRoots aliveFlags) s
      = .ok s') (hchanged : s'.registry.states a ≠ s.registry.states a) : Exposed S s a := by
  obtain ⟨hcan, hstates⟩ := exec_crossReference h
  -- only listed records move
  have hlisted : a ∈ committerAddrs := by
    by_contra hout
    apply hchanged
    rw [hstates a, eventsFor_of_not_mem _ _ hout]
    rfl
  obtain ⟨root, alive, hentry⟩ : ∃ root alive,
      (a, root, alive) ∈ committerAddrs.zip (submittedRoots.zip aliveFlags) := by
    obtain ⟨i, hi, rfl⟩ := List.mem_iff_getElem.mp hlisted
    have hroots := hcan.roots
    have hflags := hcan.flags
    refine ⟨submittedRoots[i], aliveFlags[i], List.mem_iff_getElem.mpr ⟨i, ?_, ?_⟩⟩
    · rw [List.length_zip, List.length_zip]
      omega
    · rw [List.getElem_zip, List.getElem_zip]
  unfold crossReference at h
  cases System.exec_effect h with
  | manager effect =>
    cases effect with
    | crossReference update =>
      obtain ⟨hauth, hregistered⟩ := reported_of_loop
        (fun p => crossReferenceEvent (majorityRoot submittedRoots) p.1 p.2)
        (crossReferenceAndUpdate_eq_ok.mp update).2 _ hentry
      refine ⟨hauth, hregistered, ?_⟩
      -- a jailed record would not have moved
      cases hjailed : (s.registry.states a).isJailed with
      | false => rfl
      | true =>
        rw [hstates a, afterEvents_of_jailed hjailed] at hchanged
        exact absurd rfl hchanged

/-! ## §5. A head can move whatever is exposed. -/

/-- The flags of a call that moves every listed record: missing, which lowers a reputation, or
valid where there is none left. -/
def probeFlags (reg : ReputationRegistry) (addrs : List Address) : List Bool :=
  addrs.map fun a => decide ((reg.states a).baseReputation = 0)

/-- One root for all: nobody is found invalid. -/
def probeRoots (addrs : List Address) : List Bytes32 := addrs.map fun _ => 0

theorem majorityRoot_probe (addrs : List Address) : majorityRoot (probeRoots addrs) = 0 := by
  have hfold : ∀ (count : Bytes32 → Nat) (l : List Address) (n : Nat),
      ((l.map fun _ => (0 : Bytes32)).foldl (fun (best : Bytes32 × Nat) root =>
        if count root > best.2 then (root, count root) else best) (0, n)).1 = 0 := by
    intro count l
    induction l with
    | nil => exact fun _ => rfl
    | cons a l ih =>
      intro n
      rw [List.map_cons, List.foldl_cons]
      split
      case isTrue => exact ih _
      case isFalse => exact ih n
  exact hfold (fun root => (probeRoots addrs).count root) addrs 0

/-- The event of a probe. -/
def probeEvent (s : StateSnapshot) : EventType :=
  crossReferenceEvent 0 0 (decide (s.baseReputation = 0))

theorem probeEvent_ne (s : StateSnapshot) : probeEvent s ≠ .INVALID := by
  unfold probeEvent crossReferenceEvent
  split
  case isTrue => exact nofun
  case isFalse => rw [if_pos rfl]; exact nofun

/-- A probe moves the reputation. -/
theorem probe_moves (s : StateSnapshot) :
    ReputationRegistry.nextState (probeEvent s) s ≠ s := by
  intro hsame
  have hbase := congrArg StateSnapshot.baseReputation hsame
  rw [ReputationRegistry.nextState_baseReputation] at hbase
  unfold probeEvent crossReferenceEvent at hbase
  by_cases hzero : s.baseReputation = 0
  · simp only [hzero, decide_true, Bool.true_eq_false, if_false, if_true,
      ReputationRegistry.nextBase, ReputationRegistry.PRECISION, ReputationRegistry.A_H,
      ReputationRegistry.R_MAX] at hbase
    omega
  · simp only [hzero, decide_false, if_true, ReputationRegistry.nextBase,
      ReputationRegistry.PRECISION, ReputationRegistry.Q_L] at hbase
    omega

/-- **The loop over distinct addresses in good standing goes through**, with one event each. -/
theorem loop_ok (msg : Msg) (event : Address → EventType) (hevent : ∀ a, event a ≠ .INVALID)
    (addrs : List Address) : ∀ {reg : ReputationRegistry}, addrs.Nodup →
    (∀ a ∈ addrs, reg.authorizedAuditors msg.sender = true
      ∧ (reg.states a).isRegistered = true ∧ (reg.states a).isJailed = false
      ∧ ReputationRegistry.RecordInv (reg.states a)) →
    ∃ reg', addrs.foldlM (fun reg a => reg.updateState msg a (event a) 0) reg = .ok reg'
      ∧ (∀ a ∈ addrs, reg'.states a = ReputationRegistry.nextState (event a) (reg.states a))
      ∧ ∀ a ∉ addrs, reg'.states a = reg.states a := by
  induction addrs with
  | nil => exact fun _ _ => ⟨_, rfl, nofun, fun _ _ => rfl⟩
  | cons b rest ih =>
    intro reg hnodup hgood
    obtain ⟨hout, hnodup⟩ := List.nodup_cons.mp hnodup
    obtain ⟨hauth, hregistered, hfree, hinv⟩ := hgood b List.mem_cons_self
    obtain ⟨reg₁, hfirst⟩ := ReputationRegistry.updateState_ok (event b) 0 hauth hregistered hinv
      (fun h => absurd h (hevent b)) (fun h => absurd h (hevent b))
    obtain ⟨-, rfl⟩ := ReputationRegistry.updateState_eq_ok hfirst
    -- the first report touches no later address, nor who may report
    have hother : ∀ a, a ≠ b →
        (reg.afterUpdate b (event b) 0).states a = reg.states a := by
      intro a hne
      rw [states_afterUpdate, if_neg (Ne.symm hne)]
    have hauditors : (reg.afterUpdate b (event b) 0).authorizedAuditors
        = reg.authorizedAuditors := by
      unfold ReputationRegistry.afterUpdate
      split <;> rfl
    obtain ⟨reg', hrest, hmoved, hkept⟩ := ih hnodup (by
      intro a ha
      rw [hauditors, hother a (fun h => hout (h ▸ ha))]
      exact hgood a (List.mem_cons_of_mem b ha))
    refine ⟨reg', bind_eq_ok.mpr ⟨_, hfirst, hrest⟩, ?_, ?_⟩
    · intro a ha
      rcases List.mem_cons.mp ha with rfl | hlater
      · rw [hkept a hout, ReputationRegistry.afterUpdate_record, if_neg (by rw [hfree]; decide)]
      · rw [hmoved a hlater, hother a (fun h => hout (h ▸ hlater))]
    · intro a ha
      rw [hkept a (fun h => ha (List.mem_cons_of_mem b h)),
        hother a (fun h => ha (h ▸ List.mem_cons_self))]

/-- **A head moves every list of exposed records.** -/
theorem exec_probe (pairing : PairingCheck) (S : Setting) (ctx : Ctx) {s : System}
    {addrs : List Address}
    (hext : System.External S ctx.msg.sender)
    (hhead : (s.manager.clusters (s.manager.chainToCluster 0)).clusterHead = ctx.msg.sender)
    (hinv : ReputationRegistry.RegistryInv s.registry) (hnodup : addrs.Nodup)
    (hexposed : ∀ a ∈ addrs, Exposed S s a) :
    ∃ s', System.exec pairing S
        (crossReference ctx addrs (probeRoots addrs) (probeFlags s.registry addrs)) s = .ok s'
      ∧ ∀ a ∈ addrs, s'.registry.states a ≠ s.registry.states a := by
  obtain ⟨reg', hloop, hmoved, -⟩ := loop_ok (asManager S ctx.msg)
    (fun a => probeEvent (s.registry.states a)) (fun a => probeEvent_ne _) addrs hnodup
    (fun a ha => ⟨(hexposed a ha).authorized, (hexposed a ha).registered, (hexposed a ha).free,
      hinv.records a (hexposed a ha).registered⟩)
  -- the probe reports the root 0 for all, absent unless that moves nothing
  have hzip : addrs.zip ((probeRoots addrs).zip (probeFlags s.registry addrs))
      = addrs.map fun a => (a, 0, decide ((s.registry.states a).baseReputation = 0)) := by
    unfold probeRoots probeFlags
    rw [List.zip_map']
    conv => lhs; arg 1; rw [← List.map_id addrs]
    rw [List.zip_map']
    rfl
  have hcall : crossReferenceAndUpdate S ctx addrs (probeRoots addrs)
      (probeFlags s.registry addrs) s.registry s.manager = .ok reg' := by
    refine crossReferenceAndUpdate_eq_ok.mpr ⟨⟨Or.inr hhead, ?_, ?_⟩, ?_⟩
    · exact (List.length_map ..).symm
    · exact (List.length_map ..).symm
    · rw [hzip, majorityRoot_probe, List.foldlM_map]
      exact hloop
  refine ⟨_, System.exec_manager_ok hext (map_eq_ok.mpr ⟨reg', hcall, rfl⟩), ?_⟩
  intro a ha
  show reg'.states a ≠ s.registry.states a
  rw [hmoved a ha]
  exact probe_moves _

/-! ## §6. Account 7, head of the cluster of chain 0.

Account 1 owns everything and is the only committer.  It sets up a cluster for chain 0 with
account 7 as its only member, and may later add itself. -/

/-- The member 7. -/
def seven : Ctx := ⟨⟨7, 1, 100, true⟩, 0⟩

/-- Cluster 1 of chain 0 and member 7. -/
def foundCluster : System.Tx := .manager owner (.createCluster [0] [7])

/-- `genesis` joins. -/
def joinCluster : System.Tx := .manager owner (.addMember 1 1)

/-- Account 7 reports account 1 as missing. -/
def reportMissing : System.Tx := crossReference seven [1] [9] [false]

/-- 7 is head. -/
def headedBySeven : ClusterManager := setHead 1 7 (addCluster [0] [7] (deploy 1))

/-- The system with that head. -/
def headed : System := ⟨authorized, headedBySeven, AuditContractV2.deploy 1⟩

/-- The system after the join. -/
def joined : System := ⟨authorized, afterMember 1 1 headedBySeven, AuditContractV2.deploy 1⟩

/-- The run that elects a head. -/
theorem run_headed (pairing : PairingCheck) :
    run (System.exec pairing setting) (System.deploy (.all 1)) [authorizeManager, foundCluster]
      = headed := by
  have hfirst : System.exec pairing setting authorizeManager (System.deploy (.all 1))
      = .ok ⟨authorized, deploy 1, AuditContractV2.deploy 1⟩ :=
    System.exec_registry_ok (by decide) authorize_ok
  obtain ⟨w, hle, hw⟩ := ReputationRegistry.getElectionWeight_ok authorized_inv 7
  have hrange : w < 2 ^ 256 := lt_of_le_of_lt hle (by simp [ReputationRegistry.W_MAX])
  have hcreate : createCluster owner [0] [7] authorized (deploy 1) = .ok headedBySeven :=
    createCluster_single rfl (by decide) rfl (by decide) hw hrange (by decide)
  have hsecond : System.exec pairing setting foundCluster
      ⟨authorized, deploy 1, AuditContractV2.deploy 1⟩ = .ok headed :=
    System.exec_manager_ok (by decide) (map_eq_ok.mpr ⟨_, hcreate, rfl⟩)
  rw [run_cons, commit_of_ok hfirst, run_cons, commit_of_ok hsecond, run_nil]

theorem registered_one : (authorized.states 1).isRegistered = true := by
  show ((ReputationRegistry.deploy 1).states 1).isRegistered = true
  rw [ReputationRegistry.deploy_states_self]
  rfl

/-- The run that adds a member. -/
theorem run_joined (pairing : PairingCheck) :
    run (System.exec pairing setting) (System.deploy (.all 1))
      ([authorizeManager, foundCluster] ++ [joinCluster]) = joined := by
  have hjoin : addMember owner 1 1 authorized headedBySeven
      = .ok (afterMember 1 1 headedBySeven) := by
    rw [addMember, require_bind (show owner.msg.sender = headedBySeven.owner from rfl),
      require_bind (show authorized.isCommitterRegistered 1 = true from registered_one)]
    rfl
  have hexec : System.exec pairing setting joinCluster headed = .ok joined :=
    System.exec_manager_ok (by decide) (map_eq_ok.mpr ⟨_, hjoin, rfl⟩)
  rw [run_snoc, run_headed, commit_of_ok hexec]

/-- The report goes through whatever the members are. -/
theorem reportMissing_ok (pairing : PairingCheck) {cm : ClusterManager}
    (hhead : (cm.clusters (cm.chainToCluster 0)).clusterHead = 7) :
    ∃ s', System.exec pairing setting reportMissing ⟨authorized, cm, AuditContractV2.deploy 1⟩
      = .ok s' := by
  obtain ⟨reg', hupdate⟩ : ∃ reg', authorized.updateState (asManager setting seven.msg) 1 .MISSING 9
      = .ok reg' :=
    ReputationRegistry.updateState_ok .MISSING 9 rfl registered_one
      (authorized_inv.records 1 registered_one) (fun h => by cases h) (fun h => by cases h)
  have hloop : crossReferenceAndUpdate setting seven [1] [9] [false] authorized cm = .ok reg' := by
    refine crossReferenceAndUpdate_eq_ok.mpr ⟨⟨Or.inr hhead, rfl, rfl⟩, ?_⟩
    exact bind_eq_ok.mpr ⟨reg', hupdate, rfl⟩
  exact ⟨_, System.exec_manager_ok (by decide) (map_eq_ok.mpr ⟨reg', hloop, rfl⟩)⟩

/-- It lowers the reputation of account 1. -/
theorem missing_moves :
    afterEvents (eventsFor [1] [9] [false] 1) (authorized.states 1) ≠ authorized.states 1 := by
  have hstate : authorized.states 1 = ReputationRegistry.genesisState :=
    ReputationRegistry.deploy_states_self 1
  have hafter : afterEvents (eventsFor [1] [9] [false] 1) (authorized.states 1)
      = ReputationRegistry.nextState .MISSING ReputationRegistry.genesisState := by
    rw [← hstate]
    rfl
  rw [hafter, hstate]
  intro hsame
  have hbase := congrArg StateSnapshot.baseReputation hsame
  rw [ReputationRegistry.nextState_baseReputation] at hbase
  norm_num [ReputationRegistry.nextBase, ReputationRegistry.genesisState, ReputationRegistry.Q_L,
    ReputationRegistry.R_MAX, ReputationRegistry.PRECISION] at hbase

/-! ## §7. The law. -/

/-- Any exposed committers are members of one active cluster of the caller. -/
def Covers (S : Setting) (caller : Address) (s : System) : Prop :=
  ∀ addrs : List Address, (∀ a ∈ addrs, Exposed S s a) →
    ∃ clusterId, (s.manager.clusters clusterId).isActive = true
      ∧ (s.manager.clusters clusterId).clusterHead = caller
      ∧ ∀ a ∈ addrs, a ∈ (s.manager.clusters clusterId).members

/-- **When the authority of a caller other than the owner is confined.**  In every state of a
run: if the caller heads the cluster of chain 0, all its calls are confined exactly when its
active clusters cover the exposed committers; if not, no call succeeds.  And each call that
lists members of the cluster of chain 0 only is confined to it. -/
theorem head_confined_iff (pairing : PairingCheck) (S : Setting)
    (deployers : Deployers) (caller : Address) (txs : List System.Tx) (s : System)
    (hs : run (System.exec pairing S) (System.deploy deployers) txs = s)
    (hcaller : caller ≠ s.manager.owner) :
    ((∀ ctx committerAddrs submittedRoots aliveFlags s', ctx.msg.sender = caller →
          System.exec pairing S (crossReference ctx committerAddrs submittedRoots aliveFlags) s
            = .ok s' → Confined caller s s')
        ↔ (System.External S caller →
            (s.manager.clusters (s.manager.chainToCluster 0)).clusterHead = caller →
            Covers S caller s))
      ∧ ∀ ctx committerAddrs submittedRoots aliveFlags s', ctx.msg.sender = caller →
          s.manager.chainToCluster 0 ≠ 0 →
          (∀ a ∈ committerAddrs,
            a ∈ (s.manager.clusters (s.manager.chainToCluster 0)).members) →
          System.exec pairing S (crossReference ctx committerAddrs submittedRoots aliveFlags) s
            = .ok s' → Confined caller s s' := by
  have hinv := System.registryInv_run pairing S deployers txs
  rw [hs] at hinv
  refine ⟨⟨?_, ?_⟩, ?_⟩
  · -- the call that moves all of them shows their cluster
    intro hconfined hext hhead addrs hexposed
    obtain ⟨s', hexec, hmoved⟩ := exec_probe pairing S
      ⟨⟨caller, 1, 0, true⟩, 0⟩ hext hhead hinv (List.nodup_dedup addrs)
      (fun a ha => hexposed a (List.mem_dedup.mp ha))
    obtain ⟨clusterId, hactive, hheads, hmembers⟩ := hconfined _ _ _ _ s' rfl hexec
    exact ⟨clusterId, hactive, hheads,
      fun a ha => hmembers a (hmoved a (List.mem_dedup.mpr ha))⟩
  · intro hcovers ctx committerAddrs submittedRoots aliveFlags s' hsender hexec
    have hext : System.External S caller := hsender ▸ (System.exec_eq_ok.mp hexec).1
    have hhead : (s.manager.clusters (s.manager.chainToCluster 0)).clusterHead = caller := by
      rcases (exec_crossReference hexec).1.authorized with howner | hhead
      · exact absurd (hsender ▸ howner) hcaller
      · exact hhead.trans hsender
    obtain ⟨clusterId, hactive, hheads, hmembers⟩ := hcovers hext hhead
      (committerAddrs.filter fun a => s'.registry.states a ≠ s.registry.states a) (by
        intro a ha
        exact exposed_of_changed hexec (of_decide_eq_true (List.mem_filter.mp ha).2))
    refine ⟨clusterId, hactive, hheads, fun a hchanged => hmembers a ?_⟩
    refine List.mem_filter.mpr ⟨?_, decide_eq_true hchanged⟩
    by_contra hout
    apply hchanged
    rw [(exec_crossReference hexec).2 a, eventsFor_of_not_mem _ _ hout]
    rfl
  · intro ctx committerAddrs submittedRoots aliveFlags s' hsender hzero hmembers hexec
    rw [← hsender]
    rw [← hsender] at hcaller
    exact confined_of_members deployers txs hs hcaller hzero hmembers hexec

/-- Account 1, the only committer, has joined the cluster: all calls of its head are confined,
and one goes through. -/
theorem joined_confined : (∀ ctx committerAddrs submittedRoots aliveFlags s', ctx.msg.sender = 7 →
      System.exec (fun _ _ _ => .ok true) setting
        (crossReference ctx committerAddrs submittedRoots aliveFlags) joined = .ok s' →
      Confined 7 joined s')
    ∧ ∃ s', System.exec (fun _ _ _ => .ok true) setting reportMissing joined = .ok s' := by
  refine ⟨?_, reportMissing_ok (fun _ _ _ => .ok true) rfl⟩
  refine (head_confined_iff (fun _ _ _ => .ok true) setting (.all 1) 7
    ([authorizeManager, foundCluster] ++ [joinCluster]) joined (run_joined _)
    (show (7 : Address) ≠ 1 by decide)).1.mpr ?_
  intro _ _ addrs hexposed
  refine ⟨1, rfl, rfl, ?_⟩
  intro a ha
  have hone : a = 1 := by
    by_contra hne
    have hregistered : ((ReputationRegistry.deploy 1).states a).isRegistered = true :=
      (hexposed a ha).registered
    rw [ReputationRegistry.deploy_states_of_ne hne] at hregistered
    cases hregistered
  rw [hone]
  show (1 : Address) ∈ [7, 1]
  simp

/-- Account 7 is alone in its cluster, and reports account 1. -/
theorem head_reaches_out : ¬ ∀ (pairing : PairingCheck) (S : Setting)
    (deployers : Deployers) (txs : List System.Tx) (ctx : Ctx)
    (committerAddrs : List Address) (submittedRoots : List Bytes32) (aliveFlags : List Bool)
    (s' : System),
    ctx.msg.sender
      ≠ (run (System.exec pairing S) (System.deploy deployers) txs).manager.owner →
    System.exec pairing S (crossReference ctx committerAddrs submittedRoots aliveFlags)
      (run (System.exec pairing S) (System.deploy deployers) txs) = .ok s' →
    Confined ctx.msg.sender
      (run (System.exec pairing S) (System.deploy deployers) txs) s' := by
  intro hall
  obtain ⟨s', hs'⟩ := reportMissing_ok (fun _ _ _ => .ok true)
    (show (headedBySeven.clusters (headedBySeven.chainToCluster 0)).clusterHead = 7 from rfl)
  have hconfined := hall (fun _ _ _ => .ok true) setting (.all 1) [authorizeManager, foundCluster] seven
    [1] [9] [false] s'
  rw [run_headed] at hconfined
  obtain ⟨clusterId, hactive, -, hmembers⟩ := hconfined
    (show (7 : Address) ≠ 1 by decide) hs'
  have hone : clusterId = 1 := by
    by_contra hne
    have hzero : headedBySeven.clusters clusterId = Cluster.zero := by
      have hhead := clusters_setHead_of_ne hne 7 (addCluster [0] [7] (deploy 1))
      exact hhead.trans (update_of_ne hne ..)
    have hinactive : (headedBySeven.clusters clusterId).isActive = true := hactive
    rw [hzero] at hinactive
    exact absurd hinactive (by decide)
  have hmoved : s'.registry.states 1 ≠ authorized.states 1 := by
    rw [(exec_crossReference hs').2 1]
    exact missing_moves
  have hin := hmembers 1 hmoved
  rw [hone] at hin
  have hseven : (1 : Address) ∈ [(7 : Address)] := hin
  exact absurd hseven (by decide)

end HZKA.Clusters
