/-
  HZKA.Simulator.Capture
  ────────────
  **CLUSTERS, THEIR HEADS, AND CLUSTERS IN BYZANTINE HANDS.**

  A cluster is captured when its live Byzantine members reach a third of it; it may then
  censor the verdicts of its members and withhold its slot of the round.

    • `clusters_partition`   — at every time each chain is in one cluster, no cluster is over
                               its capacity, and a cluster's head is one of its members;
    • `capture_bound`        — every captured cluster costs a Byzantine committer that is not
                               isolated yet, so isolation gives the slots back;
    • `inbound_accuracy`     — outside the captured clusters accuracy stays above two thirds;
    • `capture_is_permanent` — without reassignment a cluster that censors is captured for good:
                               nobody in it is ever faulted, and no later round completes.
-/
import HZKA.Simulator.Isolation

namespace HZKA.Simulator

open HZKA.Lib

variable {F : Floats ℚ} {rng : Rng} {cfg : SimConfig} {topo : Topology}
  {rounds : Nat} {g : rng.State} {s : Sim rng topo}

/-! ## §1. Clusters. -/

/-- Every chain has a cluster, and the lists are those of the labels. -/
structure Clustered (cfg : SimConfig) (s : Sim rng topo) : Prop where
  range : ∀ j, 0 ≤ s.labels j ∧ s.labels j < topo.n
  lists : s.members = members (formation cfg topo) s.labels

/-- Labels in range, lists by label. -/
theorem formClusters_spec {g : rng.State} {labels : Fin topo.k → Int}
    {lists : Fin topo.n → List (Fin topo.k)}
    (h : (formClusters F cfg topo g).1 = some (labels, lists)) :
    (∀ j, 0 ≤ labels j ∧ labels j < topo.n) ∧ lists = members (formation cfg topo) labels
      ∧ (kmedoidPartition F rng.toGenerator (formation cfg topo) (some cfg.bMax) 30 8 g).1
        = some labels := by
  obtain ⟨found, hfound, h⟩ := Option.bind_eq_some_iff.mp h
  obtain ⟨built, hbuilt, heq⟩ := Option.map_eq_some_iff.mp h
  obtain ⟨rfl, rfl⟩ := Prod.mk.inj heq
  unfold buildMembers at hbuilt
  split_ifs at hbuilt with hrange
  exact ⟨hrange, (Option.some.inj hbuilt).symm, hfound⟩

theorem Reformed.clustered {m : Sim rng topo} (h : Reformed F cfg m) : Clustered cfg m := by
  obtain ⟨g, hg⟩ := h
  obtain ⟨hrange, hlists, -⟩ := formClusters_spec hg
  exact ⟨hrange, hlists⟩

theorem Clustered.of_same {a b : Sim rng topo} (h : Clustered cfg a) (hab : SameClusters a b) :
    Clustered cfg b where
  range := by rw [hab.1]; exact h.range
  lists := by rw [hab.1, hab.2]; exact h.lists

namespace Clustered

variable (h : Clustered cfg s)

include h

theorem mem_iff (j : Fin topo.k) (c : Fin topo.n) : j ∈ s.members c ↔ s.labels j = label c := by
  rw [h.lists, members, List.mem_filter, decide_eq_true_iff]
  exact and_iff_right (List.mem_finRange j)

theorem clusterOf {j : Fin topo.k} {c : Fin topo.n} (hj : j ∈ s.members c) :
    s.clusterOf j = some c := by
  have hlabel : s.labels j = (c.val : Int) := (h.mem_iff j c).mp hj
  unfold Sim.clusterOf
  rw [dif_pos (h.range j)]
  congr 1
  apply Fin.ext
  show (s.labels j).toNat = c.val
  rw [hlabel, Int.toNat_natCast]

theorem exists_cluster (j : Fin topo.k) : ∃ c, j ∈ s.members c := by
  obtain ⟨hlow, hhigh⟩ := h.range j
  refine ⟨⟨(s.labels j).toNat, by omega⟩, (h.mem_iff j _).mpr ?_⟩
  show s.labels j = ((s.labels j).toNat : Int)
  omega

end Clustered

section Round

variable {t : Nat} {s m s' : Sim rng topo} {event : Fin topo.k → SimEvent}
  (h : Round F cfg t s m event s')

include h

theorem Clustered.rearranged (hs : Clustered cfg s) : Clustered cfg m := by
  rcases h.clusters with hsame | ⟨-, hnew⟩
  · exact hs.of_same hsame
  · exact hnew.clustered

theorem Clustered.round (hs : Clustered cfg s) : Clustered cfg s' :=
  (hs.rearranged h).of_same h.keeps

end Round

/-- **Every run** keeps the clusters. -/
theorem simulate_clustered (h : simulate F cfg topo rounds g = some s) : Clustered cfg s :=
  simulate_invariant (P := fun _ s => Clustered cfg s)
    (fun _ _ _ _ _ ih hround => ih.round hround) (fun _ hfresh => hfresh.clusters.clustered) h

/-! ## §2. Capacity. -/

/-- No cluster has more members than it may. -/
def WithinCapacity (cfg : SimConfig) (s : Sim rng topo) : Prop :=
  ∀ c, (s.members c).length ≤ cfg.bMax

theorem Reformed.within (hmax : 0 < cfg.bMax) (hroom : topo.k ≤ topo.n * cfg.bMax)
    {m : Sim rng topo} (h : Reformed F cfg m) : WithinCapacity cfg m := by
  have hcap : capacityOf F topo.k topo.n (some cfg.bMax) = cfg.bMax := by
    obtain ⟨b, hb⟩ := Nat.exists_eq_succ_of_ne_zero hmax.ne'
    rw [hb]
    rfl
  obtain ⟨g, hg⟩ := h
  obtain ⟨-, hlists, hfound⟩ := formClusters_spec hg
  have hused := (partition_within_capacity F rng.toGenerator (formation cfg topo) (by omega)
    (by rw [hcap]; exact hroom) g hfound).used
  intro c
  rw [hlists, members, ← List.countP_eq_length_filter]
  exact (hused (c.val : Int)).trans hcap.le

/-- **Every run** keeps the capacity. -/
theorem simulate_within (hmax : 0 < cfg.bMax) (hroom : topo.k ≤ topo.n * cfg.bMax)
    (h : simulate F cfg topo rounds g = some s) : WithinCapacity cfg s := by
  refine simulate_invariant (P := fun _ s => WithinCapacity cfg s) ?_ ?_ h
  · intro t s m event s' ih hround c
    rw [hround.keeps.2]
    rcases hround.clusters with hsame | ⟨-, hnew⟩
    · rw [hsame.2]
      exact ih c
    · exact hnew.within hmax hroom c
  · exact fun s hfresh => hfresh.clusters.within hmax hroom

/-! ## §3. Heads. -/

/-- The head drawn is a voter. -/
theorem electHead_mem (w : Fin topo.k → ℚ) (hw : ∀ j, 0 ≤ w j) {voters : List (Fin topo.k)}
    (hne : voters ≠ []) (g : rng.State) : (electHead w hw voters g).1 ∈ voters := by
  unfold electHead
  split_ifs with htotal
  · exact (rng.choiceBy_mem voters _ _ _ g).1
  · obtain ⟨j, rest, rfl⟩ := List.exists_cons_of_ne_nil hne
    exact List.mem_cons_self

theorem elected_head_mem (m : Sim rng topo) {c : Fin topo.n} (hne : m.members c ≠ []) :
    (elected cfg m).currentHeads c ∈ m.members c := by
  obtain ⟨seen, hseen⟩ := sweep_spec (fun (c : Fin topo.n) (_ : Fin topo.k) (g : rng.State) =>
      (((electHead (fun j => ballot cfg (m.committers j))
        (fun j => ballot_nonneg cfg (m.committers j)) (m.members c) g).1, ()),
        (electHead (fun j => ballot cfg (m.committers j))
        (fun j => ballot_nonneg cfg (m.committers j)) (m.members c) g).2))
    (List.nodup_finRange topo.n) m.currentHeads (censorStep cfg m).gen
  have hcell : (elected cfg m).currentHeads c = _ := hseen.cell c (List.mem_finRange c)
  rw [hcell]
  exact electHead_mem _ _ hne _

/-- The attempts of a cluster stay within it. -/
theorem failoverLoop_mem (s : Sim rng topo) {voters : List (Fin topo.k)} (left : Nat) :
    ∀ (f : Failover) {head : Fin topo.k} (g : rng.State), head ∈ voters →
      (failoverLoop cfg s voters left f head g).1.1 ∈ voters := by
  induction left with
  | zero => exact fun _ _ _ hhead => hhead
  | succ left ih =>
    intro f head g hhead
    rw [failoverLoop]
    dsimp only
    split
    · exact hhead
    · split
      · exact hhead
      · rename_i hne
        apply ih
        -- the next head is one of the others
        have hmem := electHead_mem (fun j => (s.committers j).weight cfg)
          (fun j => (s.committers j).weight_nonneg cfg) hne (rng.random g).2
        exact (List.mem_filter.mp hmem).1

theorem recovered_head_mem (e : Sim rng topo) {c : Fin topo.n}
    (hmem : e.currentHeads c ∈ e.members c) :
    (failoverStep cfg e).2.currentHeads c ∈ e.members c := by
  unfold failoverStep
  split
  · obtain ⟨seen, hseen⟩ := sweep_spec (fun (c : Fin topo.n) (head : Fin topo.k) (g : rng.State) =>
        let outcome := failoverLoop cfg e (e.members c) cfg.maxAttempts ⟨0, 0⟩ head g
        ((outcome.1.1, ((e.members c).length, outcome.1.2)), outcome.2))
      (List.nodup_finRange topo.n) e.currentHeads (countBelow rng cfg.headCrashProb topo.k e.gen).2
    have hcell := hseen.cell c (List.mem_finRange c)
    dsimp only at hcell ⊢
    rw [hcell]
    exact failoverLoop_mem e _ _ _ hmem
  · exact hmem

/-- **The clusters partition the chains, within their capacity, under heads of their own**, at
the end of every round of every run. -/
theorem clusters_partition (hmax : 0 < cfg.bMax) (hroom : topo.k ≤ topo.n * cfg.bMax)
    (h : simulate F cfg topo rounds g = some s) :
    (∀ j, ∃! c, j ∈ s.members c)
      ∧ (∀ c, (s.members c).length ≤ cfg.bMax)
      ∧ (1 ≤ rounds → ∀ c, s.members c ≠ [] → s.currentHeads c ∈ s.members c) := by
  have hclusters := simulate_clustered h
  refine ⟨?_, simulate_within hmax hroom h, ?_⟩
  · intro j
    obtain ⟨c, hc⟩ := hclusters.exists_cluster j
    refine ⟨c, hc, ?_⟩
    intro d hd
    have hlabel := ((hclusters.mem_iff j d).mp hd).symm.trans ((hclusters.mem_iff j c).mp hc)
    exact label_injective hlabel
  · refine simulate_invariant (P := fun t s =>
      1 ≤ t → ∀ c, s.members c ≠ [] → s.currentHeads c ∈ s.members c) ?_ ?_ h
    · intro t s m event s' _ hround _ c hne
      rw [hround.keeps.2] at hne ⊢
      rw [hround.heads]
      exact recovered_head_mem (elected cfg m) (elected_head_mem m hne)
    · intro s _ hzero
      omega

theorem calm_clusters_partition :
    ∃ s, simulate rationals (calmWith calm.adversary) grid 12 seed = some s
      ∧ ∀ c, (s.members c).length ≤ 3 := by
  obtain ⟨s, hs⟩ := calmWith_runs calm.adversary 12
  have hroom : grid.k ≤ grid.n * (calmWith calm.adversary).bMax := by
    show 9 ≤ ceilSqrt 9 * 3
    rw [ceilSqrt_nine]
  exact ⟨s, hs, (clusters_partition (show 0 < 3 by decide) hroom hs).2.1⟩

/-! ## §4. Captured clusters against the free Byzantine committers. -/

/-- The live Byzantine committers among `voters`. -/
def liveIn (s : Sim rng topo) (voters : List (Fin topo.k)) : Nat :=
  voters.countP fun j => liveByzantine (s.committers j)

/-- Captured by a third. -/
theorem capturedClusters_iff (s : Sim rng topo) (c : Fin topo.n) :
    capturedClusters s c = true
      ↔ s.members c ≠ [] ∧ (s.members c).length ≤ 3 * liveIn s (s.members c) := by
  unfold capturedClusters liveIn
  split
  · rename_i hempty
    simp [hempty]
  · rename_i j rest hmembers
    rw [hmembers, decide_eq_true_iff, bftThreshold]
    constructor
    · intro hle
      exact ⟨List.cons_ne_nil j rest, by omega⟩
    · rintro ⟨-, hle⟩
      omega

theorem Rearranged.live {s m : Sim rng topo} (h : Rearranged s m) (j : Fin topo.k) :
    liveByzantine (m.committers j) = liveByzantine (s.committers j) := by
  unfold liveByzantine
  rw [h.byzantine j, h.state j]

/-- Everyone attacks, and captured clusters act on it. -/
def siege : SimConfig := { calm with byzFrac := 1, modelCapture := true }

theorem siege_wellPosed : WellPosed rationals siege grid := by
  apply grid_wellPosed
  · rfl
  · norm_num [siege]
  · norm_num [siege, calm]

section Shielded

variable {t : Nat} {s m s' : Sim rng topo} {event : Fin topo.k → SimEvent}
  (h : Round F cfg t s m event s') (hmodel : cfg.modelCapture = true)
  (hcensor : 1 ≤ cfg.censorProb) (hepoch : cfg.epochLen = 0) (hs : Clustered cfg s)
  {c : Fin topo.n} (hc : capturedClusters s c = true)

include h hepoch

theorem Round.unmoved : SameClusters s m := by
  rcases h.clusters with hsame | ⟨hnew, -⟩
  · exact hsame
  · exact absurd hepoch hnew

include hc hmodel hcensor

theorem Round.censoring : (elected cfg m).censoring c = true := by
  apply (elected_censoring m c).2 hcensor
  rw [captured, hmodel, Bool.true_and, capturedClusters_iff, (h.unmoved hepoch).2]
  have hlive : liveIn m (s.members c) = liveIn s (s.members c) := by
    unfold liveIn
    congr 1
    funext j
    exact h.rearranged.live j
  rw [hlive]
  exact (capturedClusters_iff s c).mp hc

include hs

/-- Nobody in the cluster is called on a fault. -/
theorem Round.shielded {j : Fin topo.k} (hj : j ∈ s.members c) : event j ≠ .invalid := by
  intro hev
  have hopen := (h.invalid hev).2.1
  have hmoved := h.unmoved hepoch
  have hcluster : (elected cfg m).clusterOf j = some c := by
    have := (hs.of_same hmoved).clusterOf (c := c) (j := j) (by rw [hmoved.2]; exact hj)
    exact this
  unfold Sim.censored at hopen
  rw [hcluster] at hopen
  change (elected cfg m).censoring c = false at hopen
  rw [h.censoring hmodel hcensor hepoch hc] at hopen
  exact absurd hopen (by decide)

/-- The machines in the cluster keep their faults, their stake and their freedom. -/
theorem Round.frozen {j : Fin topo.k} (hj : j ∈ s.members c) :
    (s'.committers j).state.v = (s.committers j).state.v
      ∧ (s'.committers j).state.stake = (s.committers j).state.stake
      ∧ (s'.committers j).state.jailed = (s.committers j).state.jailed := by
  have hev := h.shielded hmodel hcensor hepoch hs hc hj
  rw [h.state j, MFPoP.step_faults, MFPoP.step_stake, if_neg fun hbad => hev hbad.1,
    if_neg fun hbad => hev hbad.1]
  refine ⟨rfl, rfl, ?_⟩
  cases hj' : (s.committers j).state.jailed with
  | true => exact MFPoP.jailed_step _ hj'
  | false =>
    rw [Bool.eq_false_iff]
    exact fun hjailed => hev ((MFPoP.step_jailed_iff _ hj').mp hjailed).1

/-- **One round** leaves it captured. -/
theorem Round.stays_captured : capturedClusters s' c = true := by
  have hmembers : s'.members c = s.members c := by
    rw [h.keeps.2, (h.unmoved hepoch).2]
  rw [capturedClusters_iff, hmembers]
  have hlive : liveIn s' (s.members c) = liveIn s (s.members c) := by
    apply List.countP_congr
    intro j hj
    unfold liveByzantine
    rw [h.byzantine j, (h.frozen hmodel hcensor hepoch hs hc hj).2.2]
  rw [hlive]
  exact (capturedClusters_iff s c).mp hc

omit hs in
/-- A captured round is incomplete. -/
theorem Round.incomplete :
    (statsOf cfg m event s').roundComplete = false
      ∧ (statsOf cfg m event s').freshSlots < topo.n := by
  have hcensored : 0 < (everyone topo.n).countP (elected cfg m).censoring :=
    List.countP_pos_iff.mpr ⟨c, List.mem_finRange c, h.censoring hmodel hcensor hepoch hc⟩
  have hclusters := ceilSqrt_pos topo.k_pos
  constructor
  · show (decide ((everyone topo.n).countP (elected cfg m).censoring = 0) && _ && _) = false
    rw [decide_eq_false hcensored.ne', Bool.false_and, Bool.false_and]
  · show topo.n - (everyone topo.n).countP (elected cfg m).censoring < topo.n
    unfold Topology.n at *
    omega

end Shielded

/-- **Without reassignment a cluster that censors is captured for good.**  Whenever a cluster is
captured, then after any further rounds it still is, its members have the faults, the stake
and the freedom they had, and none of these rounds completed. -/
theorem capture_is_permanent (hmodel : cfg.modelCapture = true) (hcensor : 1 ≤ cfg.censorProb)
    (hepoch : cfg.epochLen = 0) {early : Nat} (h : simulate F cfg topo early g = some s)
    {c : Fin topo.n} (hc : capturedClusters s c = true) {s' : Sim rng topo}
    (hrun : runFrom F cfg (early + 1) rounds s = some s') :
    capturedClusters s' c = true
      ∧ (∀ j ∈ s.members c,
          (s'.committers j).state.v = (s.committers j).state.v
            ∧ (s'.committers j).state.stake = (s.committers j).state.stake
            ∧ (s'.committers j).state.jailed = (s.committers j).state.jailed)
      ∧ ∀ r stats, early ≤ r → s'.history[r]? = some stats →
          stats.roundComplete = false ∧ stats.freshSlots < topo.n := by
  have hlength := (simulate_recorded h).length
  refine (runFrom_invariant (P := fun _ x => (Clustered cfg x ∧ x.members c = s.members c)
    ∧ capturedClusters x c = true
    ∧ (∀ j ∈ s.members c,
          (x.committers j).state.v = (s.committers j).state.v
            ∧ (x.committers j).state.stake = (s.committers j).state.stake
            ∧ (x.committers j).state.jailed = (s.committers j).state.jailed)
    ∧ ∀ r stats, early ≤ r → x.history[r]? = some stats →
        stats.roundComplete = false ∧ stats.freshSlots < topo.n) ?_ rounds ?_ hrun).2
  · intro t x m event x' ih hround
    obtain ⟨⟨hclusters, hmembers⟩, hcaught, hfrozen, hstats⟩ := ih
    have hmembers' : x'.members c = s.members c := by
      rw [hround.keeps.2, (hround.unmoved hepoch).2, hmembers]
    refine ⟨⟨hclusters.round hround, hmembers'⟩,
      hround.stays_captured hmodel hcensor hepoch hclusters hcaught, ?_, ?_⟩
    · intro j hj
      have hstep := hround.frozen hmodel hcensor hepoch hclusters hcaught
        (by rw [hmembers]; exact hj)
      rw [hstep.1, hstep.2.1, hstep.2.2]
      exact hfrozen j hj
    · intro r stats hr hentry
      rcases hround.entry hentry with ⟨-, hold⟩ | ⟨-, rfl⟩
      · exact hstats r stats hr hold
      · exact hround.incomplete hmodel hcensor hepoch hcaught
  · refine ⟨⟨simulate_clustered h, rfl⟩, hc, fun _ _ => ⟨rfl, rfl, rfl⟩, ?_⟩
    intro r stats hr hentry
    obtain ⟨hlt, -⟩ := List.getElem?_eq_some_iff.mp hentry
    omega

/-- Where everyone attacks, a cluster is captured from the start. -/
theorem siege_captured {s : Sim halves grid} (h : simulate rationals siege grid 0 seed = some s) :
    ∃ c, capturedClusters s c = true := by
  have hall : ∀ j ∈ everyone grid.k, (s.committers j).byzantine = true := by
    have hcount := simulate_byzantine h
    have hnine : roundHalfEven (siege.byzFrac * grid.k) = 9 := by
      norm_num [siege, grid, roundHalfEven]
    rw [hnine] at hcount
    rw [← List.countP_eq_length, List.length_finRange]
    exact_mod_cast hcount
  have hlive : ∀ j, liveByzantine (s.committers j) = true := by
    intro j
    have hrec := simulate_recorded h
    rw [liveByzantine, hall j (List.mem_finRange j), hrec.jailed j]
    cases hentry : s.isolationRound j with
    | none => rfl
    | some r =>
      have := hrec.within j r hentry
      omega
  obtain ⟨c, hc⟩ := (simulate_clustered h).exists_cluster ⟨0, grid.k_pos⟩
  refine ⟨c, (capturedClusters_iff s c).mpr ⟨List.ne_nil_of_mem hc, ?_⟩⟩
  have hfull : liveIn s (s.members c) = (s.members c).length :=
    List.countP_eq_length.mpr fun j _ => hlive j
  omega

theorem siege_capture_is_permanent :
    ∃ s c s', simulate rationals siege grid 0 seed = some s
      ∧ runFrom rationals siege 1 200 s = some s' ∧ capturedClusters s' c = true := by
  obtain ⟨s, hs⟩ := simulate_isSome siege_wellPosed 0 seed
  obtain ⟨c, hc⟩ := siege_captured hs
  obtain ⟨s', hs'⟩ := Option.isSome_iff_exists.mp (runFrom_isSome siege_wellPosed 200 1 s)
  have hprob : (1 : ℚ) ≤ siege.censorProb := le_refl 1
  exact ⟨s, c, s', hs, hs', (capture_is_permanent rfl hprob rfl hs hc hs').1⟩

end HZKA.Simulator
