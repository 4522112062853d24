/-
  HZKA.Simulator.Simulation
  ────────────
  **THE ROUND ENGINE** of the protocol simulator (`HZKASimulation` of `hzka_protocol_sim.py`):
  a population of committers, its clusters and its adversaries, round after round.

  A round goes through the phases of the script in their order: the outage window, churn,
  reassignment at the end of an epoch, capture and censoring, election of the heads, their
  crashes and re-elections, and the adjudication of every committer.  Each loop over parties
  that draws on the way is a `sweep`; all draws come from one generator whose state is
  part of `Sim`.

  Numbers are exact rationals.  `none` is an exception: a sample larger than the population,
  or a clustering that found no partition.  The topology is given; its region labels are
  read nowhere in the engine.
-/
import HZKA.Lib.Sweep
import HZKA.Simulator.Clustering
import HZKA.Simulator.MFPoP
import Mathlib.Algebra.BigOperators.Group.List.Basic
import Mathlib.Algebra.BigOperators.Ring.List
import Mathlib.Algebra.Order.BigOperators.Group.List
import Mathlib.Data.Nat.Sqrt

namespace HZKA.Simulator

open HZKA.Lib

/-! ## §1. Draws. -/

/-- `np.random.Generator`, with the draws of the engine. -/
structure Rng extends Generator where
  random : State → ℚ × State
  random_nonneg : ∀ g, 0 ≤ (random g).1
  random_lt_one : ∀ g, (random g).1 < 1
  /-- mean 0, by the standard deviation -/
  lognormal : ℚ → State → ℚ × State
  lognormal_zero : ∀ g, (lognormal 0 g).1 = 1
  /-- one of `members` with probabilities `p` -/
  choiceBy : {k : Nat} → (members : List (Fin k)) → (p : Fin k → ℚ) →
    (∀ j ∈ members, 0 ≤ p j) → (members.map p).sum = 1 → State → Fin k × State
  choiceBy_mem : ∀ {k : Nat} (members : List (Fin k)) (p : Fin k → ℚ)
    (hp : ∀ j ∈ members, 0 ≤ p j) (hone : (members.map p).sum = 1) (g : State),
    (choiceBy members p hp hone g).1 ∈ members ∧ 0 < p (choiceBy members p hp hone g).1

/-! ## §2. Adversaries and configuration. -/

/-- The six strategies. -/
inductive AdversaryKind
  | naive
  | periodic
  | adaptive
  | omission
  | farm
  | dormant
  deriving DecidableEq, Repr

/-- A strategy with its parameters. -/
structure Adversary where
  kind : AdversaryKind
  period : Nat
  warmup : Nat
  -- `t % 0` raises
  period_pos : 0 < period

/-- A fault only while the raw reputation it leaves stays above the jail threshold. -/
def survivable (state : MFPoP) : SimEvent :=
  if state.rBase * state.phi * MFPoP.Q_S > MFPoP.R_JAIL then .invalid else .valid

/-- What it does in round `t`. -/
def Adversary.act (adv : Adversary) (state : MFPoP) (t : Nat) : SimEvent :=
  match adv.kind with
  | .naive => .invalid
  | .periodic => if t % adv.period = 0 then .invalid else .valid
  | .omission => .missing
  | .farm => if t ≤ adv.warmup then .valid else .invalid
  | .adaptive => survivable state
  | .dormant => if t ≤ adv.warmup then .valid else survivable state

/-- Delays and losses. -/
structure NetworkProfile where
  jitterSigma : ℚ
  loss : ℚ
  retransmits : Nat
  deadlineMs : ℚ
  unresolvedRate : ℚ

/-- The parameters of a run. -/
structure SimConfig where
  byzFrac : ℚ
  churnRate : ℚ
  rejoinRate : ℚ
  adversary : Adversary
  profile : NetworkProfile
  eta : ℚ
  bMax : Nat
  epochLen : Nat
  nu : Nat
  wMax : ℚ
  -- negative weights are no probabilities
  wMax_nonneg : 0 ≤ wMax
  collusionSize : Nat
  headCrashProb : ℚ
  maxAttempts : Nat
  roundBudgetMs : ℚ
  partitionFrac : ℚ
  partitionStart : Nat
  partitionEnd : Nat
  modelCapture : Bool
  censorProb : ℚ

/-- The chains, their distances and correlations. -/
structure Topology where
  k : Nat
  k_pos : 0 < k
  rtt : Fin k → Fin k → ℚ
  corr : Fin k → Fin k → ℚ
  rttMs : Fin k → Fin k → ℚ

/-- `int(math.ceil(math.sqrt(k)))`. -/
def ceilSqrt (k : Nat) : Nat := if k.sqrt * k.sqrt = k then k.sqrt else k.sqrt + 1

theorem le_ceilSqrt_mul (k : Nat) : k ≤ ceilSqrt k * ceilSqrt k := by
  unfold ceilSqrt
  split
  · omega
  · exact (Nat.lt_succ_sqrt k).le

theorem ceilSqrt_pos {k : Nat} (hk : 0 < k) : 1 ≤ ceilSqrt k := by
  by_contra h
  have hzero : ceilSqrt k = 0 := by omega
  have hle := le_ceilSqrt_mul k
  rw [hzero] at hle
  omega

theorem ceilSqrt_le (k : Nat) : ceilSqrt k ≤ k := by
  have hle := Nat.sqrt_le k
  have hself := Nat.sqrt_le_self k
  unfold ceilSqrt
  split
  · exact hself
  · rename_i hne
    -- only 1 is its own root, and 1 is a square
    have hlt : k.sqrt ≠ k := by
      intro hroot
      rw [hroot] at hle hne
      have hone : k ≤ k * k := Nat.le_mul_self k
      omega
    omega

/-- The number of clusters. -/
abbrev Topology.n (topo : Topology) : Nat := ceilSqrt topo.k

/-- Eq. (20). -/
def Topology.distance (topo : Topology) (eta : ℚ) (a b : Fin topo.k) : ℚ :=
  eta * topo.rtt a b + (1 - eta) * (1 - topo.corr a b)

/-- The clustering problem of an epoch. -/
abbrev formation (cfg : SimConfig) (topo : Topology) : Instance ℚ where
  k := topo.k
  n := topo.n
  pos := ceilSqrt_pos topo.k_pos
  le := ceilSqrt_le topo.k
  dist := topo.distance cfg.eta

/-! ## §3. The state. -/

/-- A committer. -/
structure Committer where
  byzantine : Bool
  state : MFPoP
  online : Bool
  colluder : Bool

/-- The measurements of a round. -/
structure RoundStats where
  auditAccuracy : ℚ
  headHonestFrac : ℚ
  byzWeightShare : ℚ
  jailedByz : Nat
  jailedHonest : Nat
  ineligibleHonest : Nat
  slashed : ℚ
  acceptedFaults : Nat
  coordinationMs : ℚ
  offline : Nat
  stalledChains : Nat
  stalledClusters : Nat
  flatStalledChains : Nat
  validEvents : Nat
  honestEligible : Nat
  failoverAttempts : Nat
  exhaustedClusters : Nat
  capturedClusters : Nat
  censoredClusters : Nat
  freshSlots : Nat
  roundComplete : Bool
  withinBudget : Bool
  accuracyInbound : ℚ

variable (F : Floats ℚ) (rng : Rng) (cfg : SimConfig) (topo : Topology)

/-- The simulation between two rounds. -/
structure Sim where
  gen : rng.State
  labels : Fin topo.k → Int
  members : Fin topo.n → List (Fin topo.k)
  committers : Fin topo.k → Committer
  partitioned : List (Fin topo.k)
  censoring : Fin topo.n → Bool
  currentHeads : Fin topo.n → Fin topo.k
  history : List RoundStats
  isolationRound : Fin topo.k → Option Nat
  headCaptureRounds : Nat
  headRounds : Nat

variable {rng topo}

/-- All committers, in order. -/
abbrev everyone (k : Nat) : List (Fin k) := List.finRange k

/-- `sum(1 for c in self.committers if …)`. -/
def Sim.count (s : Sim rng topo) (p : Committer → Bool) : Nat :=
  (everyone topo.k).countP fun j => p (s.committers j)

/-! ## §4. Who is online. -/

/-- `int(round(q))`: halves go to the even neighbour. -/
def roundHalfEven (q : ℚ) : Int :=
  let below := ⌊q⌋
  if q - below < 1 / 2 then below
  else if 1 / 2 < q - below then below + 1
  else if below % 2 = 0 then below
  else below + 1

variable (rng) in
/-- `rng.choice(k, size=size, replace=False)`. -/
def sample (k : Nat) (size : Int) (g : rng.State) : Option (List (Fin k) × rng.State) :=
  if h : 0 ≤ size ∧ size.toNat ≤ k then
    let drawn := rng.choice h.2 g
    some ((List.finRange size.toNat).map drawn.1, drawn.2)
  else none

/-- The chosen go on or off. -/
def setOnline (online : Bool) (chosen : List (Fin topo.k)) (s : Sim rng topo) : Sim rng topo :=
  { s with
    committers := fun j =>
      if j ∈ chosen then { s.committers j with online := online } else s.committers j }

/-- The outage window. -/
def partitionStep (t : Nat) (s : Sim rng topo) : Option (Sim rng topo) :=
  if cfg.partitionFrac > 0 then
    if t = cfg.partitionStart then do
      let (chosen, g) ← sample rng topo.k (roundHalfEven (cfg.partitionFrac * topo.k)) s.gen
      return setOnline false chosen { s with gen := g, partitioned := chosen }
    else if t = cfg.partitionEnd then
      some { setOnline true s.partitioned s with partitioned := [] }
    else some s
  else some s

/-- One committer leaves or returns; a partitioned one does neither. -/
def toggle (partitioned : List (Fin topo.k)) (j : Fin topo.k) (c : Committer) (g : rng.State) :
    (Committer × Unit) × rng.State :=
  if j ∈ partitioned then ((c, ()), g)
  else
    let draw := rng.random g
    if c.online then
      if draw.1 < cfg.churnRate then (({ c with online := false }, ()), draw.2)
      else ((c, ()), draw.2)
    else
      if draw.1 < cfg.rejoinRate then (({ c with online := true }, ()), draw.2)
      else ((c, ()), draw.2)

/-- Everyone leaves or returns. -/
def churnStep (s : Sim rng topo) : Sim rng topo :=
  if cfg.churnRate > 0 then
    let pass := sweep (toggle cfg s.partitioned) (everyone topo.k) s.committers s.gen
    { s with committers := pass.1.1, gen := pass.2 }
  else s

/-! ## §5. Clusters. -/

variable (topo) in
/-- `_build_members`; a label that is no cluster raises. -/
def buildMembers (labels : Fin topo.k → Int) : Option (Fin topo.n → List (Fin topo.k)) :=
  if ∀ j, 0 ≤ labels j ∧ labels j < topo.n then some (members (formation cfg topo) labels) else none

variable (topo) in
/-- The partition of an epoch and its member lists. -/
def formClusters (g : rng.State) :
    Option ((Fin topo.k → Int) × (Fin topo.n → List (Fin topo.k))) × rng.State :=
  let found := kmedoidPartition F rng.toGenerator (formation cfg topo) (some cfg.bMax) 30 8 g
  (found.1.bind fun labels => (buildMembers cfg topo labels).map fun lists => (labels, lists), found.2)

/-- New clusters at the end of an epoch. -/
def reassign (t : Nat) (s : Sim rng topo) : Option (Sim rng topo) :=
  if cfg.epochLen ≠ 0 ∧ t % cfg.epochLen = 0 then
    let formed := formClusters F cfg topo s.gen
    formed.1.map fun lists => { s with gen := formed.2, labels := lists.1, members := lists.2 }
  else some s

/-- The cluster of a chain. -/
def Sim.clusterOf (s : Sim rng topo) (j : Fin topo.k) : Option (Fin topo.n) :=
  if h : 0 ≤ s.labels j ∧ s.labels j < topo.n then
    some ⟨(s.labels j).toNat, by omega⟩
  else none

/-! ## §6. Capture and censoring. -/

/-- `int(math.ceil(size / 3.0))`. -/
def bftThreshold (size : Nat) : Nat := (size + 2) / 3

/-- Byzantine and not jailed. -/
def liveByzantine (c : Committer) : Bool := c.byzantine && !c.state.jailed

/-- A third of the members is Byzantine. -/
def capturedClusters (s : Sim rng topo) (c : Fin topo.n) : Bool :=
  match s.members c with
  | [] => false
  | j :: rest =>
    decide (bftThreshold (j :: rest).length
      ≤ (j :: rest).countP fun i => liveByzantine (s.committers i))

/-- The dictionary is empty unless capture is modelled. -/
def captured (s : Sim rng topo) (c : Fin topo.n) : Bool :=
  cfg.modelCapture && capturedClusters s c

/-- A draw only for a captured cluster. -/
def censor (caught : Fin topo.n → Bool) (c : Fin topo.n) (_ : Bool) (g : rng.State) :
    (Bool × Unit) × rng.State :=
  if caught c then
    let draw := rng.random g
    ((decide (draw.1 < cfg.censorProb), ()), draw.2)
  else ((false, ()), g)

/-- Captured clusters decide whether to censor. -/
def censorStep (s : Sim rng topo) : Sim rng topo :=
  let pass := sweep (censor cfg (captured cfg s)) (everyone topo.n) s.censoring s.gen
  { s with censoring := pass.1.1, gen := pass.2 }

/-! ## §7. Election. -/

theorem electionWeight_nonneg (state : MFPoP) (nu : Nat) {wMax : ℚ} (hmax : 0 ≤ wMax) :
    0 ≤ state.electionWeight nu wMax := by
  have hpublic : 0 ≤ state.publicReputation := by
    unfold MFPoP.publicReputation
    split
    · norm_num [MFPoP.R_MIN]
    · exact le_trans (by norm_num [MFPoP.R_MIN]) (le_max_left _ _)
  unfold MFPoP.electionWeight
  split
  · exact le_refl 0
  · have hbase : 0 ≤ MFPoP.W_MIN + state.publicReputation := by
      have : (0 : ℚ) ≤ MFPoP.W_MIN := by norm_num [MFPoP.W_MIN]
      linarith
    exact le_min hmax (pow_nonneg hbase _)

/-- A committer's weight, whether or not it is online. -/
def Committer.weight (c : Committer) : ℚ := c.state.electionWeight cfg.nu cfg.wMax

theorem Committer.weight_nonneg (c : Committer) : 0 ≤ c.weight cfg :=
  electionWeight_nonneg _ _ cfg.wMax_nonneg

/-- The weight in an election.  The branch for a coalition writes what is there. -/
def ballot (c : Committer) : ℚ :=
  let w := if c.online then c.weight cfg else 0
  if 0 < cfg.collusionSize ∧ c.colluder = true ∧ w = 0 then 0 else w

theorem ballot_eq (c : Committer) : ballot cfg c = if c.online then c.weight cfg else 0 := by
  unfold ballot
  by_cases h : 0 < cfg.collusionSize ∧ c.colluder = true
      ∧ (if c.online then c.weight cfg else 0) = 0
  · rw [if_pos h, h.2.2]
  · rw [if_neg h]

theorem ballot_nonneg (c : Committer) : 0 ≤ ballot cfg c := by
  rw [ballot_eq]
  split
  · exact c.weight_nonneg cfg
  · exact le_refl 0

/-- Shares of a positive total. -/
theorem shares_sum {k : Nat} (voters : List (Fin k)) (w : Fin k → ℚ)
    (htotal : 0 < (voters.map w).sum) :
    (voters.map fun j => w j / (voters.map w).sum).sum = 1 := by
  have hdiv : (voters.map fun j => w j / (voters.map w).sum).sum
      = (voters.map w).sum / (voters.map w).sum := by
    simp only [div_eq_mul_inv]
    exact List.sum_map_mul_right voters w _
  rw [hdiv, div_self htotal.ne']

/-- A head by weight; without any weight the first member, or chain 0 for no members. -/
def electHead (w : Fin topo.k → ℚ) (hw : ∀ j, 0 ≤ w j) (voters : List (Fin topo.k))
    (g : rng.State) : Fin topo.k × rng.State :=
  if htotal : 0 < (voters.map w).sum then
    rng.choiceBy voters (fun j => w j / (voters.map w).sum)
      (fun j _ => div_nonneg (hw j) htotal.le) (shares_sum voters w htotal) g
  else (voters.headD ⟨0, topo.k_pos⟩, g)

/-- A head for every cluster. -/
def electStep (s : Sim rng topo) : Sim rng topo :=
  let elect (c : Fin topo.n) (_ : Fin topo.k) (g : rng.State) :=
    let head := electHead (fun j => ballot cfg (s.committers j))
      (fun j => ballot_nonneg cfg (s.committers j)) (s.members c) g
    ((head.1, ()), head.2)
  let pass := sweep elect (everyone topo.n) s.currentHeads s.gen
  { s with currentHeads := pass.1.1, gen := pass.2 }

/-- Head of a live Byzantine committer. -/
def Sim.capturedHeads (s : Sim rng topo) : Nat :=
  (everyone topo.n).countP fun c => liveByzantine (s.committers (s.currentHeads c))

/-! ## §8. Coordination. -/

/-- `max(xs) if xs else 0.0`. -/
def greatest : List ℚ → ℚ
  | [] => 0
  | x :: rest => rest.foldl max x

/-- `_round_coordination_ms`: within the clusters, then among the heads. -/
def coordinationMs (s : Sim rng topo) : ℚ :=
  let perCluster := ((everyone topo.n).filter fun c => !(s.members c).isEmpty).map fun c =>
    greatest (((s.members c).filter fun j => decide (j ≠ s.currentHeads c)).map fun j =>
      topo.rttMs j (s.currentHeads c))
  let heads := (everyone topo.n).map s.currentHeads
  let globalHop :=
    match heads with
    | first :: _ :: _ => greatest (heads.map fun h => topo.rttMs h first)
    | _ => 0
  greatest perCluster + globalHop

/-! ## §9. Crashes of the heads. -/

/-- What became of one cluster's submission: failed attempts and the delay they cost. -/
structure Failover where
  attempts : Nat
  extraMs : ℚ
  deriving DecidableEq

/-- The attempts of one cluster, at most `left` more.  The crashed head is replaced by another
member, by weight; it does not matter who is online. -/
def failoverLoop (s : Sim rng topo) (voters : List (Fin topo.k)) :
    Nat → Failover → Fin topo.k → rng.State → (Fin topo.k × Failover) × rng.State
  | 0, f, head, g => ((head, f), g)
  | left + 1, f, head, g =>
    let draw := rng.random g
    if draw.1 ≥ cfg.headCrashProb then ((head, f), draw.2)
    else
      let f := ⟨f.attempts + 1, f.extraMs + cfg.profile.deadlineMs⟩
      match voters.filter fun j => decide (j ≠ head) with
      | [] => ((head, f), draw.2)
      | others =>
        let next := electHead (fun j => (s.committers j).weight cfg)
          (fun j => (s.committers j).weight_nonneg cfg) others draw.2
        failoverLoop s voters left f next.1 next.2

variable (rng) in
/-- `(rng.random(k) < p).sum()`. -/
def countBelow (p : ℚ) : Nat → rng.State → Nat × rng.State
  | 0, g => (0, g)
  | k + 1, g =>
    let draw := rng.random g
    let rest := countBelow p k draw.2
    ((if draw.1 < p then 1 else 0) + rest.1, rest.2)

/-- The outcome of all clusters, in order, and of the flat baseline. -/
structure Crashes where
  flatStalled : Nat
  perCluster : List (Nat × Failover)

/-- Heads crash and are replaced. -/
def failoverStep (s : Sim rng topo) : Crashes × Sim rng topo :=
  if cfg.headCrashProb > 0 then
    let flat := countBelow rng cfg.headCrashProb topo.k s.gen
    let recover (c : Fin topo.n) (head : Fin topo.k) (g : rng.State) :=
      let outcome := failoverLoop cfg s (s.members c) cfg.maxAttempts ⟨0, 0⟩ head g
      ((outcome.1.1, ((s.members c).length, outcome.1.2)), outcome.2)
    let pass := sweep recover (everyone topo.n) s.currentHeads flat.2
    (⟨flat.1, pass.1.2⟩, { s with currentHeads := pass.1.1, gen := pass.2 })
  else (⟨0, []⟩, s)

/-! ## §10. Adjudication. -/

variable (rng) in
/-- The transmissions of one message, at most `left` more. -/
def transmit (profile : NetworkProfile) (baseMs : ℚ) :
    Nat → ℚ → rng.State → (Bool × ℚ) × rng.State
  | 0, total, g => ((false, total), g)
  | left + 1, total, g =>
    let jitter := rng.lognormal profile.jitterSigma g
    let total := total + baseMs * jitter.1
    let draw := rng.random jitter.2
    if draw.1 ≥ profile.loss then ((decide (total ≤ profile.deadlineMs), total), draw.2)
    else transmit profile baseMs left total draw.2

variable (rng) in
/-- Delivered before the deadline, and the latency observed. -/
def delivered (profile : NetworkProfile) (baseMs : ℚ) (g : rng.State) : (Bool × ℚ) × rng.State :=
  transmit rng profile baseMs (profile.retransmits + 1) 0 g

/-- The head that reports a chain. -/
def Sim.headChainFor (s : Sim rng topo) (chain : Fin topo.k) : Fin topo.k :=
  match s.clusterOf chain with
  | some c => s.currentHeads c
  | none => chain

/-- The chain's cluster censors. -/
def Sim.censored (s : Sim rng topo) (chain : Fin topo.k) : Bool :=
  match s.clusterOf chain with
  | some c => s.censoring c
  | none => false

/-- What a committer means to do in the coming round. -/
def intent (s : Sim rng topo) (c : Committer) : SimEvent :=
  if c.byzantine then cfg.adversary.act c.state (s.history.length + 1) else .valid

/-- What becomes of a committer's round. -/
def adjudicate (s : Sim rng topo) (j : Fin topo.k) (c : Committer) (g : rng.State) :
    SimEvent × rng.State :=
  if c.online = false then (.missing, g)
  else if intent cfg s c = .missing then (.missing, g)
  else
    let baseMs := topo.rttMs j (s.headChainFor j)
    let arrival := delivered rng cfg.profile (max baseMs 1) g
    if arrival.1.1 = false then (.missing, arrival.2)
    else
      let draw := rng.random arrival.2
      if draw.1 < cfg.profile.unresolvedRate then (.unresolved, draw.2)
      else if s.censored j then (.unresolved, draw.2)
      else (intent cfg s c, draw.2)

/-- What the round records of one committer. -/
structure Verdict where
  event : SimEvent
  fault : Bool
  slashed : ℚ

/-- The verdict on the record. -/
def recorded (event : SimEvent) (c : Committer) : Verdict where
  event := event
  fault := decide (event = .invalid) && !c.state.jailed
  slashed := (MFPoP.step event c.state).2

/-- The event applied to the committer's machine. -/
def judge (s : Sim rng topo) (j : Fin topo.k) (c : Committer) (g : rng.State) :
    (Committer × Verdict) × rng.State :=
  let called := adjudicate cfg s j c g
  (({ c with state := (MFPoP.step called.1 c.state).1 }, recorded called.1 c), called.2)

/-- The verdicts of a round. -/
def adjudicateStep (t : Nat) (s : Sim rng topo) : List Verdict × Sim rng topo :=
  let pass := sweep (judge cfg s) (everyone topo.k) s.committers s.gen
  let isolated (j : Fin topo.k) : Bool := (pass.1.1 j).state.jailed && !(s.committers j).state.jailed
  (pass.1.2,
    { s with
      committers := pass.1.1
      gen := pass.2
      -- `setdefault`
      isolationRound := fun j =>
        if isolated j then some ((s.isolationRound j).getD t) else s.isolationRound j })

/-! ## §11. The round. -/

/-- A Byzantine committer that still counts. -/
def activeByzantine (c : Committer) : Bool := c.byzantine && !c.state.jailed && c.state.eligible

/-- The observables, from the state before the crashes, their outcome, the verdicts and the
state after them. -/
def roundStats (elected : Sim rng topo) (crashes : Crashes) (verdicts : List Verdict)
    (s : Sim rng topo) : RoundStats :=
  let caught := captured cfg elected
  let stalled := crashes.perCluster.filter fun f => decide (f.2.attempts ≠ 0)
  let exhausted := crashes.perCluster.countP fun f => decide (cfg.maxAttempts ≤ f.2.attempts)
  let extraMs := (crashes.perCluster.map fun f => f.2.extraMs).sum
  let coordination := coordinationMs elected + extraMs / max 1 topo.n
  let censored := (everyone topo.n).countP elected.censoring
  let weights := (everyone topo.k).map fun j => (s.committers j).weight cfg
  let byzWeights := (everyone topo.k).map fun j =>
    if (s.committers j).byzantine then (s.committers j).weight cfg else 0
  let inboundChains := ((everyone topo.n).filter fun c => !caught c).flatMap s.members
  let bad := inboundChains.countP fun j => activeByzantine (s.committers j)
  let within := decide (coordination ≤ cfg.roundBudgetMs)
  { auditAccuracy := 1 - (s.count activeByzantine : ℚ) / topo.k
    headHonestFrac := ((topo.n - elected.capturedHeads : Nat) : ℚ) / max 1 topo.n
    byzWeightShare := if 0 < weights.sum then byzWeights.sum / weights.sum else 0
    jailedByz := s.count fun c => c.byzantine && c.state.jailed
    jailedHonest := s.count fun c => !c.byzantine && c.state.jailed
    ineligibleHonest := s.count fun c => !c.byzantine && !c.state.eligible
    slashed := (verdicts.map Verdict.slashed).sum
    acceptedFaults := verdicts.countP Verdict.fault
    coordinationMs := coordination
    offline := s.count fun c => !c.online
    stalledChains := (stalled.map Prod.fst).sum
    stalledClusters := stalled.length
    flatStalledChains := crashes.flatStalled
    validEvents := verdicts.countP fun v => decide (v.event = .valid)
    honestEligible := s.count fun c => !c.byzantine && c.state.eligible
    failoverAttempts := (crashes.perCluster.map fun f => f.2.attempts).sum
    exhaustedClusters := exhausted
    capturedClusters := (everyone topo.n).countP caught
    censoredClusters := censored
    freshSlots := topo.n - censored
    roundComplete := decide (censored = 0) && decide (exhausted = 0) && within
    withinBudget := within
    accuracyInbound :=
      if ((everyone topo.n).filter fun c => !caught c).isEmpty then 1
      else 1 - (bad : ℚ) / max 1 inboundChains.length }

/-- Round `t`. -/
def auditRound (t : Nat) (s : Sim rng topo) : Option (Sim rng topo) := do
  let s ← partitionStep cfg t s
  let s ← reassign F cfg t (churnStep cfg s)
  let elected := electStep cfg (censorStep cfg s)
  let (crashes, recovered) := failoverStep cfg elected
  let (verdicts, judged) := adjudicateStep cfg t recovered
  return { judged with
    history := judged.history ++ [roundStats cfg elected crashes verdicts judged]
    headCaptureRounds := judged.headCaptureRounds + elected.capturedHeads
    headRounds := judged.headRounds + topo.n }

/-- Rounds `t`, `t + 1`, …, `t + rounds - 1`. -/
def runFrom : Nat → Nat → Sim rng topo → Option (Sim rng topo)
  | _, 0, s => some s
  | t, rounds + 1, s => (auditRound F cfg t s).bind (runFrom (t + 1) rounds)

/-! ## §12. The start. -/

/-- The coalition: among the Byzantine committers, or among all if there are none. -/
def drawColluders (byzIdx : List (Fin topo.k)) (g : rng.State) :
    Option (List (Fin topo.k) × rng.State) :=
  let pool := if byzIdx.isEmpty then everyone topo.k
    else (everyone topo.k).filter fun j => decide (j ∈ byzIdx)
  if 0 < cfg.collusionSize then
    (sample rng pool.length (min cfg.collusionSize pool.length : Nat) g).map fun drawn =>
      (drawn.1.map pool.get, drawn.2)
  else some ([], g)

variable (topo) in
/-- `__init__`: clusters, then the Byzantine committers, then the coalition. -/
def newSim (g : rng.State) : Option (Sim rng topo) := do
  let formed := formClusters F cfg topo g
  let lists ← formed.1
  let (byzIdx, g) ← sample rng topo.k (roundHalfEven (cfg.byzFrac * topo.k)) formed.2
  let (colluders, g) ← drawColluders cfg byzIdx g
  return {
    gen := g
    labels := lists.1
    members := lists.2
    committers := fun j =>
      { byzantine := decide (j ∈ byzIdx)
        state := MFPoP.init MFPoP.R_INITIAL 1
        online := true
        colluder := decide (j ∈ colluders) }
    partitioned := []
    censoring := fun _ => false
    currentHeads := fun _ => ⟨0, topo.k_pos⟩
    history := []
    isolationRound := fun _ => none
    headCaptureRounds := 0
    headRounds := 0 }

variable (topo) in
/-- `HZKASimulation(cfg, seed).run()`. -/
def simulate (rounds : Nat) (g : rng.State) : Option (Sim rng topo) :=
  (newSim F cfg topo g).bind (runFrom F cfg 1 rounds)

end HZKA.Simulator
