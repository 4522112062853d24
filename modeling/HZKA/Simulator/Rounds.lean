/-
  HZKA.Simulator.Rounds
  ────────────
  **WHAT A ROUND OF THE SIMULATOR CAN DO**, stated once.

  The phases before the adjudication only rearrange: who is online, who is in which cluster,
  who heads it, what was drawn.  The machines move by ONE adjudicated event per committer.
  `Round` says this of a round as a whole, and every property of runs is proved from it:

    • `auditRound_spec`       — a round that did not raise is a `Round`;
    • `adjudicate_called`     — the events a committer can be called on;
    • `adjudicate_prompt`     — on a network that delivers, the event it meant;
    • `simulate_invariant`, `simulate_stats` — the induction over the rounds of a run;
    • `simulate_isSome`       — runs that do not raise.
-/
import HZKA.Simulator.Simulation

namespace HZKA.Simulator

open HZKA.Lib

variable {F : Floats ℚ} {rng : Rng} {cfg : SimConfig} {topo : Topology}

/-! ## §1. The phases before the adjudication. -/

/-- `m` is `s` with other connections, clusters, heads and draws. -/
structure Rearranged (s m : Sim rng topo) : Prop where
  byzantine : ∀ j, (m.committers j).byzantine = (s.committers j).byzantine
  state : ∀ j, (m.committers j).state = (s.committers j).state
  history : m.history = s.history
  isolationRound : m.isolationRound = s.isolationRound
  headRounds : m.headRounds = s.headRounds
  headCaptureRounds : m.headCaptureRounds = s.headCaptureRounds

theorem Rearranged.refl (s : Sim rng topo) : Rearranged s s :=
  ⟨fun _ => rfl, fun _ => rfl, rfl, rfl, rfl, rfl⟩

theorem Rearranged.trans {a b c : Sim rng topo} (hab : Rearranged a b) (hbc : Rearranged b c) :
    Rearranged a c where
  byzantine := fun j => (hbc.byzantine j).trans (hab.byzantine j)
  state := fun j => (hbc.state j).trans (hab.state j)
  history := hbc.history.trans hab.history
  isolationRound := hbc.isolationRound.trans hab.isolationRound
  headRounds := hbc.headRounds.trans hab.headRounds
  headCaptureRounds := hbc.headCaptureRounds.trans hab.headCaptureRounds

theorem setOnline_rearranged (online : Bool) (chosen : List (Fin topo.k)) (s : Sim rng topo) :
    Rearranged s (setOnline online chosen s) where
  byzantine := fun j => by unfold setOnline; dsimp only; split <;> rfl
  state := fun j => by unfold setOnline; dsimp only; split <;> rfl
  history := rfl
  isolationRound := rfl
  headRounds := rfl
  headCaptureRounds := rfl

/-- The clusters of `m` are those of `s`. -/
def SameClusters (s m : Sim rng topo) : Prop := m.labels = s.labels ∧ m.members = s.members

/-- An outage moves no cluster. -/
theorem partitionStep_spec {t : Nat} {s m : Sim rng topo} (h : partitionStep cfg t s = some m) :
    Rearranged s m ∧ SameClusters s m := by
  unfold partitionStep at h
  split_ifs at h with hfrac hstart hend
  · obtain ⟨drawn, -, hm⟩ := Option.bind_eq_some_iff.mp h
    obtain rfl := Option.some.inj hm
    have hdrawn : Rearranged s { s with gen := drawn.2, partitioned := drawn.1 } :=
      ⟨fun _ => rfl, fun _ => rfl, rfl, rfl, rfl, rfl⟩
    exact ⟨hdrawn.trans (setOnline_rearranged _ _ _), rfl, rfl⟩
  · obtain rfl := Option.some.inj h
    have hback := setOnline_rearranged true s.partitioned s
    exact ⟨⟨hback.byzantine, hback.state, rfl, rfl, rfl, rfl⟩, rfl, rfl⟩
  · obtain rfl := Option.some.inj h
    exact ⟨Rearranged.refl s, rfl, rfl⟩
  · obtain rfl := Option.some.inj h
    exact ⟨Rearranged.refl s, rfl, rfl⟩

/-- A toggle touches nothing but the connection. -/
theorem toggle_standing (partitioned : List (Fin topo.k)) (j : Fin topo.k) (c : Committer)
    (g : rng.State) :
    (toggle cfg partitioned j c g).1.1.byzantine = c.byzantine
      ∧ (toggle cfg partitioned j c g).1.1.state = c.state := by
  unfold toggle
  dsimp only
  split_ifs <;> exact ⟨rfl, rfl⟩

variable (cfg) in
/-- Churn moves no cluster. -/
theorem churnStep_spec (s : Sim rng topo) :
    Rearranged s (churnStep cfg s) ∧ SameClusters s (churnStep cfg s) := by
  unfold churnStep
  split
  · obtain ⟨seen, hseen⟩ :=
      sweep_spec (toggle cfg s.partitioned) (List.nodup_finRange topo.k) s.committers s.gen
    have hcell := fun j => hseen.cell j (List.mem_finRange j)
    refine ⟨⟨fun j => ?_, fun j => ?_, rfl, rfl, rfl, rfl⟩, rfl, rfl⟩
    · show ((sweep (toggle cfg s.partitioned) (everyone topo.k) s.committers s.gen).1.1 j).byzantine
        = _
      rw [hcell j]
      exact (toggle_standing _ j _ _).1
    · show ((sweep (toggle cfg s.partitioned) (everyone topo.k) s.committers s.gen).1.1 j).state = _
      rw [hcell j]
      exact (toggle_standing _ j _ _).2
  · exact ⟨Rearranged.refl s, rfl, rfl⟩

/-- The clusters of `m` are fresh from a formation. -/
def Reformed (F : Floats ℚ) (cfg : SimConfig) (m : Sim rng topo) : Prop :=
  ∃ g : rng.State, (formClusters F cfg topo g).1 = some (m.labels, m.members)

/-- An epoch moves clusters alone. -/
theorem reassign_spec {t : Nat} {s m : Sim rng topo} (h : reassign F cfg t s = some m) :
    Rearranged s m ∧ m.committers = s.committers
      ∧ (SameClusters s m ∨ cfg.epochLen ≠ 0 ∧ Reformed F cfg m) := by
  unfold reassign at h
  split_ifs at h with hepoch
  · obtain ⟨lists, hlists, rfl⟩ := Option.map_eq_some_iff.mp h
    exact ⟨⟨fun _ => rfl, fun _ => rfl, rfl, rfl, rfl, rfl⟩, rfl,
      Or.inr ⟨hepoch.1, s.gen, hlists⟩⟩
  · obtain rfl := Option.some.inj h
    exact ⟨Rearranged.refl s, rfl, Or.inl ⟨rfl, rfl⟩⟩

/-- The state in which the observables of a round begin: clusters set, heads elected. -/
def elected (cfg : SimConfig) (m : Sim rng topo) : Sim rng topo := electStep cfg (censorStep cfg m)

@[simp] theorem elected_committers (m : Sim rng topo) :
    (elected cfg m).committers = m.committers := rfl

@[simp] theorem elected_members (m : Sim rng topo) : (elected cfg m).members = m.members := rfl

@[simp] theorem elected_labels (m : Sim rng topo) : (elected cfg m).labels = m.labels := rfl

@[simp] theorem elected_history (m : Sim rng topo) : (elected cfg m).history = m.history := rfl

/-- Only a captured cluster censors, and one that always does censors when captured. -/
theorem elected_censoring (m : Sim rng topo) (c : Fin topo.n) :
    ((elected cfg m).censoring c = true → captured cfg m c = true)
      ∧ (1 ≤ cfg.censorProb → captured cfg m c = true → (elected cfg m).censoring c = true) := by
  obtain ⟨seen, hseen⟩ :=
    sweep_spec (censor cfg (captured cfg m)) (List.nodup_finRange topo.n) m.censoring m.gen
  have hcell : (elected cfg m).censoring c = _ := hseen.cell c (List.mem_finRange c)
  rw [hcell, censor]
  split_ifs with hcaught
  · refine ⟨fun _ => hcaught, fun hprob _ => ?_⟩
    exact decide_eq_true (lt_of_lt_of_le (rng.random_lt_one _) hprob)
  · exact ⟨fun h => absurd h (by decide), fun _ h => absurd h hcaught⟩

variable (cfg) in
/-- Re-elections replace heads and nothing else. -/
theorem failoverStep_eq (s : Sim rng topo) :
    ∃ g heads, (failoverStep cfg s).2 = { s with currentHeads := heads, gen := g } := by
  unfold failoverStep
  split
  · exact ⟨_, _, rfl⟩
  · exact ⟨s.gen, s.currentHeads, rfl⟩

/-! ## §2. Events. -/

/-- What a committer can be called on: nothing arrived, the verdict stayed open, or it is the
event that was meant and the cluster let it through. -/
inductive Called (cfg : SimConfig) (s : Sim rng topo) (j : Fin topo.k) (c : Committer) :
    SimEvent → Prop
  | missing : Called cfg s j c .missing
  | unresolved : c.online = true → Called cfg s j c .unresolved
  | meant (event : SimEvent) : event = intent cfg s c → c.online = true → s.censored j = false →
      Called cfg s j c event

variable (cfg) in
theorem adjudicate_called (s : Sim rng topo) (j : Fin topo.k) (c : Committer) (g : rng.State) :
    Called cfg s j c (adjudicate cfg s j c g).1 := by
  unfold adjudicate
  dsimp only
  split_ifs with honline _ _ _ hcensored
  · exact .missing
  · exact .missing
  · exact .missing
  · exact .unresolved (by simpa using honline)
  · exact .unresolved (by simpa using honline)
  · exact .meant _ rfl (by simpa using honline) (by simpa using hcensored)

/-- A network that delivers everything in time and settles every verdict. -/
structure Prompt (cfg : SimConfig) (topo : Topology) : Prop where
  loss : cfg.profile.loss ≤ 0
  jitter : cfg.profile.jitterSigma = 0
  unresolved : cfg.profile.unresolvedRate ≤ 0
  deadline : ∀ a b, max (topo.rttMs a b) 1 ≤ cfg.profile.deadlineMs

theorem Prompt.delivered (h : Prompt cfg topo) (a b : Fin topo.k) (g : rng.State) :
    (delivered rng cfg.profile (max (topo.rttMs a b) 1) g).1.1 = true := by
  unfold Simulator.delivered
  rw [transmit]
  -- the first transmission is not lost
  rw [if_pos (le_trans h.loss (rng.random_nonneg _)), h.jitter, rng.lognormal_zero, mul_one,
    zero_add]
  exact decide_eq_true (h.deadline a b)

theorem adjudicate_prompt (h : Prompt cfg topo) {s : Sim rng topo} {j : Fin topo.k}
    {c : Committer} (honline : c.online = true) (hcensored : s.censored j = false)
    (g : rng.State) : (adjudicate cfg s j c g).1 = intent cfg s c := by
  unfold adjudicate
  dsimp only
  rw [if_neg (by rw [honline]; decide)]
  by_cases hmissing : intent cfg s c = .missing
  · rw [if_pos hmissing, hmissing]
  · have hdraw : ∀ g, ¬ (rng.random g).1 < cfg.profile.unresolvedRate := fun g =>
      not_lt.mpr (le_trans h.unresolved (rng.random_nonneg g))
    rw [if_neg hmissing, if_neg (by rw [h.delivered]; decide), if_neg (hdraw _),
      if_neg (by rw [hcensored]; decide)]

/-! ## §3. The round. -/

/-- The observables of the round. -/
abbrev statsOf (cfg : SimConfig) (m : Sim rng topo) (event : Fin topo.k → SimEvent)
    (s' : Sim rng topo) : RoundStats :=
  roundStats cfg (elected cfg m) (failoverStep cfg (elected cfg m)).1
    ((everyone topo.k).map fun j => recorded (event j) (m.committers j)) s'

/-- Round `t` took `s` to `s'`: `m` is `s` rearranged, and each committer of `m` made one step
on its `event`. -/
structure Round (F : Floats ℚ) (cfg : SimConfig) (t : Nat) (s m : Sim rng topo)
    (event : Fin topo.k → SimEvent) (s' : Sim rng topo) : Prop where
  rearranged : Rearranged s m
  online : cfg.partitionFrac ≤ 0 → cfg.churnRate ≤ 0 →
    ∀ j, (m.committers j).online = (s.committers j).online
  clusters : SameClusters s m ∨ cfg.epochLen ≠ 0 ∧ Reformed F cfg m
  called : ∀ j, ∃ g : rng.State,
    event j = (adjudicate cfg (failoverStep cfg (elected cfg m)).2 j (m.committers j) g).1
  committers : ∀ j, s'.committers j
    = { m.committers j with state := (MFPoP.step (event j) (s.committers j).state).1 }
  keeps : SameClusters m s'
  heads : s'.currentHeads = (failoverStep cfg (elected cfg m)).2.currentHeads
  isolation : ∀ j, s'.isolationRound j =
    if (s'.committers j).state.jailed && !(s.committers j).state.jailed
    then some ((s.isolationRound j).getD t) else s.isolationRound j
  history : s'.history = s.history ++ [statsOf cfg m event s']
  headRounds : s'.headRounds = s.headRounds + topo.n
  headCaptureRounds : s'.headCaptureRounds = s.headCaptureRounds + (elected cfg m).capturedHeads

variable (cfg) in
/-- The adjudication as one event per committer. -/
theorem adjudicateStep_spec (t : Nat) (s : Sim rng topo) :
    ∃ event : Fin topo.k → SimEvent,
      (∀ j, ∃ g, event j = (adjudicate cfg s j (s.committers j) g).1)
        ∧ (∀ j, (adjudicateStep cfg t s).2.committers j
            = { s.committers j with state := (MFPoP.step (event j) (s.committers j).state).1 })
        ∧ (adjudicateStep cfg t s).1
            = (everyone topo.k).map fun j => recorded (event j) (s.committers j) := by
  obtain ⟨seen, hseen⟩ :=
    sweep_spec (judge cfg s) (List.nodup_finRange topo.k) s.committers s.gen
  refine ⟨fun j => (adjudicate cfg s j (s.committers j) (seen j)).1, fun j => ⟨seen j, rfl⟩, ?_, ?_⟩
  · exact fun j => hseen.cell j (List.mem_finRange j)
  · exact hseen.outputs

/-- What one round does. -/
theorem auditRound_spec {t : Nat} {s s' : Sim rng topo} (h : auditRound F cfg t s = some s') :
    ∃ m event, Round F cfg t s m event s' := by
  obtain ⟨p, hp, h⟩ := Option.bind_eq_some_iff.mp h
  obtain ⟨m, hm, h⟩ := Option.bind_eq_some_iff.mp h
  obtain ⟨hsp, hcp⟩ := partitionStep_spec hp
  obtain ⟨hpc, hcc⟩ := churnStep_spec cfg p
  obtain ⟨hcm, hcomm, hclusters⟩ := reassign_spec hm
  have hsm := (hsp.trans hpc).trans hcm
  obtain ⟨g, heads, hfail⟩ := failoverStep_eq cfg (elected cfg m)
  obtain ⟨event, hcalled, hstep, hverdicts⟩ :=
    adjudicateStep_spec cfg t (failoverStep cfg (elected cfg m)).2
  have hcommitters : (failoverStep cfg (elected cfg m)).2.committers = m.committers := by
    rw [hfail]
    rfl
  rw [hcommitters] at hcalled hstep hverdicts
  obtain rfl := Option.some.inj h
  refine ⟨m, event, hsm, ?_, ?_, hcalled, ?_, ?_, rfl, ?_, ?_, ?_, ?_⟩
  · -- without outages and churn nobody goes
    intro hfrac hchurn j
    rw [partitionStep, if_neg (not_lt.mpr hfrac)] at hp
    obtain rfl := Option.some.inj hp
    rw [hcomm, churnStep, if_neg (not_lt.mpr hchurn)]
  · rcases hclusters with hsame | hnew
    · exact Or.inl ⟨(hsame.1.trans hcc.1).trans hcp.1, (hsame.2.trans hcc.2).trans hcp.2⟩
    · exact Or.inr hnew
  · intro j
    rw [← hsm.state j]
    exact hstep j
  · show (failoverStep cfg (elected cfg m)).2.labels = _
      ∧ (failoverStep cfg (elected cfg m)).2.members = _
    rw [hfail]
    exact ⟨rfl, rfl⟩
  · intro j
    rw [← hsm.state j, ← hsm.isolationRound]
    show (if (_ && !((failoverStep cfg (elected cfg m)).2.committers j).state.jailed) = true
      then some (((failoverStep cfg (elected cfg m)).2.isolationRound j).getD t)
      else (failoverStep cfg (elected cfg m)).2.isolationRound j) = _
    rw [hfail]
    rfl
  · show (failoverStep cfg (elected cfg m)).2.history ++ _ = _
    rw [← hsm.history, statsOf, ← hverdicts]
    have : (failoverStep cfg (elected cfg m)).2.history = m.history := by
      rw [hfail]
      rfl
    rw [this]
    rfl
  · show (failoverStep cfg (elected cfg m)).2.headRounds + _ = _
    rw [← hsm.headRounds, hfail]
    rfl
  · show (failoverStep cfg (elected cfg m)).2.headCaptureRounds + _ = _
    rw [← hsm.headCaptureRounds, hfail]
    rfl

namespace Round

variable {t : Nat} {s m s' : Sim rng topo} {event : Fin topo.k → SimEvent}
  (h : Round F cfg t s m event s')

include h

theorem byzantine (j : Fin topo.k) : (s'.committers j).byzantine = (s.committers j).byzantine := by
  rw [h.committers j]
  exact h.rearranged.byzantine j

theorem state (j : Fin topo.k) :
    (s'.committers j).state = (MFPoP.step (event j) (s.committers j).state).1 := by
  rw [h.committers j]

theorem length : s'.history.length = s.history.length + 1 := by
  rw [h.history, List.length_append, List.length_singleton]

/-- An entry of the history is an old one or that of the round. -/
theorem entry {r : Nat} {stats : RoundStats} (hr : s'.history[r]? = some stats) :
    (r < s.history.length ∧ s.history[r]? = some stats)
      ∨ (r = s.history.length ∧ stats = statsOf cfg m event s') := by
  rw [h.history] at hr
  rcases Nat.lt_or_ge r s.history.length with hlt | hge
  · rw [List.getElem?_append_left hlt] at hr
    exact Or.inl ⟨hlt, hr⟩
  · rw [List.getElem?_append_right hge] at hr
    obtain ⟨hlast, hstats⟩ := List.getElem?_eq_some_iff.mp hr
    have hzero : r - s.history.length = 0 := by
      simp at hlast
      omega
    refine Or.inr ⟨by omega, ?_⟩
    simp only [hzero, List.getElem_cons_zero] at hstats
    exact hstats.symm

/-- Re-elections between the election and the adjudication do not matter to the events. -/
theorem call (j : Fin topo.k) : Called cfg (elected cfg m) j (m.committers j) (event j) := by
  obtain ⟨g, hg⟩ := h.called j
  obtain ⟨g', heads, hfail⟩ := failoverStep_eq cfg (elected cfg m)
  have hcall := adjudicate_called cfg { elected cfg m with currentHeads := heads, gen := g' } j
    (m.committers j) g
  rw [← hfail, ← hg] at hcall
  generalize event j = called at hcall ⊢
  rw [hfail] at hcall
  cases hcall with
  | missing => exact .missing
  | unresolved honline => exact .unresolved honline
  | meant _ hmeant honline hopen => exact .meant _ hmeant honline hopen

theorem prompt (hp : Prompt cfg topo) {j : Fin topo.k} (honline : (m.committers j).online = true)
    (hopen : (elected cfg m).censored j = false) :
    event j = intent cfg (elected cfg m) (m.committers j) := by
  obtain ⟨g, hg⟩ := h.called j
  obtain ⟨g', heads, hfail⟩ := failoverStep_eq cfg (elected cfg m)
  have hopen' : ({ elected cfg m with currentHeads := heads, gen := g' } : Sim rng topo).censored j
      = false := hopen
  rw [hg, hfail]
  exact adjudicate_prompt hp honline hopen' g

end Round

/-! ## §4. The start. -/

/-- What `__init__` leaves. -/
structure Fresh (F : Floats ℚ) (cfg : SimConfig) (s : Sim rng topo) : Prop where
  state : ∀ j, (s.committers j).state = MFPoP.init MFPoP.R_INITIAL 1
  online : ∀ j, (s.committers j).online = true
  byzantine : (s.count fun c => c.byzantine : Int) = roundHalfEven (cfg.byzFrac * topo.k)
  clusters : Reformed F cfg s
  history : s.history = []
  isolationRound : ∀ j, s.isolationRound j = none
  headRounds : s.headRounds = 0
  headCaptureRounds : s.headCaptureRounds = 0

/-- A sample has the size asked for, and nobody twice. -/
theorem sample_spec {k : Nat} {size : Int} {g : rng.State} {drawn : List (Fin k) × rng.State}
    (h : sample rng k size g = some drawn) : drawn.1.Nodup ∧ (drawn.1.length : Int) = size := by
  unfold sample at h
  split_ifs at h with hsize
  obtain rfl := Option.some.inj h
  refine ⟨(List.nodup_finRange _).map (rng.choice hsize.2 g).1.injective, ?_⟩
  rw [List.length_map, List.length_finRange]
  omega

theorem countP_mem_of_nodup {k : Nat} {chosen : List (Fin k)} (hnodup : chosen.Nodup) :
    ((everyone k).countP fun j => decide (j ∈ chosen)) = chosen.length := by
  rw [List.countP_eq_length_filter]
  apply List.Perm.length_eq
  rw [List.perm_ext_iff_of_nodup ((List.nodup_finRange k).filter _) hnodup]
  simp

theorem newSim_fresh {g : rng.State} {s : Sim rng topo} (h : newSim F cfg topo g = some s) :
    Fresh F cfg s := by
  obtain ⟨lists, hlists, h⟩ := Option.bind_eq_some_iff.mp h
  obtain ⟨drawn, hdrawn, h⟩ := Option.bind_eq_some_iff.mp h
  obtain ⟨colluders, -, h⟩ := Option.bind_eq_some_iff.mp h
  obtain ⟨hnodup, hlength⟩ := sample_spec hdrawn
  obtain rfl := Option.some.inj h
  refine ⟨fun _ => rfl, fun _ => rfl, ?_, ⟨g, hlists⟩, rfl, fun _ => rfl, rfl, rfl⟩
  rw [← hlength]
  exact congrArg Nat.cast (countP_mem_of_nodup hnodup)

/-! ## §5. Runs. -/

section Runs

variable {P : Nat → Sim rng topo → Prop}
  (step : ∀ t s m event s', P t s → Round F cfg (t + 1) s m event s' → P (t + 1) s')

include step

/-- **An invariant of each round holds in the run**. -/
theorem runFrom_invariant (rounds : Nat) : ∀ {t : Nat} {s s' : Sim rng topo}, P t s →
    runFrom F cfg (t + 1) rounds s = some s' → P (t + rounds) s' := by
  induction rounds with
  | zero =>
    intro t s s' hP h
    obtain rfl := Option.some.inj h
    exact hP
  | succ rounds ih =>
    intro t s s' hP h
    obtain ⟨next, hround, hrest⟩ := Option.bind_eq_some_iff.mp h
    obtain ⟨m, event, hspec⟩ := auditRound_spec hround
    have := ih (step t s m event next hP hspec) hrest
    rwa [Nat.add_right_comm] at this

/-- **What holds at the start and survives a round holds after any number of rounds.** -/
theorem simulate_invariant (start : ∀ s, Fresh F cfg s → P 0 s) {rounds : Nat} {g : rng.State}
    {s : Sim rng topo} (h : simulate F cfg topo rounds g = some s) : P rounds s := by
  obtain ⟨s₀, hnew, hrun⟩ := Option.bind_eq_some_iff.mp h
  have := runFrom_invariant step rounds (start s₀ (newSim_fresh hnew)) hrun
  rwa [Nat.zero_add] at this

/-- The same for what every round reports. -/
theorem simulate_stats (start : ∀ s, Fresh F cfg s → P 0 s) {Q : RoundStats → Prop}
    (report : ∀ t s m event s', P t s → Round F cfg (t + 1) s m event s' →
      Q (statsOf cfg m event s'))
    {rounds : Nat} {g : rng.State} {s : Sim rng topo}
    (h : simulate F cfg topo rounds g = some s) : ∀ stats ∈ s.history, Q stats := by
  refine (simulate_invariant (P := fun t s => P t s ∧ ∀ stats ∈ s.history, Q stats) ?_ ?_ h).2
  · intro t s m event s' ih hround
    refine ⟨step t s m event s' ih.1 hround, ?_⟩
    intro stats hstats
    rw [hround.history, List.mem_append, List.mem_singleton] at hstats
    rcases hstats with hold | rfl
    · exact ih.2 stats hold
    · exact report t s m event s' ih.1 hround
  · intro s hfresh
    refine ⟨start s hfresh, ?_⟩
    rw [hfresh.history]
    exact fun stats hstats => absurd hstats List.not_mem_nil

end Runs

/-! ## §6. Runs that do not raise. -/

theorem roundHalfEven_mem {q : ℚ} {k : Nat} (hlow : 0 ≤ q) (hhigh : q ≤ k) :
    0 ≤ roundHalfEven q ∧ roundHalfEven q ≤ k := by
  have hfloor : 0 ≤ ⌊q⌋ := Int.floor_nonneg.mpr hlow
  have hle : ⌊q⌋ ≤ (k : Int) := by
    have := Int.floor_le_floor hhigh
    rwa [Int.floor_natCast] at this
  -- if the floor is `k` then so is `q`, and nothing is rounded up
  have hup : ¬ q - ⌊q⌋ < 1 / 2 → ⌊q⌋ + 1 ≤ (k : Int) := by
    intro hhalf
    rcases hle.lt_or_eq with hlt | heq
    · omega
    · exfalso
      apply hhalf
      rw [heq, Int.cast_natCast]
      linarith
  unfold roundHalfEven
  dsimp only
  split_ifs with hhalf
  · exact ⟨hfloor, hle⟩
  · have := hup hhalf
    omega
  · exact ⟨hfloor, hle⟩
  · have := hup hhalf
    omega

theorem sample_isSome {k : Nat} {size : Int} (h : 0 ≤ size ∧ size ≤ k) (g : rng.State) :
    (sample rng k size g).isSome = true := by
  unfold sample
  rw [dif_pos ⟨h.1, by omega⟩]
  rfl

/-- What keeps the engine from raising: costs are finite, the clusters have room for all
chains, and the fractions are fractions. -/
structure WellPosed (F : Floats ℚ) (cfg : SimConfig) (topo : Topology) : Prop where
  finite : ∀ cost, F.less cost none = true
  room : topo.k ≤ topo.n * capacityOf F topo.k topo.n (some cfg.bMax)
  byzFrac : 0 ≤ cfg.byzFrac ∧ cfg.byzFrac ≤ 1
  partitionFrac : cfg.partitionFrac ≤ 1

theorem fraction_mem {q : ℚ} (k : Nat) (h : 0 ≤ q ∧ q ≤ 1) :
    0 ≤ roundHalfEven (q * k) ∧ roundHalfEven (q * k) ≤ k := by
  have hk : (0 : ℚ) ≤ k := Nat.cast_nonneg k
  exact roundHalfEven_mem (mul_nonneg h.1 hk) (mul_le_of_le_one_left hk h.2)

/-- With finite costs the first restart is already better than nothing. -/
theorem restartLoop_isSome (hfinite : ∀ cost, F.less cost none = true) (P : Instance ℚ)
    (capacity : Option Nat) (iters restarts : Nat) :
    ∀ (best : Option (P.Labels × ℚ)) (g : rng.State), best.isSome = true ∨ 1 ≤ restarts →
      ((restartLoop F rng.toGenerator P capacity iters restarts best g).1).isSome = true := by
  induction restarts with
  | zero =>
    intro best g h
    rcases h with h | h
    · exact h
    · omega
  | succ restarts ih =>
    intro best g _
    rw [restartLoop]
    show ((if F.less _ _ = true then _ else _ :
      StateM rng.State (Option (P.Labels × ℚ))) _).1.isSome = true
    split
    · exact ih _ _ (Or.inl rfl)
    · rename_i hless
      refine ih _ _ (Or.inl ?_)
      cases best with
      | none => exact absurd (hfinite _) hless
      | some b => rfl

section WellPosed

variable (h : WellPosed F cfg topo)

include h

theorem WellPosed.clusters (g : rng.State) : (formClusters F cfg topo g).1.isSome = true := by
  have hsome : (kmedoidPartition F rng.toGenerator (formation cfg topo) (some cfg.bMax) 30 8
      g).1.isSome = true := by
    have := restartLoop_isSome h.finite (formation cfg topo) (some cfg.bMax) 30 8 none g
      (Or.inr (by omega))
    show (Option.map Prod.fst _).isSome = true
    rw [Option.isSome_map]
    exact this
  obtain ⟨labels, hlabels⟩ := Option.isSome_iff_exists.mp hsome
  have hrange := (partition_within_capacity F rng.toGenerator (formation cfg topo) (by omega)
    h.room g hlabels).range
  unfold formClusters
  dsimp only
  rw [hlabels, Option.bind_some, Option.isSome_map, buildMembers, if_pos hrange]
  rfl

omit h in
variable (cfg) in
/-- A coalition is drawn from a pool at least as large. -/
theorem drawColluders_isSome (byzIdx : List (Fin topo.k)) (g : rng.State) :
    (drawColluders cfg byzIdx g).isSome = true := by
  unfold drawColluders
  by_cases hsize : 0 < cfg.collusionSize
  · rw [if_pos hsize, Option.isSome_map]
    generalize (if byzIdx.isEmpty = true then everyone topo.k else _) = pool
    apply sample_isSome
    omega
  · rw [if_neg hsize]
    rfl

theorem WellPosed.start (g : rng.State) : (newSim F cfg topo g).isSome = true := by
  obtain ⟨lists, hlists⟩ := Option.isSome_iff_exists.mp (h.clusters g)
  obtain ⟨drawn, hdrawn⟩ := Option.isSome_iff_exists.mp
    (sample_isSome (fraction_mem topo.k h.byzFrac) (formClusters F cfg topo g).2)
  obtain ⟨colluders, hcolluders⟩ := Option.isSome_iff_exists.mp
    (drawColluders_isSome cfg drawn.1 drawn.2)
  unfold newSim
  simp only [hlists, hdrawn, hcolluders, Option.bind_eq_bind, Option.bind_some]
  rfl

theorem WellPosed.outage (t : Nat) (s : Sim rng topo) :
    (partitionStep cfg t s).isSome = true := by
  unfold partitionStep
  split_ifs with hfrac
  · obtain ⟨drawn, hdrawn⟩ := Option.isSome_iff_exists.mp
      (sample_isSome (fraction_mem topo.k ⟨hfrac.le, h.partitionFrac⟩) s.gen)
    rw [hdrawn]
    rfl
  · rfl
  · rfl
  · rfl

theorem WellPosed.epoch (t : Nat) (s : Sim rng topo) : (reassign F cfg t s).isSome = true := by
  unfold reassign
  split
  · dsimp only
    rw [Option.isSome_map]
    exact h.clusters s.gen
  · rfl

/-- A round succeeds. -/
theorem WellPosed.round (t : Nat) (s : Sim rng topo) : (auditRound F cfg t s).isSome = true := by
  obtain ⟨p, hp⟩ := Option.isSome_iff_exists.mp (h.outage t s)
  obtain ⟨m, hm⟩ := Option.isSome_iff_exists.mp (h.epoch t (churnStep cfg p))
  unfold auditRound
  simp only [hp, hm, Option.bind_eq_bind, Option.bind_some]
  rfl

theorem runFrom_isSome (rounds : Nat) : ∀ (t : Nat) (s : Sim rng topo),
    (runFrom F cfg t rounds s).isSome = true := by
  induction rounds with
  | zero => exact fun _ _ => rfl
  | succ rounds ih =>
    intro t s
    obtain ⟨next, hnext⟩ := Option.isSome_iff_exists.mp (h.round t s)
    rw [runFrom, hnext]
    exact ih (t + 1) next

/-- **A well-posed run succeeds**. -/
theorem simulate_isSome (rounds : Nat) (g : rng.State) :
    ∃ s, simulate F cfg topo rounds g = some s := by
  obtain ⟨s₀, hs₀⟩ := Option.isSome_iff_exists.mp (h.start g)
  obtain ⟨s, hs⟩ := Option.isSome_iff_exists.mp (runFrom_isSome h rounds 1 s₀)
  refine ⟨s, ?_⟩
  rw [simulate, hs₀]
  exact hs

end WellPosed

/-! ## §7. An engine with fixed draws. -/

/-- Exact arithmetic for floats. -/
def rationals : Floats ℚ where
  argsort := fun v => (List.finRange _).mergeSort fun i j => decide (v i ≤ v j)
  argsort_perm := fun _ => List.mergeSort_perm _ _
  argmin := fun hm v =>
    (List.finRange _).foldl (fun best i => if v i < v best then i else best) ⟨0, hm⟩
  amin := fun hm v => (List.finRange _).foldl (fun best i => min best (v i)) (v ⟨0, hm⟩)
  sum := fun v => (List.ofFn v).sum
  zero := 0
  add := fun a b => a + b
  less := fun cost best => best.all fun b => decide (cost < b)
  quotient := fun a b => (a : ℚ) / b
  quotient_close := naturals.quotient_close

/-- Shares that add up to one are not all zero. -/
theorem exists_share {k : Nat} {voters : List (Fin k)} {p : Fin k → ℚ}
    (hp : ∀ j ∈ voters, 0 ≤ p j) (hone : (voters.map p).sum = 1) :
    ∃ j ∈ voters, 0 < p j := by
  by_contra hnone
  have hzero : ∀ x ∈ voters.map p, x = 0 := by
    intro x hx
    obtain ⟨j, hj, rfl⟩ := List.mem_map.mp hx
    exact le_antisymm (not_lt.mp fun hpos => hnone ⟨j, hj, hpos⟩) (hp j hj)
  rw [List.sum_eq_zero hzero] at hone
  exact zero_ne_one hone

theorem find_share {k : Nat} {voters : List (Fin k)} {p : Fin k → ℚ}
    (hp : ∀ j ∈ voters, 0 ≤ p j) (hone : (voters.map p).sum = 1) :
    (voters.find? fun j => decide (0 < p j)).isSome = true := by
  obtain ⟨j, hj, hpos⟩ := exists_share hp hone
  exact List.find?_isSome.mpr ⟨j, hj, decide_eq_true hpos⟩

/-- Every draw is one half, every sample takes the first. -/
def halves : Rng where
  toGenerator := firstDraws
  random := fun g => (1 / 2, g)
  random_nonneg := fun _ => by norm_num
  random_lt_one := fun _ => by norm_num
  lognormal := fun _ g => (1, g)
  lognormal_zero := fun _ => rfl
  choiceBy := fun voters p hp hone g =>
    ((voters.find? fun j => decide (0 < p j)).get (find_share hp hone), g)
  choiceBy_mem := fun voters p hp hone g => by
    have hget := Option.some_get (find_share hp hone)
    have hmem := List.mem_of_find?_eq_some hget.symm
    have hpos := List.find?_some hget.symm
    exact ⟨hmem, of_decide_eq_true hpos⟩

/-- The state of that generator. -/
def seed : halves.State := ()

/-- Nine chains, every hop one millisecond. -/
def grid : Topology where
  k := 9
  k_pos := by decide
  rtt := fun _ _ => 0
  corr := fun _ _ => 0
  rttMs := fun _ _ => 1

/-- A third of the committers attack, everything is delivered, nobody crashes. -/
def calm : SimConfig where
  byzFrac := 1 / 3
  churnRate := 0
  rejoinRate := 3 / 10
  adversary := ⟨.naive, 6, 100, by decide⟩
  profile := ⟨0, 0, 2, 100, 0⟩
  eta := 1 / 2
  bMax := 3
  epochLen := 0
  nu := 1
  wMax := 1
  wMax_nonneg := zero_le_one
  collusionSize := 0
  headCrashProb := 0
  maxAttempts := 3
  roundBudgetMs := 120000
  partitionFrac := 0
  partitionStart := 0
  partitionEnd := 0
  modelCapture := false
  censorProb := 1

theorem ceilSqrt_nine : ceilSqrt 9 = 3 := by
  unfold ceilSqrt
  rw [show (9 : Nat) = 3 * 3 from rfl, Nat.sqrt_eq]
  rfl

/-- Any engine on the nine chains with room for three in a cluster and fractions for
fractions runs. -/
theorem grid_wellPosed {cfg : SimConfig} (hmax : cfg.bMax = 3)
    (hbyz : 0 ≤ cfg.byzFrac ∧ cfg.byzFrac ≤ 1) (hpart : cfg.partitionFrac ≤ 1) :
    WellPosed rationals cfg grid where
  finite := fun _ => rfl
  room := by
    rw [hmax]
    show 9 ≤ ceilSqrt 9 * 3
    rw [ceilSqrt_nine]
  byzFrac := hbyz
  partitionFrac := hpart

/-- The calm network with another strategy. -/
def calmWith (adversary : Adversary) : SimConfig := { calm with adversary := adversary }

theorem calmWith_wellPosed (adversary : Adversary) :
    WellPosed rationals (calmWith adversary) grid := by
  apply grid_wellPosed
  · rfl
  · norm_num [calmWith, calm]
  · norm_num [calmWith, calm]

theorem calmWith_runs (adversary : Adversary) (rounds : Nat) :
    ∃ s, simulate rationals (calmWith adversary) grid rounds seed = some s :=
  simulate_isSome (calmWith_wellPosed adversary) rounds seed

end HZKA.Simulator
