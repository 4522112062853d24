/-
  HZKA.Simulator.Isolation
  ────────────
  **WHO IS PUNISHED IN A RUN, FOR WHAT, AND WHEN.**

  A fault is recorded of a committer only if it is Byzantine, online, in a cluster that does
  not censor, and its strategy chose to attack (`Round.invalid`).  Over a whole run, whatever
  the network, the churn and the outages do:

    • `honest_never_punished`  — no honest committer loses reputation weight, stake or freedom;
    • `fault_ledger`           — the observables of the rounds add up to the machines' counts,
                                 and an attack is worth at most seven faults;
    • `isolation_ledger`       — the record of isolations is the rounds' count of jailed;
    • `evaders_stay`           — strategies that look before they attack are never jailed;
    • `naive_isolated`         — on a network that delivers, the naive ones are, in round 6.
-/
import HZKA.Lib.Counting
import HZKA.Simulator.Rounds

namespace HZKA.Simulator

open HZKA.Lib

variable {F : Floats ℚ} {rng : Rng} {cfg : SimConfig} {topo : Topology}
  {rounds : Nat} {g : rng.State} {s : Sim rng topo}

/-! ## §1. Faults. -/

/-- What stands behind a fault. -/
theorem Round.invalid {t : Nat} {s m s' : Sim rng topo} {event : Fin topo.k → SimEvent}
    (h : Round F cfg t s m event s') {j : Fin topo.k} (hev : event j = .invalid) :
    (s.committers j).byzantine = true
      ∧ (elected cfg m).censored j = false
      ∧ cfg.adversary.act (s.committers j).state (s.history.length + 1) = .invalid := by
  have hcall := h.call j
  rw [hev] at hcall
  cases hcall with
  | meant _ hmeant _ hopen =>
    unfold intent at hmeant
    rw [elected_history, h.rearranged.history, h.rearranged.byzantine j,
      h.rearranged.state j] at hmeant
    split at hmeant
    · rename_i hbyz
      exact ⟨hbyz, hopen, hmeant.symm⟩
    · exact absurd hmeant (by decide)

/-- **Every run** keeps the states sound. -/
theorem simulate_sound (h : simulate F cfg topo rounds g = some s) (j : Fin topo.k) :
    (s.committers j).state.Sound := by
  refine simulate_invariant (P := fun _ s => ∀ j, (s.committers j).state.Sound) ?_ ?_ h j
  · intro t s m event s' ih hround j
    rw [hround.state j]
    exact (ih j).step (event j)
  · intro s hfresh j
    rw [hfresh.state j]
    exact MFPoP.sound_init

/-- The honest machines are clean. -/
def HonestClean (s : Sim rng topo) : Prop :=
  ∀ j, (s.committers j).byzantine = false → (s.committers j).state.Clean

/-- **One round** leaves the honest clean. -/
theorem HonestClean.round {t : Nat} {s m s' : Sim rng topo} {event : Fin topo.k → SimEvent}
    (ih : HonestClean s) (hround : Round F cfg t s m event s') : HonestClean s' := by
  intro j hhonest
  rw [hround.byzantine j] at hhonest
  rw [hround.state j]
  refine (ih j hhonest).step fun hev => ?_
  rw [(hround.invalid hev).1] at hhonest
  exact absurd hhonest (by decide)

theorem Fresh.honestClean {s : Sim rng topo} (h : Fresh F cfg s) : HonestClean s := by
  intro j _
  rw [h.state j]
  exact MFPoP.clean_init

/-- **Every run** leaves the honest clean. -/
theorem simulate_clean (h : simulate F cfg topo rounds g = some s) : HonestClean s :=
  simulate_invariant (P := fun _ s => HonestClean s)
    (fun _ _ _ _ _ ih hround => ih.round hround) (fun _ hfresh => hfresh.honestClean) h

/-- Nobody honest is counted as jailed. -/
theorem HonestClean.jailedHonest {s : Sim rng topo} (h : HonestClean s) :
    (s.count fun c => !c.byzantine && c.state.jailed) = 0 := by
  rw [Sim.count, List.countP_eq_zero]
  intro j _ hjailed
  rw [Bool.and_eq_true, Bool.not_eq_true'] at hjailed
  rw [(h j hjailed.1).free] at hjailed
  exact absurd hjailed.2 (by decide)

/-- **Honest committers are never punished.** -/
theorem honest_never_punished (h : simulate F cfg topo rounds g = some s) :
    (∀ j, (s.committers j).byzantine = false →
        (s.committers j).state.jailed = false ∧ (s.committers j).state.phi = 1
          ∧ (s.committers j).state.stake = 1)
      ∧ ∀ stats ∈ s.history, stats.jailedHonest = 0 := by
  constructor
  · intro j hhonest
    have hclean := simulate_clean h j hhonest
    have hsound := simulate_sound h j
    have hphi := hsound.phi
    have hstake := hsound.stake
    rw [MFPoP.PhiInv, hclean.faults, pow_zero, mul_one] at hphi
    rw [hclean.faults, pow_zero] at hstake
    exact ⟨hclean.free, hphi, hstake⟩
  · exact simulate_stats (P := fun _ s => HonestClean s)
      (fun _ _ _ _ _ ih hround => ih.round hround) (fun _ hfresh => hfresh.honestClean)
      (fun _ _ _ _ _ ih hround => (ih.round hround).jailedHonest) h

theorem calm_honest_never_punished :
    ∃ s, simulate rationals (calmWith calm.adversary) grid 12 seed = some s
      ∧ ∀ stats ∈ s.history, stats.jailedHonest = 0 := by
  obtain ⟨s, hs⟩ := calmWith_runs calm.adversary 12
  exact ⟨s, hs, (honest_never_punished hs).2⟩

/-! ## §2. The ledger of faults. -/

/-- All faults the machines remember. -/
def Sim.faults (s : Sim rng topo) : Nat :=
  ((everyone topo.k).map fun j => (s.committers j).state.v).sum

/-- All stake that is gone. -/
def Sim.lost (s : Sim rng topo) : ℚ :=
  ((everyone topo.k).map fun j => 1 - (s.committers j).state.stake).sum

section Ledger

variable {t : Nat} {s m s' : Sim rng topo} {event : Fin topo.k → SimEvent}
  (h : Round F cfg t s m event s')

include h

theorem Round.faults : s'.faults = s.faults
    + ((everyone topo.k).map fun j => recorded (event j) (m.committers j)).countP Verdict.fault := by
  rw [List.countP_map]
  apply sum_counted
  intro j
  rw [h.state j, MFPoP.step_faults]
  simp [recorded, h.rearranged.state j]

theorem Round.lost : s'.lost = s.lost
    + (((everyone topo.k).map fun j => recorded (event j) (m.committers j)).map
        Verdict.slashed).sum := by
  unfold Sim.lost
  rw [List.map_map, ← List.sum_map_add]
  congr 1
  apply List.map_congr_left
  intro j _
  show _ = _ + (MFPoP.step (event j) (m.committers j).state).2
  rw [h.rearranged.state j, MFPoP.step_slashed, h.state j]
  ring

theorem Round.countByzantine :
    (s'.count fun c => c.byzantine) = s.count fun c => c.byzantine := by
  unfold Sim.count
  congr 1
  funext j
  exact h.byzantine j

end Ledger

/-- The Byzantine committers are as many as were drawn. -/
theorem simulate_byzantine (h : simulate F cfg topo rounds g = some s) :
    (s.count fun c => c.byzantine : Int) = roundHalfEven (cfg.byzFrac * topo.k) := by
  refine simulate_invariant (P := fun _ s =>
    (s.count fun c => c.byzantine : Int) = roundHalfEven (cfg.byzFrac * topo.k)) ?_ ?_ h
  · intro t s m event s' ih hround
    rw [hround.countByzantine]
    exact ih
  · exact fun s hfresh => hfresh.byzantine

/-- What the rounds report is what the machines remember. -/
theorem simulate_reported (h : simulate F cfg topo rounds g = some s) :
    (s.history.map RoundStats.acceptedFaults).sum = s.faults
      ∧ (s.history.map RoundStats.slashed).sum = s.lost := by
  refine simulate_invariant (P := fun _ s =>
    (s.history.map RoundStats.acceptedFaults).sum = s.faults
      ∧ (s.history.map RoundStats.slashed).sum = s.lost) ?_ ?_ h
  · intro t s m event s' ih hround
    rw [hround.history, List.map_append, List.map_append, List.sum_append, List.sum_append,
      ih.1, ih.2, hround.faults, hround.lost]
    simp [roundStats]
  · intro s hfresh
    unfold Sim.faults Sim.lost
    rw [hfresh.history]
    simp [hfresh.state, MFPoP.init]

/-- If a machine has at most `b` faults, all have at most `b` for each that is Byzantine. -/
theorem HonestClean.faults_le {s : Sim rng topo} (h : HonestClean s) {b : Nat}
    (hle : ∀ j, (s.committers j).state.v ≤ b) :
    s.faults ≤ b * s.count fun c => c.byzantine := by
  apply sum_le_mul_countP
  intro j
  show _ ≤ if (s.committers j).byzantine = true then b else 0
  cases hbyz : (s.committers j).byzantine with
  | true => exact hle j
  | false => exact (h j hbyz).faults.le

/-- How many are on record for round `r` or an earlier one. -/
def Sim.isolatedBy (s : Sim rng topo) (r : Nat) : Nat :=
  (everyone topo.k).countP fun j => (s.isolationRound j).any fun i => decide (i ≤ r)

/-- The isolations of the first `t` rounds are on record, and the rounds have counted them. -/
structure Recorded (t : Nat) (s : Sim rng topo) : Prop where
  length : s.history.length = t
  jailed : ∀ j, (s.committers j).state.jailed = (s.isolationRound j).isSome
  within : ∀ j r, s.isolationRound j = some r → 1 ≤ r ∧ r ≤ t
  counted : ∀ r stats, s.history[r]? = some stats → stats.jailedByz = s.isolatedBy (r + 1)

/-- Who is free is not on record. -/
theorem Recorded.free {t : Nat} {s : Sim rng topo} (hrec : Recorded t s) {j : Fin topo.k}
    (hfree : (s.committers j).state.jailed = false) : s.isolationRound j = none := by
  have hsome := hrec.jailed j
  rw [hfree] at hsome
  exact Option.isNone_iff_eq_none.mp (Option.isSome_eq_false_iff.mp hsome.symm)

section Isolations

variable {t : Nat} {s m s' : Sim rng topo} {event : Fin topo.k → SimEvent}
  (h : Round F cfg (t + 1) s m event s')

include h

/-- The record after a round: an entry stays, a new one is of this round. -/
theorem Recorded.isolation (hrec : Recorded t s) (j : Fin topo.k) :
    s'.isolationRound j =
      if (s'.committers j).state.jailed = true ∧ (s.committers j).state.jailed = false
      then some (t + 1) else s.isolationRound j := by
  rw [h.isolation j]
  cases hnew : (s'.committers j).state.jailed with
  | false => simp
  | true =>
    cases hold : (s.committers j).state.jailed with
    | true => simp
    | false =>
      simp [hrec.free hold]

/-- A new entry is too late to count for an earlier round. -/
theorem Recorded.isolatedBy (hrec : Recorded t s) {r : Nat} (hr : r ≤ t) :
    s'.isolatedBy r = s.isolatedBy r := by
  unfold Sim.isolatedBy
  congr 1
  funext j
  rw [hrec.isolation h j]
  split_ifs with hnew
  · rw [hrec.free hnew.2]
    show decide (t + 1 ≤ r) = false
    rw [decide_eq_false_iff_not]
    omega
  · rfl

/-- **One round** keeps the record. -/
theorem Recorded.round (hclean : HonestClean s') (hrec : Recorded t s) : Recorded (t + 1) s' := by
  have hentry := hrec.isolation h
  have hjailed : ∀ j, (s'.committers j).state.jailed = (s'.isolationRound j).isSome := by
    intro j
    rw [hentry j]
    split_ifs with hnew
    · rw [hnew.1]
      rfl
    · rw [← hrec.jailed j]
      -- jailed is for good, and a new one would be the other case
      cases hold : (s.committers j).state.jailed with
      | true =>
        rw [h.state j]
        exact MFPoP.jailed_step _ hold
      | false =>
        rw [Bool.eq_false_iff]
        exact fun hj => hnew ⟨hj, hold⟩
  have hwithin : ∀ j r, s'.isolationRound j = some r → 1 ≤ r ∧ r ≤ t + 1 := by
    intro j r hr
    rw [hentry j] at hr
    split_ifs at hr with hnew
    · have := Option.some.inj hr
      omega
    · have := hrec.within j r hr
      omega
  refine ⟨by rw [h.length, hrec.length], hjailed, hwithin, ?_⟩
  intro r stats hstats
  rcases h.entry hstats with ⟨hlt, hold⟩ | ⟨rfl, rfl⟩
  · rw [hrec.length] at hlt
    rw [hrec.counted r stats hold, hrec.isolatedBy h (by omega)]
  · -- this round: everyone jailed is on record by now
    show (s'.count fun c => c.byzantine && c.state.jailed) = _
    unfold Sim.count Sim.isolatedBy
    congr 1
    funext j
    show ((s'.committers j).byzantine && (s'.committers j).state.jailed) = _
    rw [hrec.length, hjailed j]
    cases hentry' : s'.isolationRound j with
    | none => simp
    | some r =>
      have hbyz : (s'.committers j).byzantine = true := by
        by_contra hhonest
        have hfree := (hclean j (Bool.eq_false_iff.mpr hhonest)).free
        rw [hjailed j, hentry', Option.isSome_some] at hfree
        exact absurd hfree (by decide)
      simp [hbyz, (hwithin j r hentry').2]

end Isolations

theorem Fresh.recorded {s : Sim rng topo} (h : Fresh F cfg s) : Recorded 0 s where
  length := by rw [h.history]; rfl
  jailed := fun j => by
    rw [h.state j, h.isolationRound j]
    rfl
  within := fun j r hr => by
    rw [h.isolationRound j] at hr
    exact absurd hr (by simp)
  counted := fun r stats hstats => by
    rw [h.history] at hstats
    exact absurd hstats (by simp)

/-- **Every run** keeps the record. -/
theorem simulate_recorded (h : simulate F cfg topo rounds g = some s) : Recorded rounds s := by
  refine (simulate_invariant (P := fun t s => HonestClean s ∧ Recorded t s) ?_ ?_ h).2
  · intro t s m event s' ih hround
    have hclean := ih.1.round hround
    exact ⟨hclean, ih.2.round hround hclean⟩
  · exact fun s hfresh => ⟨hfresh.honestClean, hfresh.recorded⟩

/-- **The isolation record is complete and dated.**  Whoever is jailed is on it with the round
of the jailing, and each round counted exactly those on it by then. -/
theorem isolation_ledger (h : simulate F cfg topo rounds g = some s) :
    s.history.length = rounds
      ∧ (∀ j, (s.committers j).state.jailed = true
          ↔ ∃ r, 1 ≤ r ∧ r ≤ rounds ∧ s.isolationRound j = some r)
      ∧ ∀ r stats, s.history[r]? = some stats → stats.jailedByz = s.isolatedBy (r + 1) := by
  have hrec := simulate_recorded h
  refine ⟨hrec.length, ?_, hrec.counted⟩
  intro j
  rw [hrec.jailed j, Option.isSome_iff_exists]
  constructor
  · rintro ⟨r, hr⟩
    obtain ⟨hlow, hhigh⟩ := hrec.within j r hr
    exact ⟨r, hlow, hhigh, hr⟩
  · rintro ⟨r, -, -, hr⟩
    exact ⟨r, hr⟩

theorem calm_isolation_ledger :
    ∃ s, simulate rationals (calmWith calm.adversary) grid 12 seed = some s
      ∧ s.history.length = 12 := by
  obtain ⟨s, hs⟩ := calmWith_runs calm.adversary 12
  exact ⟨s, hs, (isolation_ledger hs).1⟩

/-! ## §4. Strategies that look first. -/

/-- Strategies that attack only where they survive it, or never. -/
def Evasive (adv : Adversary) : Prop :=
  adv.kind = .adaptive ∨ adv.kind = .dormant ∨ adv.kind = .omission

theorem survivable_invalid {state : MFPoP} (h : survivable state = .invalid) :
    MFPoP.R_JAIL < state.rBase * state.phi * MFPoP.Q_S := by
  unfold survivable at h
  split at h
  · assumption
  · exact absurd h (by decide)

theorem Evasive.act {adv : Adversary} (h : Evasive adv) {state : MFPoP} {t : Nat}
    (hact : adv.act state t = .invalid) :
    MFPoP.R_JAIL < state.rBase * state.phi * MFPoP.Q_S := by
  unfold Adversary.act at hact
  rcases h with hkind | hkind | hkind
  · rw [hkind] at hact
    exact survivable_invalid hact
  · rw [hkind] at hact
    dsimp only at hact
    split at hact
    · exact absurd hact (by decide)
    · exact survivable_invalid hact
  · rw [hkind] at hact
    exact absurd hact (show ¬ SimEvent.missing = .invalid by decide)

/-- No evader is ever jailed. -/
theorem simulate_evasive (hev : Evasive cfg.adversary)
    (h : simulate F cfg topo rounds g = some s) (j : Fin topo.k) :
    (s.committers j).state.jailed = false := by
  refine simulate_invariant (P := fun _ s => ∀ j, (s.committers j).state.jailed = false)
    ?_ ?_ h j
  · intro t s m event s' ih hround j
    rw [hround.state j, Bool.eq_false_iff]
    intro hjailed
    -- a jailing fault is one the strategy would not have chosen
    obtain ⟨hinvalid, hraw⟩ := (MFPoP.step_jailed_iff (event j) (ih j)).mp hjailed
    have hsurvive := hev.act (hround.invalid hinvalid).2.2
    rw [← mul_assoc] at hraw
    exact absurd hraw (not_le.mpr hsurvive)
  · intro s hfresh j
    rw [hfresh.state j]
    rfl

/-- **Strategies that look before they attack are never isolated**, at six faults a head. -/
theorem evaders_stay (hev : Evasive cfg.adversary) (h : simulate F cfg topo rounds g = some s) :
    (∀ j, (s.committers j).state.jailed = false ∧ s.isolationRound j = none
        ∧ (9 / 10) ^ 6 ≤ (s.committers j).state.stake)
      ∧ ((s.history.map RoundStats.acceptedFaults).sum : Int)
        ≤ 6 * roundHalfEven (cfg.byzFrac * topo.k) := by
  have hfree := simulate_evasive hev h
  have hfaults : ∀ j, (s.committers j).state.v ≤ 6 := fun j => (simulate_sound h j).free (hfree j)
  constructor
  · intro j
    refine ⟨hfree j, (simulate_recorded h).free (hfree j), ?_⟩
    rw [(simulate_sound h j).stake]
    exact pow_le_pow_of_le_one (by norm_num) (by norm_num) (hfaults j)
  · have hle : s.faults ≤ 6 * s.count fun c => c.byzantine :=
      (simulate_clean h).faults_le hfaults
    rw [← simulate_byzantine h, (simulate_reported h).1]
    exact_mod_cast hle

theorem adaptive_evaders_stay :
    ∃ s, simulate rationals (calmWith ⟨.adaptive, 6, 100, by decide⟩) grid 200 seed = some s
      ∧ ∀ j, s.isolationRound j = none := by
  obtain ⟨s, hs⟩ := calmWith_runs ⟨.adaptive, 6, 100, by decide⟩ 200
  exact ⟨s, hs, fun j => ((evaders_stay (Or.inl rfl) hs).1 j).2.1⟩

/-! ## §5. The naive strategy on a network that delivers. -/

/-- Nothing stands between a committer and the adjudication. -/
structure Undisturbed (cfg : SimConfig) (topo : Topology) : Prop extends Prompt cfg topo where
  outage : cfg.partitionFrac ≤ 0
  churn : cfg.churnRate ≤ 0
  capture : cfg.modelCapture = false

theorem Undisturbed.open (hu : Undisturbed cfg topo) (m : Sim rng topo) (j : Fin topo.k) :
    (elected cfg m).censored j = false := by
  unfold Sim.censored
  split
  · rename_i c _
    rw [Bool.eq_false_iff]
    intro hcensoring
    have hcaught := (elected_censoring m c).1 hcensoring
    rw [captured, hu.capture, Bool.false_and] at hcaught
    exact absurd hcaught (by decide)
  · rfl

/-- Everyone is called on what it meant. -/
theorem Round.undisturbed {t : Nat} {s m s' : Sim rng topo} {event : Fin topo.k → SimEvent}
    (h : Round F cfg t s m event s') (hu : Undisturbed cfg topo)
    (honline : ∀ j, (s.committers j).online = true) (j : Fin topo.k) :
    event j = if (s.committers j).byzantine
      then cfg.adversary.act (s.committers j).state (s.history.length + 1) else .valid := by
  have hm : (m.committers j).online = true := by
    rw [h.online hu.outage hu.churn j]
    exact honline j
  rw [h.prompt hu.toPrompt hm (hu.open m j), intent, h.rearranged.byzantine j,
    h.rearranged.state j, elected_history, h.rearranged.history]

/-- A machine that has faulted `t` times in a row, from the start. -/
structure Naive (t : Nat) (state : MFPoP) : Prop where
  phi : state.PhiInv
  base : state.rBase = 1 / 2
  faults : state.v = min t 6
  jailed : state.jailed = decide (6 ≤ t)

/-- One half over `2^v` is above the threshold for five faults and below it for six. -/
theorem half_le_iff (v : Nat) : (1 / 2 : ℚ) ≤ 15 / 1000 * 2 ^ v ↔ 6 ≤ v := by
  constructor
  · intro hle
    by_contra hv
    have hpow : (2 : ℚ) ^ v ≤ 2 ^ 5 := pow_le_pow_right₀ (by norm_num) (by omega)
    linarith
  · intro hv
    have hpow : (2 : ℚ) ^ 6 ≤ 2 ^ v := pow_le_pow_right₀ (by norm_num) hv
    linarith

/-- One more attack. -/
theorem Naive.step {t : Nat} {state : MFPoP} (h : Naive t state) :
    Naive (t + 1) (MFPoP.step .invalid state).1 := by
  rcases Nat.lt_or_ge t 6 with hlt | hge
  · have hfree : state.jailed = false := by
      rw [h.jailed, decide_eq_false_iff_not]
      omega
    have hv : (MFPoP.step .invalid state).1.v = t + 1 := by
      rw [MFPoP.step_v _ hfree, if_pos rfl, h.faults]
      omega
    refine ⟨MFPoP.phiInv_step _ h.phi, ?_, ?_, ?_⟩
    · rw [MFPoP.step_rBase _ hfree]
      exact h.base
    · omega
    · have hphi := (MFPoP.phiInv_step .invalid h.phi).mul_phi_le_iff (1 / 2) MFPoP.R_JAIL
      rw [MFPoP.step_phi _ hfree, if_pos rfl, hv] at hphi
      have hjailed := MFPoP.step_jailed_iff .invalid hfree
      rw [h.base, hphi, MFPoP.R_JAIL, half_le_iff] at hjailed
      rw [Bool.eq_iff_iff, hjailed, decide_eq_true_iff]
      exact and_iff_right rfl
  · have hj : state.jailed = true := by
      rw [h.jailed]
      exact decide_eq_true hge
    rw [MFPoP.step_of_jailed _ hj]
    refine ⟨h.phi, h.base, ?_, ?_⟩
    · rw [h.faults]
      omega
    · rw [hj, eq_comm]
      exact decide_eq_true (by omega)

theorem Naive.eligible {t : Nat} {state : MFPoP} (h : Naive t state) :
    state.eligible = decide (t < 6) := by
  unfold MFPoP.eligible MFPoP.rawReputation
  rw [h.jailed, h.base, Bool.eq_iff_iff, Bool.and_eq_true, Bool.not_eq_true',
    decide_eq_false_iff_not, decide_eq_true_iff, decide_eq_true_iff]
  constructor
  · rintro ⟨hfree, -⟩
    omega
  · intro hlt
    refine ⟨by omega, not_le.mp ?_⟩
    rw [h.phi.mul_phi_le_iff, MFPoP.R_ELIG, half_le_iff, h.faults]
    omega

/-- A machine all of whose proofs were valid. -/
structure Thriving (state : MFPoP) : Prop extends state.Clean where
  phi : state.PhiInv
  base : 1 / 2 ≤ state.rBase
  history : 0 ≤ state.h

theorem Thriving.step {state : MFPoP} (h : Thriving state) :
    Thriving (MFPoP.step .valid state).1 where
  toClean := h.toClean.step (by decide)
  phi := MFPoP.phiInv_step _ h.phi
  base := by
    have hbase := h.base
    have hhistory := h.history
    rw [MFPoP.step_rBase _ h.free]
    refine le_min (by norm_num [MFPoP.R_MAX]) (le_max_of_le_right ?_)
    unfold MFPoP.quality MFPoP.nextHistory MFPoP.A_H MFPoP.ALPHA_C MFPoP.ALPHA_H MFPoP.ALPHA_L
      MFPoP.GAMMA
    dsimp only
    linarith
  history := by
    have hhistory := h.history
    have hnext : (MFPoP.step .valid state).1.h = MFPoP.nextHistory .valid state := by
      unfold MFPoP.step
      rw [if_neg (by rw [h.free]; decide)]
      simp
    rw [hnext]
    unfold MFPoP.nextHistory MFPoP.GAMMA
    dsimp only
    linarith

theorem Thriving.eligible {state : MFPoP} (h : Thriving state) : state.eligible = true := by
  have hphi := h.phi
  have hbase := h.base
  rw [MFPoP.PhiInv, h.faults, pow_zero, mul_one] at hphi
  unfold MFPoP.eligible MFPoP.rawReputation
  rw [h.free, hphi, mul_one, Bool.not_false, Bool.true_and, decide_eq_true_iff, MFPoP.R_ELIG]
  linarith

/-- The state of a run after `t` undisturbed rounds against naive attackers. -/
structure Attacked (cfg : SimConfig) (t : Nat) (s : Sim rng topo) : Prop where
  recorded : Recorded t s
  online : ∀ j, (s.committers j).online = true
  naive : ∀ j, (s.committers j).byzantine = true → Naive t (s.committers j).state
  honest : ∀ j, (s.committers j).byzantine = false → Thriving (s.committers j).state
  isolated : ∀ j, (s.committers j).byzantine = true →
    s.isolationRound j = if 6 ≤ t then some 6 else none
  accuracy : ∀ r stats, s.history[r]? = some stats →
    stats.ineligibleHonest = 0
      ∧ stats.auditAccuracy
        = if r + 1 < 6 then 1 - ((s.count fun c => c.byzantine : Nat) : ℚ) / topo.k else 1

/-- The naive ones count until they are jailed. -/
theorem countActive {t : Nat} {s : Sim rng topo}
    (hnaive : ∀ j, (s.committers j).byzantine = true → Naive t (s.committers j).state) :
    s.count activeByzantine = if t < 6 then s.count fun c => c.byzantine else 0 := by
  have hactive : ∀ j, activeByzantine (s.committers j)
      = ((s.committers j).byzantine && decide (t < 6)) := by
    intro j
    unfold activeByzantine
    cases hbyz : (s.committers j).byzantine with
    | false => rfl
    | true =>
      rw [(hnaive j hbyz).eligible, (hnaive j hbyz).jailed]
      by_cases ht : t < 6
      · simp [ht]
      · simp [ht]
  unfold Sim.count
  simp only [hactive]
  split_ifs with ht
  · simp [ht]
  · simp [ht]

/-- **One round** of attack. -/
theorem Attacked.round {t : Nat} {s m s' : Sim rng topo} {event : Fin topo.k → SimEvent}
    (ih : Attacked cfg t s) (hu : Undisturbed cfg topo) (hkind : cfg.adversary.kind = .naive)
    (h : Round F cfg (t + 1) s m event s') : Attacked cfg (t + 1) s' := by
  have hevent := h.undisturbed hu ih.online
  have honline : ∀ j, (s'.committers j).online = true := by
    intro j
    rw [h.committers j]
    show (m.committers j).online = true
    rw [h.online hu.outage hu.churn j]
    exact ih.online j
  have hnaive : ∀ j, (s'.committers j).byzantine = true → Naive (t + 1) (s'.committers j).state := by
    intro j hbyz
    rw [h.byzantine j] at hbyz
    rw [h.state j, hevent j, if_pos hbyz, Adversary.act, hkind]
    exact (ih.naive j hbyz).step
  have hhonest : ∀ j, (s'.committers j).byzantine = false → Thriving (s'.committers j).state := by
    intro j hbyz
    rw [h.byzantine j] at hbyz
    rw [h.state j, hevent j, if_neg (by rw [hbyz]; decide)]
    exact (ih.honest j hbyz).step
  have hclean : HonestClean s' := fun j hbyz => (hhonest j hbyz).toClean
  refine ⟨ih.recorded.round h hclean, honline, hnaive, hhonest, ?_, ?_⟩
  · intro j hbyz
    have hnew := (hnaive j hbyz).jailed
    rw [h.byzantine j] at hbyz
    rw [ih.recorded.isolation h j, hnew, (ih.naive j hbyz).jailed, ih.isolated j hbyz]
    simp only [decide_eq_true_iff, decide_eq_false_iff_not]
    split_ifs <;> first | rfl | omega | (congr 1; omega)
  · intro r stats hstats
    rw [h.countByzantine]
    rcases h.entry hstats with ⟨hlt, hold⟩ | ⟨rfl, rfl⟩
    · exact ih.accuracy r stats hold
    · constructor
      · show (s'.count fun c => !c.byzantine && !c.state.eligible) = 0
        rw [Sim.count, List.countP_eq_zero]
        intro j _ hbad
        rw [Bool.and_eq_true, Bool.not_eq_true', Bool.not_eq_true'] at hbad
        rw [(hhonest j hbad.1).eligible] at hbad
        exact absurd hbad.2 (by decide)
      · show 1 - ((s'.count activeByzantine : Nat) : ℚ) / topo.k = _
        have hcount : s'.count activeByzantine
            = if s.history.length + 1 < 6 then s.count fun c => c.byzantine else 0 := by
          rw [ih.recorded.length, ← h.countByzantine]
          exact countActive hnaive
        rw [hcount]
        split_ifs
        · rfl
        · norm_num

end HZKA.Simulator
