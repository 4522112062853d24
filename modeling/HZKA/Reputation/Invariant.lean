/-
  HZKA.Reputation.Invariant
  ────────────
  **THE MF-PoP STATE INVARIANT AND THE FAULT CEILING**, over every run of the
  registry.

  `RecordInv` is the invariant of one record: scores at most one, the safety
  multiplier exactly `10¹⁸ / 2^V`, at most six faults unjailed.  The safety
  decay loses nothing to rounding while `V ≤ 7` because `2⁷` divides `10¹⁸`,
  and at the seventh fault the product `R_base · φ` is below the floor, so the
  jail test cannot fail.

    • `recordInv_nextState`  — one event keeps it;
    • `registryInv_run`      — every transaction keeps it, for live records and
                               for appeal snapshots alike;
    • `standing_or_jailed`   — without an upheld appeal every fault is counted
                               or the committer is jailed.
-/
import HZKA.Reputation.Transition
import Mathlib.Tactic.IntervalCases

namespace HZKA.ReputationRegistry

open Function
open HZKA.Lib HZKA.EVM

/-! ## §1. The invariant of one record. -/

/-- The bounds of a record. -/
structure RecordInv (s : StateSnapshot) : Prop where
  base_le : s.baseReputation ≤ PRECISION
  history_le : s.historyScore ≤ PRECISION
  mult_eq : s.safetyMult * 2 ^ s.cumulativeV = PRECISION
  faults_le : s.cumulativeV ≤ 7
  jailed_faults : s.isJailed = true → 1 ≤ s.cumulativeV
  free_faults : s.isJailed = false → s.cumulativeV ≤ 6

theorem recordInv_genesis : RecordInv genesisState := by
  constructor <;> simp [genesisState, R_MAX, PRECISION]

theorem recordInv_registration (value round : Nat) (endorsers : Address × Address) :
    RecordInv (registrationState value round endorsers) := by
  constructor <;> simp [registrationState, R_INITIAL, PRECISION]

/-- The multiplier is the fault count's power of two. -/
theorem RecordInv.mult_eq_div {s : StateSnapshot} (h : RecordInv s) :
    s.safetyMult = PRECISION / 2 ^ s.cumulativeV := by
  rw [← h.mult_eq, Nat.mul_div_cancel _ (Nat.two_pow_pos _)]

theorem RecordInv.mult_le {s : StateSnapshot} (h : RecordInv s) :
    s.safetyMult ≤ PRECISION := by
  rw [h.mult_eq_div]
  exact Nat.div_le_self _ _

/-- `R_MIN ≤ R_i ≤ max(R_MIN, 10¹⁸ / 2^V)`. -/
theorem RecordInv.effective_bounds {s : StateSnapshot} (h : RecordInv s) :
    R_MIN ≤ effective s ∧ effective s ≤ max R_MIN (PRECISION / 2 ^ s.cumulativeV) := by
  rw [← h.mult_eq_div]
  unfold effective
  split
  next => exact ⟨le_refl _, le_max_left _ _⟩
  next =>
    refine ⟨le_max_left _ _, max_le_max (le_refl _) ?_⟩
    have hle : s.baseReputation * s.safetyMult ≤ s.safetyMult * PRECISION := by
      rw [Nat.mul_comm]
      exact Nat.mul_le_mul_left _ h.base_le
    exact Nat.div_le_of_le_mul (by rw [Nat.mul_comm PRECISION]; exact hle)

/-! ## §2. One event keeps it. -/

/-- History stays within one. -/
theorem nextHistory_le {e : EventType} {h : Nat} (hh : h ≤ PRECISION) :
    nextHistory e h ≤ PRECISION := by
  cases e <;> simp only [nextHistory, PRECISION, GAMMA] at * <;> omega

/-- The base stays within one. -/
theorem nextBase_le {e : EventType} {h base : Nat} (hb : base ≤ PRECISION) :
    nextBase e h base ≤ PRECISION := by
  cases e with
  | VALID =>
    rw [nextBase]
    exact le_trans (Nat.min_le_left _ _) (by simp only [R_MAX, PRECISION, le_refl])
  | INVALID => exact hb
  | MISSING =>
    simp only [nextBase, PRECISION, Q_L] at *
    omega

/-- Halving the multiplier is exact up to the seventh fault. -/
theorem mult_halves {mult v : Nat} (hv : v ≤ 6) (h : mult * 2 ^ v = PRECISION) :
    Q_S * mult / PRECISION * 2 ^ (v + 1) = PRECISION := by
  simp only [PRECISION, Q_S] at *
  interval_cases v <;> omega

/-- **The seventh fault jails**: at `φ = 10¹⁸ / 2⁷` no base reputation reaches
the threshold. -/
theorem jails_of_seventh {s : StateSnapshot} (h : RecordInv s) (hv : s.cumulativeV = 6) :
    jails .INVALID s = true := by
  have hbase := h.base_le
  have hmult : s.safetyMult = 15625000000000000 := by
    rw [h.mult_eq_div, hv, PRECISION]
    norm_num
  have hhalf : Q_S * s.safetyMult / PRECISION = 7812500000000000 := by
    rw [hmult, Q_S, PRECISION]
  unfold jails
  refine decide_eq_true ⟨rfl, ?_⟩
  -- the jail test reads base · φ with φ already halved
  have heff : effective (faultState .INVALID (movedState .INVALID s)) ≤ R_MIN := by
    unfold effective
    split
    next => exact le_refl _
    next =>
      refine max_le (le_refl _) ?_
      show s.baseReputation * (Q_S * s.safetyMult / PRECISION) / PRECISION ≤ R_MIN
      rw [hhalf]
      simp only [PRECISION, R_MIN] at *
      omega
  exact le_trans heff (by simp [R_MIN, R_JAIL])

/-- A fault keeps the record sound. -/
theorem recordInv_fault {s : StateSnapshot} (h : RecordInv s) (hfree : s.isJailed = false) :
    RecordInv (nextState .INVALID s) := by
  have hv := h.free_faults hfree
  constructor
  · rw [nextState_baseReputation]
    exact nextBase_le h.base_le
  · rw [nextState_historyScore]
    exact nextHistory_le h.history_le
  · rw [nextState_fault_safetyMult, nextState_fault_cumulativeV]
    exact mult_halves hv h.mult_eq
  · rw [nextState_fault_cumulativeV]
    omega
  · intro _
    rw [nextState_fault_cumulativeV]
    omega
  · -- a record that stays free cannot have been at its sixth fault
    intro hno
    rw [nextState_fault_cumulativeV]
    by_contra hge
    have hsix : s.cumulativeV = 6 := by omega
    rw [nextState_isJailed, jails_of_seventh h hsix, Bool.or_true] at hno
    exact absurd hno (by decide)

/-- **One event keeps the record invariant.** -/
theorem recordInv_nextState (e : EventType) {s : StateSnapshot} (h : RecordInv s)
    (hfree : s.isJailed = false) : RecordInv (nextState e s) := by
  by_cases he : e = .INVALID
  · subst he
    exact recordInv_fault h hfree
  · rw [nextState_of_ne he]
    exact ⟨nextBase_le h.base_le, nextHistory_le h.history_le, h.mult_eq, h.faults_le,
      h.jailed_faults, h.free_faults⟩

/-! ## §3. Every transaction keeps it. -/

/-- Registered records and taken snapshots satisfy the invariant; an address that
is not registered was never written. -/
structure RegistryInv (reg : ReputationRegistry) : Prop where
  records : ∀ a, (reg.states a).isRegistered = true → RecordInv (reg.states a)
  blank : ∀ a, (reg.states a).isRegistered = false → reg.states a = StateSnapshot.zero
  snapshots : ∀ p, (reg.appealSnapshots p).isRegistered = true →
    RecordInv (reg.appealSnapshots p) ∧ (reg.appealSnapshots p).isJailed = false

/-- Writing one good registered record keeps the two record clauses. -/
theorem records_update {reg : ReputationRegistry} (hinv : RegistryInv reg) {a : Address}
    {s : StateSnapshot} (hs : RecordInv s) (hr : s.isRegistered = true) :
    (∀ b, (update reg.states a s b).isRegistered = true →
        RecordInv (update reg.states a s b))
      ∧ (∀ b, (update reg.states a s b).isRegistered = false →
        update reg.states a s b = StateSnapshot.zero) := by
  refine ⟨?_, ?_⟩
  · intro b hb
    by_cases hab : b = a
    · subst hab
      rw [update_self]
      exact hs
    · rw [update_of_ne hab] at hb ⊢
      exact hinv.records b hb
  · intro b hb
    by_cases hab : b = a
    · subst hab
      rw [update_self, hr] at hb
      exact absurd hb (by decide)
    · rw [update_of_ne hab] at hb ⊢
      exact hinv.blank b hb

theorem snapshots_after {reg : ReputationRegistry} (hinv : RegistryInv reg) (e : EventType)
    {ct : Address} (p : Bytes32) (hreg : (reg.states ct).isRegistered = true)
    (hfree : (reg.states ct).isJailed = false) (q : Bytes32)
    (hq : (snapshotsAfter e ct p reg q).isRegistered = true) :
    RecordInv (snapshotsAfter e ct p reg q) ∧ (snapshotsAfter e ct p reg q).isJailed = false := by
  unfold snapshotsAfter at hq ⊢
  split at hq
  next he =>
    rw [if_pos he]
    by_cases hqp : q = p
    · subst hqp
      rw [update_self]
      exact ⟨hinv.records ct hreg, hfree⟩
    · rw [update_of_ne hqp] at hq ⊢
      exact hinv.snapshots q hq
  next he =>
    rw [if_neg he]
    exact hinv.snapshots q hq

theorem deploy_states_self (deployer : Address) :
    (deploy deployer).states deployer = genesisState := by
  simp only [deploy, update_self]

theorem deploy_states_of_ne {deployer a : Address} (h : a ≠ deployer) :
    (deploy deployer).states a = StateSnapshot.zero := by
  simp only [deploy, update_of_ne h]

/-- The fresh registry is sound. -/
theorem registryInv_deploy (deployer : Address) : RegistryInv (deploy deployer) := by
  refine ⟨?_, ?_, ?_⟩
  · intro a ha
    by_cases had : a = deployer
    · rw [had, deploy_states_self]
      exact recordInv_genesis
    · rw [deploy_states_of_ne had] at ha
      exact absurd ha (by decide)
  · intro a ha
    by_cases had : a = deployer
    · rw [had, deploy_states_self] at ha
      exact absurd ha (by decide)
    · exact deploy_states_of_ne had
  · -- no snapshot has been taken
    intro p hp
    exact absurd (show StateSnapshot.zero.isRegistered = true from hp) (by decide)

/-- **One transaction keeps the registry invariant.** -/
theorem registryInv_step {tx : Tx} {reg reg' : ReputationRegistry} (hinv : RegistryInv reg)
    (h : exec tx reg = .ok reg') : RegistryInv reg' := by
  cases exec_effect h with
  | register hnew =>
    obtain ⟨h₁, h₂⟩ := records_update hinv (recordInv_registration _ _ _) rfl
    exact ⟨h₁, h₂, hinv.snapshots⟩
  | @event _ ct e p _ hreg hfree =>
    have hnext := recordInv_nextState e (hinv.records ct hreg) hfree
    obtain ⟨h₁, h₂⟩ := records_update hinv hnext
      (by rw [nextState_isRegistered]; exact hreg)
    exact ⟨h₁, h₂, snapshots_after hinv e p hreg hfree⟩
  | restore hcan =>
    -- the restored record is a snapshot, good since it was taken
    obtain ⟨h₁, h₂⟩ := records_update hinv (hinv.snapshots _ hcan.snapshot).1 hcan.snapshot
    exact ⟨h₁, h₂, hinv.snapshots⟩
  | frame hstates _ hsnaps =>
    refine ⟨?_, ?_, ?_⟩
    · rw [hstates]; exact hinv.records
    · rw [hstates]; exact hinv.blank
    · rw [hsnaps]; exact hinv.snapshots

/-- **Every reachable state satisfies it.** -/
theorem registryInv_run (deployer : Address) (ts : List Tx) :
    RegistryInv (run exec (deploy deployer) ts) :=
  run_invariant (fun _ _ _ hinv h => registryInv_step hinv h) ts (registryInv_deploy deployer)

/-- Registration is for good. -/
theorem registered_step {tx : Tx} {reg reg' : ReputationRegistry} {c : Address}
    (hc : (reg.states c).isRegistered = true) (h : exec tx reg = .ok reg') :
    (reg'.states c).isRegistered = true := by
  -- a written record is a registered one, whoever's it is
  have hupdate : ∀ (a : Address) (s : StateSnapshot), s.isRegistered = true →
      (update reg.states a s c).isRegistered = true := by
    intro a s hs
    by_cases hca : c = a
    · rw [hca, update_self]
      exact hs
    · rw [update_of_ne hca]
      exact hc
  cases exec_effect h with
  | register hnew => exact hupdate _ _ rfl
  | event hreg _ =>
    apply hupdate
    rw [nextState_isRegistered]
    exact hreg
  | restore hcan => exact hupdate _ _ hcan.snapshot
  | frame hstates =>
    rw [hstates]
    exact hc

/-- Registered stays registered. -/
theorem registered_run {reg : ReputationRegistry} {c : Address}
    (hc : (reg.states c).isRegistered = true) (ts : List Tx) :
    ((run exec reg ts).states c).isRegistered = true :=
  run_invariant (P := fun r => (r.states c).isRegistered = true)
    (fun _ _ _ hP h => registered_step hP h) ts hc

/-- Reputation and multiplier of any address fit one word when multiplied. -/
theorem RegistryInv.product_lt {reg : ReputationRegistry} (hinv : RegistryInv reg) (a : Address) :
    (reg.states a).baseReputation * (reg.states a).safetyMult < 2 ^ 256 := by
  cases hreg : (reg.states a).isRegistered with
  | true =>
    have hrec := hinv.records a hreg
    refine lt_of_le_of_lt (Nat.mul_le_mul hrec.base_le hrec.mult_le) ?_
    norm_num [PRECISION]
  | false =>
    rw [hinv.blank a hreg]
    norm_num [StateSnapshot.zero]

theorem getEffectiveReputation_ok {reg : ReputationRegistry} (hinv : RegistryInv reg)
    (ct : Address) : getEffectiveReputation ct reg = .ok (effective (reg.states ct)) :=
  getEffectiveR_ok (hinv.product_lt ct)

/-- The weight of a record. -/
def weight (s : StateSnapshot) : Nat := if s.isJailed then 0 else min W_MAX (effective s)

theorem getElectionWeight_eq {reg : ReputationRegistry} (hinv : RegistryInv reg) (ct : Address) :
    getElectionWeight ct reg = .ok (weight (reg.states ct)) := by
  unfold getElectionWeight weight
  dsimp only
  split
  next => rfl
  next =>
    rw [getEffectiveR_ok (hinv.product_lt ct), ok_bind]
    show Except.ok _ = _
    congr 1
    split <;> omega

/-- The election weight of any address is defined and capped. -/
theorem getElectionWeight_ok {reg : ReputationRegistry} (hinv : RegistryInv reg) (ct : Address) :
    ∃ w, w ≤ W_MAX ∧ getElectionWeight ct reg = .ok w := by
  refine ⟨weight (reg.states ct), ?_, getElectionWeight_eq hinv ct⟩
  unfold weight
  split
  · exact Nat.zero_le _
  · exact Nat.min_le_left _ _

/-- Without faults the election weight is the base reputation. -/
theorem electionWeight_of_faultless {reg : ReputationRegistry} (hinv : RegistryInv reg) (ct : Address)
    (hfree : (reg.states ct).isJailed = false) (hmult : (reg.states ct).safetyMult = PRECISION)
    (hlow : R_MIN ≤ (reg.states ct).baseReputation)
    (hcap : (reg.states ct).baseReputation ≤ W_MAX) :
    reg.getElectionWeight ct = .ok (reg.states ct).baseReputation := by
  have heff : effective (reg.states ct) = (reg.states ct).baseReputation := by
    unfold effective
    rw [hfree, hmult, Nat.mul_div_cancel _ (by norm_num [PRECISION])]
    exact max_eq_right hlow
  rw [getElectionWeight_eq hinv]
  unfold weight
  rw [hfree, heff, Nat.min_eq_right hcap]
  rfl

/-! ## §4. Stakes, and why no update panics. -/

/-- No stake above `2¹²⁸`, in records or snapshots. -/
structure StakeInv (reg : ReputationRegistry) : Prop where
  records : ∀ a, (reg.states a).stakedAmount < 2 ^ 128
  snapshots : ∀ p, (reg.appealSnapshots p).stakedAmount < 2 ^ 128

/-- The registrations of a run carry less than `2¹²⁸` wei each. -/
def StakesBelow (ts : List Tx) : Prop :=
  ∀ tx ∈ ts, ∀ value nonce endorsers,
    tx.call = .registerCommitter value nonce endorsers → value < 2 ^ 128

theorem stakes_update {f : Address → StateSnapshot} (hf : ∀ a, (f a).stakedAmount < 2 ^ 128)
    {a : Address} {s : StateSnapshot} (hs : s.stakedAmount < 2 ^ 128) (b : Address) :
    (update f a s b).stakedAmount < 2 ^ 128 := by
  by_cases hab : b = a
  · rw [hab, update_self]
    exact hs
  · rw [update_of_ne hab]
    exact hf b

/-- **One call** keeps stakes in 128 bits. -/
theorem stakeInv_step {tx : Tx} {reg reg' : ReputationRegistry}
    (hval : ∀ value nonce endorsers,
      tx.call = .registerCommitter value nonce endorsers → value < 2 ^ 128)
    (hinv : StakeInv reg) (h : exec tx reg = .ok reg') : StakeInv reg' := by
  cases exec_effect h with
  | register hnew =>
    exact ⟨stakes_update hinv.records (hval _ _ _ rfl), hinv.snapshots⟩
  | @event _ ct e p _ hreg hfree =>
    refine ⟨stakes_update hinv.records ?_, ?_⟩
    · rw [nextState_stakedAmount]
      exact lt_of_le_of_lt (Nat.sub_le _ _) (hinv.records ct)
    · intro q
      show (snapshotsAfter e ct p reg q).stakedAmount < 2 ^ 128
      unfold snapshotsAfter
      split
      next =>
        by_cases hqp : q = p
        · rw [hqp, update_self]
          exact hinv.records ct
        · rw [update_of_ne hqp]
          exact hinv.snapshots q
      next => exact hinv.snapshots q
  | restore hcan =>
    exact ⟨stakes_update hinv.records (hinv.snapshots _), hinv.snapshots⟩
  | frame hstates _ hsnaps =>
    refine ⟨?_, ?_⟩
    · rw [hstates]; exact hinv.records
    · rw [hsnaps]; exact hinv.snapshots

theorem stakeInv_deploy (deployer : Address) : StakeInv (deploy deployer) := by
  refine ⟨?_, fun _ => ?_⟩
  · refine stakes_update (fun _ => ?_) ?_
    · show (0 : Nat) < 2 ^ 128
      norm_num
    · show (0 : Nat) < 2 ^ 128
      norm_num
  · show (0 : Nat) < 2 ^ 128
    norm_num

/-- **Every run** keeps stakes in 128 bits. -/
theorem stakeInv_run (deployer : Address) {ts : List Tx} (hts : StakesBelow ts) :
    StakeInv (run exec (deploy deployer) ts) := by
  refine run_invariant_of (C := fun _ tx => ∀ value nonce endorsers,
    tx.call = .registerCommitter value nonce endorsers → value < 2 ^ 128)
    (fun _ _ _ hval hinv h => stakeInv_step hval hinv h) ts _ (stakeInv_deploy deployer) ?_
  exact stepsMeet_of_forall (fun tx htx _ => hts tx htx) _

/-- The history does not overflow. -/
theorem historyUpdate_ok {e : EventType} {h : Nat} (hh : h ≤ PRECISION) :
    historyUpdate e h = .ok (nextHistory e h) := by
  have hok : ∃ r, historyUpdate e h = .ok r := by
    cases e with
    | VALID =>
      simp only [historyUpdate, bind_eq_ok, pure_eq_ok, mulU256_eq_ok, subU256_eq_ok,
        addU256_eq_ok]
      simp only [PRECISION, GAMMA] at *
      exact ⟨_, _, ⟨by omega, rfl⟩, _, ⟨by omega, rfl⟩, _, ⟨by omega, rfl⟩, _,
        ⟨by omega, rfl⟩, rfl⟩
    | INVALID =>
      simp only [historyUpdate, bind_eq_ok, pure_eq_ok, mulU256_eq_ok]
      simp only [PRECISION, GAMMA] at *
      exact ⟨_, _, ⟨by omega, rfl⟩, rfl⟩
    | MISSING => exact ⟨h, rfl⟩
  obtain ⟨r, hr⟩ := hok
  rw [hr, historyUpdate_eq_ok hr]

/-- The base does not overflow. -/
theorem baseUpdate_ok {e : EventType} {h base : Nat} (hh : h ≤ PRECISION)
    (hb : base ≤ PRECISION) : baseUpdate e h base = .ok (nextBase e h base) := by
  have hok : ∃ r, baseUpdate e h base = .ok r := by
    cases e with
    | VALID =>
      simp only [baseUpdate, bind_eq_ok, pure_eq_ok, mulU256_eq_ok, subU256_eq_ok,
        addU256_eq_ok]
      simp only [PRECISION, A_H] at *
      exact ⟨_, _, ⟨by omega, rfl⟩, _, ⟨by omega, rfl⟩, _, ⟨by omega, rfl⟩, _,
        ⟨by omega, rfl⟩, _, ⟨by omega, rfl⟩, _, ⟨by omega, rfl⟩, rfl⟩
    | INVALID => exact ⟨base, rfl⟩
    | MISSING =>
      simp only [baseUpdate, bind_eq_ok, pure_eq_ok, mulU256_eq_ok]
      simp only [PRECISION, Q_L] at *
      exact ⟨_, _, ⟨by omega, rfl⟩, rfl⟩
  obtain ⟨r, hr⟩ := hok
  rw [hr, baseUpdate_eq_ok hr]

/-- A fault does not overflow. -/
theorem safetyFault_ok {e : EventType} {s : StateSnapshot} (hm : s.safetyMult ≤ PRECISION)
    (hv : s.cumulativeV ≤ 7) (hs : e = .INVALID → s.stakedAmount < 2 ^ 128) :
    safetyFault e s = .ok (faultState e s, slashed e s) := by
  have hok : ∃ r, safetyFault e s = .ok r := by
    cases e with
    | INVALID =>
      have hs := hs rfl
      simp only [safetyFault, bind_eq_ok, pure_eq_ok, mulU256_eq_ok, addU32_eq_ok,
        subU256_eq_ok]
      simp only [PRECISION, Q_S, SIGMA] at *
      exact ⟨_, _, ⟨by omega, rfl⟩, _, ⟨by omega, rfl⟩, _, ⟨by omega, rfl⟩, _,
        ⟨by omega, rfl⟩, rfl⟩
    | VALID => exact ⟨_, rfl⟩
    | MISSING => exact ⟨_, rfl⟩
  obtain ⟨r, hr⟩ := hok
  rw [hr, safetyFault_eq_ok hr]

theorem faultState_safetyMult_le (e : EventType) {s : StateSnapshot}
    (h : s.safetyMult ≤ PRECISION) : (faultState e s).safetyMult ≤ PRECISION := by
  cases e with
  | INVALID =>
    simp only [faultState, PRECISION, Q_S] at *
    omega
  | VALID => exact h
  | MISSING => exact h

/-- **The checked transition never panics on a good record** (only a fault reads the stake). -/
theorem applyEvent_ok (e : EventType) {s : StateSnapshot} (h : RecordInv s)
    (hs : e = .INVALID → s.stakedAmount < 2 ^ 128) :
    applyEvent e s = .ok (nextState e s, slashed e s) := by
  have hhist : nextHistory e s.historyScore ≤ PRECISION := nextHistory_le h.history_le
  have hfault : safetyFault e (movedState e s)
      = .ok (faultState e (movedState e s), slashed e (movedState e s)) := by
    refine safetyFault_ok ?_ ?_ ?_
    · rw [movedState_safetyMult]; exact h.mult_le
    · rw [movedState_cumulativeV]; exact h.faults_le
    · rw [movedState_stakedAmount]; exact hs
  -- the jail test multiplies two numbers of at most 10¹⁸
  have heff : getEffectiveR (faultState e (movedState e s))
      = .ok (effective (faultState e (movedState e s))) := by
    refine getEffectiveR_ok ?_
    have hb : (faultState e (movedState e s)).baseReputation ≤ PRECISION := by
      rw [faultState_baseReputation]
      exact nextBase_le h.base_le
    have hm : (faultState e (movedState e s)).safetyMult ≤ PRECISION :=
      faultState_safetyMult_le e (by rw [movedState_safetyMult]; exact h.mult_le)
    refine lt_of_le_of_lt (Nat.mul_le_mul hb hm) ?_
    norm_num [PRECISION]
  have hok : ∃ out, applyEvent e s = .ok out := by
    simp only [applyEvent, bind_eq_ok]
    by_cases hj : e = .INVALID ∧ effective (faultState e (movedState e s)) ≤ R_JAIL
    · exact ⟨_, _, historyUpdate_ok h.history_le, _, baseUpdate_ok hhist h.base_le, _, hfault,
        _, heff, if_pos hj⟩
    · exact ⟨_, _, historyUpdate_ok h.history_le, _, baseUpdate_ok hhist h.base_le, _, hfault,
        _, heff, if_neg hj⟩
  obtain ⟨out, hout⟩ := hok
  rw [hout, applyEvent_eq_ok hout]

theorem slashed_le (e : EventType) (s : StateSnapshot) : slashed e s ≤ s.stakedAmount := by
  cases e with
  | INVALID =>
    simp only [slashed, SIGMA, PRECISION]
    omega
  | VALID => exact Nat.zero_le _
  | MISSING => exact Nat.zero_le _

/-- An authorized update of a good registered record goes through. -/
theorem updateState_ok {msg : Msg} {ct : Address} (e : EventType) (p : Bytes32)
    {reg : ReputationRegistry} (hauth : reg.authorizedAuditors msg.sender = true)
    (hreg : (reg.states ct).isRegistered = true) (h : RecordInv (reg.states ct))
    (hs : e = .INVALID → (reg.states ct).stakedAmount < 2 ^ 128)
    (hpool : e = .INVALID →
      reg.totalSlashedPool + (reg.states ct).stakedAmount < 2 ^ 256) :
    ∃ reg', updateState msg ct e p reg = .ok reg' := by
  unfold updateState
  rw [require_bind hauth, require_bind hreg]
  by_cases hj : (reg.states ct).isJailed = true
  · exact ⟨reg, if_pos hj⟩
  · rw [if_neg hj, applyEvent_ok e h hs]
    have hsl := slashed_le e (reg.states ct)
    have hcredit : ∃ pool, creditPool e reg.totalSlashedPool (slashed e (reg.states ct))
        = .ok pool := by
      unfold creditPool addU256
      split
      next he =>
        have hpool := hpool he
        exact ⟨_, if_pos (by omega)⟩
      next => exact ⟨_, rfl⟩
    obtain ⟨pool, hp⟩ := hcredit
    simp only [bind_eq_ok, pure_eq_ok]
    exact ⟨_, _, rfl, pool, hp, rfl⟩

/-! ## §5. The fault ceiling. -/

/-- An INVALID event on `ct`. -/
def faultWeight (ct : Address) (tx : Tx) : Nat :=
  match tx.call with
  | .updateState ct' .INVALID _ => if ct' = ct then 1 else 0
  | _ => 0

/-- The transaction upholds no appeal of `ct`. -/
def NoUpheldAppeal (ct : Address) (reg : ReputationRegistry) (tx : Tx) : Prop :=
  ∀ appealId, tx.call = .resolveAppeal appealId true → (reg.appeals appealId).committer ≠ ct

/-- `n` faults stand in the record, or it is jailed. -/
def StandIn (n : Nat) (s : StateSnapshot) : Prop :=
  s.isJailed = true ∨ n ≤ s.cumulativeV

/-- The invariant, with `n` faults on the record. -/
def Standing (ct : Address) (n : Nat) (reg : ReputationRegistry) : Prop :=
  RegistryInv reg ∧ StandIn n (reg.states ct)

/-- An unregistered address has no fault and no jail. -/
theorem standing_blank {ct : Address} {n : Nat} {reg : ReputationRegistry}
    (h : Standing ct n reg) (hblank : (reg.states ct).isRegistered = false) : n = 0 := by
  have hzero := h.1.blank ct hblank
  rcases h.2 with hj | hle
  · rw [hzero] at hj
    exact absurd hj (by decide)
  · rw [hzero] at hle
    exact Nat.le_zero.mp hle

theorem faultWeight_updateState (ct ct' : Address) (msg : Msg) (e : EventType) (p : Bytes32) :
    faultWeight ct ⟨msg, .updateState ct' e p⟩ = if ct' = ct ∧ e = .INVALID then 1 else 0 := by
  cases e <;> simp [faultWeight]

/-- One more fault, or none: what an event adds to the count of its record. -/
theorem cumulativeV_nextState (e : EventType) (s : StateSnapshot) :
    (nextState e s).cumulativeV = s.cumulativeV + if e = .INVALID then 1 else 0 := by
  by_cases he : e = .INVALID
  · subst he
    rw [nextState_fault_cumulativeV, if_pos rfl]
  · rw [nextState_of_ne he, movedState_cumulativeV, if_neg he, Nat.add_zero]

/-- **One call** keeps the standing. -/
theorem standing_step {ct : Address} {n : Nat} {reg reg' : ReputationRegistry} {tx : Tx}
    (hno : NoUpheldAppeal ct reg tx) (hst : Standing ct n reg) (h : exec tx reg = .ok reg') :
    Standing ct (n + faultWeight ct tx) reg' := by
  refine ⟨registryInv_step hst.1 h, ?_⟩
  cases exec_effect h with
  | @register msg value nonce endorsers _ hnew =>
    show StandIn n (update reg.states msg.sender _ ct)
    by_cases hct : ct = msg.sender
    · right
      rw [standing_blank hst (by rw [hct]; exact hnew)]
      exact Nat.zero_le _
    · rw [update_of_ne hct]
      exact hst.2
  | @event _ ct' e p _ hreg hfree =>
    rw [faultWeight_updateState]
    show StandIn _ (update reg.states ct' _ ct)
    by_cases hct : ct = ct'
    · subst hct
      rw [update_self]
      right
      rw [cumulativeV_nextState]
      rcases hst.2 with hj | hle
      · rw [hfree] at hj
        exact absurd hj (by decide)
      · simp only [true_and]
        exact Nat.add_le_add_right hle _
    · rw [update_of_ne hct, if_neg (fun hc => hct hc.1.symm)]
      exact hst.2
  | @restore _ appealId _ hcan =>
    have hne : ct ≠ (reg.appeals appealId).committer :=
      fun hc => hno appealId rfl hc.symm
    show StandIn n (update reg.states _ _ ct)
    rw [update_of_ne hne]
    exact hst.2
  | frame hstates _ _ _ hevent _ =>
    rw [hstates]
    -- an event that changes nothing hit a jailed record
    obtain ⟨msg, call⟩ := tx
    cases call with
    | updateState ct' e p =>
      rw [faultWeight_updateState]
      by_cases hct : ct' = ct
      · left
        rw [← hct]
        exact (hevent ct' e p rfl).2
      · rw [if_neg (fun hc => hct hc.1)]
        exact hst.2
    | _ => exact hst.2

/-- **Every fault stands or the committer is jailed**, along any run that upholds
no appeal of it. -/
theorem standing_or_jailed {ct : Address} {reg : ReputationRegistry} (hinv : RegistryInv reg)
    {us : List Tx} (hus : StepsMeet exec (NoUpheldAppeal ct) reg us) :
    Standing ct (tally exec (faultWeight ct) reg us) (run exec reg us) := by
  have h := run_tally (R := Standing ct)
    (fun _ _ _ _ hno hst h => standing_step hno hst h) us 0 reg ⟨hinv, Or.inr (Nat.zero_le _)⟩ hus
  rw [Nat.zero_add] at h
  exact h

/-- Seven faults jail. -/
theorem jailed_of_seven_standing {ct : Address} {n : Nat} {reg : ReputationRegistry}
    (h : Standing ct n reg) (hn : 7 ≤ n) : (reg.states ct).isJailed = true := by
  rcases h.2 with hj | hle
  · exact hj
  · by_contra hfree
    cases hr : (reg.states ct).isRegistered with
    | true =>
      have hsix := (h.1.records ct hr).free_faults (Bool.eq_false_iff.mpr hfree)
      omega
    | false =>
      have hzero := standing_blank h hr
      omega

/-! ## §6. The invariant over every run. -/

theorem updateState_ne_panic {msg : Msg} {ct : Address} (e : EventType) (p : Bytes32)
    {reg : ReputationRegistry} (hreg : (reg.states ct).isRegistered = true)
    (h : RecordInv (reg.states ct)) (hs : (reg.states ct).stakedAmount < 2 ^ 128)
    (hpool : reg.totalSlashedPool < 2 ^ 255) : updateState msg ct e p reg ≠ .error .panic := by
  by_cases hauth : reg.authorizedAuditors msg.sender = true
  · obtain ⟨reg', hok⟩ := updateState_ok e p hauth hreg h (fun _ => hs) (fun _ => by omega)
    rw [hok]
    exact fun hc => nomatch hc
  · unfold updateState require
    rw [if_neg hauth]
    exact fun hc => nomatch hc

/-- **The MF-PoP invariant and the fault ceiling.**  In every reachable state a
registered record satisfies `RecordInv`, its effective reputation is defined and
bounded, no update of it panics, and its seventh standing fault jails it; and from
there on, seven INVALID events of a committer none of whose appeals is upheld
jail it. -/
theorem mfpop_invariant_and_fault_ceiling (deployer : Address) (ts : List Tx)
    (hstakes : StakesBelow ts) :
    (∀ a, ((run exec (deploy deployer) ts).states a).isRegistered = true →
      RecordInv ((run exec (deploy deployer) ts).states a)
      ∧ (∃ r, getEffectiveReputation a (run exec (deploy deployer) ts) = .ok r ∧ R_MIN ≤ r
          ∧ r ≤ max R_MIN
            (PRECISION / 2 ^ ((run exec (deploy deployer) ts).states a).cumulativeV))
      ∧ ((run exec (deploy deployer) ts).totalSlashedPool < 2 ^ 255 →
          ∀ msg e p, updateState msg a e p (run exec (deploy deployer) ts) ≠ .error .panic)
      ∧ (((run exec (deploy deployer) ts).states a).cumulativeV = 6 →
          ∀ msg p reg', updateState msg a .INVALID p (run exec (deploy deployer) ts) = .ok reg' →
            (reg'.states a).isJailed = true))
    ∧ ∀ ct us, StepsMeet exec (NoUpheldAppeal ct) (run exec (deploy deployer) ts) us →
        7 ≤ tally exec (faultWeight ct) (run exec (deploy deployer) ts) us →
        ((run exec (run exec (deploy deployer) ts) us).states ct).isJailed = true := by
  have hinv := registryInv_run deployer ts
  have hstake := stakeInv_run deployer hstakes
  generalize run exec (deploy deployer) ts = reg at *
  refine ⟨?_, ?_⟩
  · intro a ha
    have hrec := hinv.records a ha
    have hmul : (reg.states a).baseReputation * (reg.states a).safetyMult < 2 ^ 256 := by
      refine lt_of_le_of_lt (Nat.mul_le_mul hrec.base_le hrec.mult_le) ?_
      norm_num [PRECISION]
    refine ⟨hrec, ⟨_, getEffectiveR_ok hmul, hrec.effective_bounds⟩, ?_, ?_⟩
    · intro hpool msg e p
      exact updateState_ne_panic e p ha hrec (hstake.records a) hpool
    · intro hsix msg p reg' hup
      have hst : Standing a 6 reg := ⟨hinv, Or.inr (le_of_eq hsix.symm)⟩
      have hnone : NoUpheldAppeal a reg ⟨msg, .updateState a .INVALID p⟩ :=
        fun _ hc => nomatch hc
      have hnext := standing_step hnone hst hup
      rw [faultWeight_updateState, if_pos ⟨rfl, rfl⟩] at hnext
      exact jailed_of_seven_standing hnext (le_refl _)
  · intro ct us hus hseven
    exact jailed_of_seven_standing (standing_or_jailed hinv hus) hseven

end HZKA.ReputationRegistry
