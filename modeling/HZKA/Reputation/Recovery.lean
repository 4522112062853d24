/-
  HZKA.Reputation.Recovery
  ────────────
  **RECOVERY HAS A SINGLE DIP.**

  A valid event moves the base reputation by `a_h` of the way to the quality
  `Q = 0.7 + 0.3·H`, rounded down.  The history only rises, so the quality only rises, and the
  rounded average never passes it on either side.  So a base above the quality falls, by one
  unit at least, until it is no longer above; from then on it rises.

    • `nextBase_below`, `nextBase_above` — the step on either side of the quality;
    • `base_singleDip` — the base along valid events;
    • `recovery_single_dip` — the same of the effective reputation, from every reachable state.
-/
import HZKA.Lib.SingleDip
import HZKA.Reputation.Order

namespace HZKA.ReputationRegistry

open HZKA.Lib HZKA.EVM

/-! ## §1. One valid event. -/

/-- `Q`, for a history score. -/
def quality (h : Nat) : Nat := 700000000000000000 + 300000000000000000 * h / PRECISION

theorem quality_mono {h h' : Nat} (hh : h ≤ h') : quality h ≤ quality h' := by
  simp only [quality, PRECISION]
  omega

theorem le_quality (h : Nat) : 700000000000000000 ≤ quality h := by
  simp only [quality, PRECISION]
  omega

theorem quality_le {h : Nat} (hh : h ≤ PRECISION) : quality h ≤ PRECISION := by
  simp only [quality, PRECISION] at *
  omega

theorem nextBase_valid (h base : Nat) : nextBase .VALID h base
    = min R_MAX (((PRECISION - A_H) * base + A_H * quality h) / PRECISION) := rfl

theorem history_le_next {h : Nat} (hh : h ≤ PRECISION) : h ≤ nextHistory .VALID h := by
  simp only [nextHistory, PRECISION, GAMMA] at *
  omega

/-- **Below the quality** the base rises, and not past it. -/
theorem nextBase_below {h base : Nat} (hh : h ≤ PRECISION) (hbase : base ≤ quality h) :
    base ≤ nextBase .VALID h base ∧ nextBase .VALID h base ≤ quality h := by
  have hquality := quality_le hh
  rw [nextBase_valid]
  generalize quality h = Q at *
  simp only [PRECISION, A_H, R_MAX] at *
  omega

/-- **Above it** the base falls, and not past it. -/
theorem nextBase_above {h base : Nat} (hle : base ≤ PRECISION) (hbase : quality h < base) :
    quality h ≤ nextBase .VALID h base ∧ nextBase .VALID h base < base := by
  rw [nextBase_valid]
  generalize quality h = Q at *
  simp only [PRECISION, A_H, R_MAX] at *
  omega

/-! ## §2. The record along valid events. -/

/-- The record after `n` valid events. -/
def recovered (s : StateSnapshot) (n : Nat) : StateSnapshot :=
  afterEvents (List.replicate n .VALID) s

/-- One valid event more. -/
theorem recovered_succ (s : StateSnapshot) (n : Nat) :
    recovered s (n + 1) = recordStep (recovered s n) .VALID := by
  unfold recovered afterEvents
  rw [List.replicate_succ', List.foldl_append]
  rfl

/-- Valid events move the two scores only. -/
structure Recovering (s t : StateSnapshot) : Prop where
  inv : RecordInv t
  free : t.isJailed = false
  mult : t.safetyMult = s.safetyMult

theorem recovering_recovered {s : StateSnapshot} (hinv : RecordInv s) (hfree : s.isJailed = false)
    (n : Nat) : Recovering s (recovered s n) := by
  induction n with
  | zero => exact ⟨hinv, hfree, rfl⟩
  | succ n ih =>
    rw [recovered_succ]
    refine ⟨recordInv_recordStep ih.inv .VALID, ?_, ?_⟩
    · unfold recordStep
      rw [ih.free, if_neg (by decide), nextState_isJailed, ih.free, jails_eq_false (by decide)]
      rfl
    · unfold recordStep
      rw [ih.free, if_neg (by decide), nextState_of_ne (by decide), movedState_safetyMult]
      exact ih.mult

section

variable {s : StateSnapshot} (hinv : RecordInv s) (hfree : s.isJailed = false)

include hinv hfree

theorem history_succ (n : Nat) : (recovered s (n + 1)).historyScore
    = nextHistory .VALID (recovered s n).historyScore := by
  rw [recovered_succ]
  unfold recordStep
  rw [(recovering_recovered hinv hfree n).free, if_neg (by decide), nextState_historyScore]

theorem base_succ (n : Nat) : (recovered s (n + 1)).baseReputation
    = nextBase .VALID (recovered s (n + 1)).historyScore (recovered s n).baseReputation := by
  rw [history_succ hinv hfree, recovered_succ]
  unfold recordStep
  rw [(recovering_recovered hinv hfree n).free, if_neg (by decide), nextState_baseReputation]

/-- The history never falls. -/
theorem history_monotone (n : Nat) :
    (recovered s n).historyScore ≤ (recovered s (n + 1)).historyScore := by
  rw [history_succ hinv hfree]
  exact history_le_next (recovering_recovered hinv hfree n).inv.history_le

/-- **Once the base has not fallen it does not fall.**  It is then at most the quality, which
only rises. -/
theorem base_step (n : Nat)
    (h : (recovered s n).baseReputation ≤ (recovered s (n + 1)).baseReputation) :
    (recovered s (n + 1)).baseReputation ≤ (recovered s (n + 2)).baseReputation := by
  have hinv₀ := (recovering_recovered hinv hfree n).inv
  have hinv₁ := (recovering_recovered hinv hfree (n + 1)).inv
  have hinv₂ := (recovering_recovered hinv hfree (n + 2)).inv
  have hreached : (recovered s n).baseReputation ≤ quality (recovered s (n + 1)).historyScore := by
    by_contra habove
    have hfall := (nextBase_above hinv₀.base_le (not_le.mp habove)).2
    rw [← base_succ hinv hfree] at hfall
    omega
  have hkept := (nextBase_below hinv₁.history_le hreached).2
  rw [← base_succ hinv hfree] at hkept
  have hrises := quality_mono (history_monotone hinv hfree (n + 1))
  have hup := (nextBase_below hinv₂.history_le (hkept.trans hrises)).1
  rw [← base_succ hinv hfree (n + 1)] at hup
  exact hup

/-- The base dips at most once. -/
theorem base_singleDip : SingleDip fun n => (recovered s n).baseReputation :=
  singleDip_of_step (base_step hinv hfree)

/-- The dip stays above `0.7`, or above where the base started. -/
theorem base_floor (n : Nat) :
    min s.baseReputation 700000000000000000 ≤ (recovered s n).baseReputation := by
  induction n with
  | zero => exact min_le_left _ _
  | succ n ih =>
    have hquality := le_quality (recovered s (n + 1)).historyScore
    rw [base_succ hinv hfree]
    rcases le_or_gt (recovered s n).baseReputation (quality (recovered s (n + 1)).historyScore)
      with hle | hlt
    · have hup := (nextBase_below (recovering_recovered hinv hfree (n + 1)).inv.history_le hle).1
      exact ih.trans hup
    · have hstay := (nextBase_above (recovering_recovered hinv hfree n).inv.base_le hlt).1
      exact (min_le_right _ _).trans (hquality.trans hstay)

/-- The effective reputation is a monotone function of the base. -/
theorem effective_recovered (n : Nat) : effective (recovered s n)
    = max R_MIN ((recovered s n).baseReputation * s.safetyMult / PRECISION) := by
  have h := recovering_recovered hinv hfree n
  unfold effective
  rw [h.free, if_neg (by decide), h.mult]

/-- The reputation dips at most once. -/
theorem effective_singleDip : SingleDip fun n => effective (recovered s n) := by
  have hmono : Monotone fun base : Nat => max R_MIN (base * s.safetyMult / PRECISION) := by
    intro b b' hb
    exact max_le_max (le_refl _) (Nat.div_le_div_right (Nat.mul_le_mul_right _ hb))
  have hdip := (base_singleDip hinv hfree).comp hmono
  simpa only [effective_recovered hinv hfree] using hdip

end

/-! ## §3. Every reachable state. -/

/-- The run `us` applies `n` valid events to `ct`, and nothing else. -/
structure Recovers (ct : Address) (reg : ReputationRegistry) (n : Nat) (us : List Tx) : Prop where
  noAppeal : StepsMeet exec (NoUpheldAppeal ct) reg us
  applied : appliedEvents ct reg us = List.replicate n .VALID

/-- Reports of valid rounds by an authorized auditor are taken, whatever the stakes. -/
theorem validReports_taken (ct : Address) {r : Report} (hevent : r.event = .VALID) (n : Nat) :
    ∀ {reg : ReputationRegistry}, RegistryInv reg → (reg.states ct).isRegistered = true →
      reg.authorizedAuditors r.msg.sender = true →
      Taken exec reg (reports ct (List.replicate n r)) := by
  induction n with
  | zero => exact fun _ _ _ => trivial
  | succ n ih =>
    intro reg hinv hreg hauth
    have hvalid : r.event ≠ .INVALID := by
      rw [hevent]
      decide
    obtain ⟨reg', hup⟩ := updateState_ok r.event r.proofHash hauth hreg (hinv.records ct hreg)
      (fun hc => absurd hc hvalid) (fun hc => absurd hc hvalid)
    have hexec : exec ⟨r.msg, .updateState ct r.event r.proofHash⟩ reg = .ok reg' := hup
    show (exec ⟨r.msg, .updateState ct r.event r.proofHash⟩ reg).isOk = true
      ∧ Taken exec (commit exec reg ⟨r.msg, .updateState ct r.event r.proofHash⟩)
          (reports ct (List.replicate n r))
    refine ⟨isOk_of_eq hexec, ?_⟩
    rw [commit_of_ok hexec]
    have hinv' := registryInv_step hinv hexec
    obtain ⟨-, rfl⟩ := updateState_eq_ok hup
    apply ih hinv' (afterUpdate_registered r.event r.proofHash hreg)
    rw [afterUpdate_auditors]
    exact hauth

/-- **Any number of valid events can be applied**: the owner may authorize itself. -/
theorem exists_recovers {ct : Address} {reg : ReputationRegistry} (hinv : RegistryInv reg)
    (hreg : (reg.states ct).isRegistered = true) (n : Nat) : ∃ us, Recovers ct reg n us := by
  have hauthorize := @setAuthorizedAuditor_ok ⟨reg.owner, 0, 0, true⟩ reg.owner true reg rfl
  have htaken := validReports_taken ct (r := ⟨⟨reg.owner, 0, 0, true⟩, .VALID, 0⟩) rfl n
    (registryInv_step hinv hauthorize) hreg (Function.update_self ..)
  refine ⟨⟨⟨reg.owner, 0, 0, true⟩, .setAuthorizedAuditor reg.owner true⟩
    :: reports ct (List.replicate n ⟨⟨reg.owner, 0, 0, true⟩, .VALID, 0⟩), ?_, ?_⟩
  · refine ⟨?_, reports_noUpheldAppeal ct _ _⟩
    intro appealId hcall
    cases hcall
  · unfold appliedEvents
    rw [commit_of_ok hauthorize, appliedEvents_reports _ htaken, List.map_replicate]
    have hnone : eventOf ct ⟨⟨reg.owner, 0, 0, true⟩, .setAuthorizedAuditor reg.owner true⟩ = none :=
      rfl
    rw [hnone, Option.toList_none, ite_self, List.nil_append]

/-- **Recovery has a single dip.**  From every reachable unjailed state of a committer, for any
number `n` of valid events: the effective reputation `R n` first never rises and then never
falls, the history score `H n` never falls, and the base reputation `B n` never drops below
both its start and `0.7`. -/
theorem recovery_single_dip (deployer : Address) (ts : List Tx) (ct : Address)
    (hreg : ((run exec (deploy deployer) ts).states ct).isRegistered = true)
    (hfree : ((run exec (deploy deployer) ts).states ct).isJailed = false) :
    ∃ R H B : Nat → Nat,
      (∀ n, ∃ us, Recovers ct (run exec (deploy deployer) ts) n us)
      ∧ (∀ n us, Recovers ct (run exec (deploy deployer) ts) n us →
        getEffectiveReputation ct (run exec (run exec (deploy deployer) ts) us) = .ok (R n)
        ∧ ((run exec (run exec (deploy deployer) ts) us).states ct).historyScore = H n
        ∧ ((run exec (run exec (deploy deployer) ts) us).states ct).baseReputation = B n)
      ∧ SingleDip R
      ∧ (∀ n, H n ≤ H (n + 1))
      ∧ ∀ n, min ((run exec (deploy deployer) ts).states ct).baseReputation 700000000000000000
          ≤ B n := by
  have hinv := registryInv_run deployer ts
  generalize run exec (deploy deployer) ts = reg at *
  have hrec := hinv.records ct hreg
  refine ⟨fun n => effective (recovered (reg.states ct) n),
    fun n => (recovered (reg.states ct) n).historyScore,
    fun n => (recovered (reg.states ct) n).baseReputation, exists_recovers hinv hreg, ?_,
    effective_singleDip hrec hfree, history_monotone hrec hfree, base_floor hrec hfree⟩
  intro n us hus
  have hend : RegistryInv (run exec reg us) :=
    run_invariant (fun _ _ _ hinv h => registryInv_step hinv h) us hinv
  have hrecord : (run exec reg us).states ct = recovered (reg.states ct) n := by
    rw [record_run us hreg hus.noAppeal, hus.applied]
    rfl
  rw [getEffectiveReputation_ok hend, hrecord]
  exact ⟨rfl, rfl, rfl⟩

/-- One fault does not jail the genesis committer. -/
theorem genesis_fault_free : (nextState .INVALID genesisState).isJailed = false := by
  have hscore : ¬ score (nextState .INVALID genesisState) ≤ R_JAIL := by
    unfold score
    rw [nextState_baseReputation, nextState_fault_safetyMult]
    norm_num [nextBase, genesisState, R_MAX, R_MIN, R_JAIL, Q_S, PRECISION]
  rw [← jailed_fault_iff rfl] at hscore
  exact Bool.eq_false_iff.mpr hscore

/-- After a fault the genesis committer dips once and recovers. -/
theorem genesis_recovers :
    ∃ R H B : Nat → Nat,
      (∀ n, ∃ us, Recovers 1 (run exec (deploy 1) (genesisReports [.INVALID])) n us)
      ∧ (∀ n us, Recovers 1 (run exec (deploy 1) (genesisReports [.INVALID])) n us →
        getEffectiveReputation 1 (run exec (run exec (deploy 1) (genesisReports [.INVALID])) us)
            = .ok (R n)
        ∧ ((run exec (run exec (deploy 1) (genesisReports [.INVALID])) us).states 1).historyScore
            = H n
        ∧ ((run exec (run exec (deploy 1) (genesisReports [.INVALID])) us).states 1).baseReputation
            = B n)
      ∧ SingleDip R
      ∧ (∀ n, H n ≤ H (n + 1))
      ∧ ∀ n, min ((run exec (deploy 1) (genesisReports [.INVALID])).states 1).baseReputation
          700000000000000000 ≤ B n := by
  apply recovery_single_dip 1 (genesisReports [.INVALID]) 1
  · exact registered_run genesis_covered.registered _
  · rw [record_genesis]
    exact genesis_fault_free

end HZKA.ReputationRegistry
