/-
  HZKA.Reputation.Honesty
  ────────────
  **HONEST BEHAVIOUR IS NEVER WORSE**: in any sequence of events, replacing one of them by
  VALID neither lowers the final effective reputation nor leads to jail.

  A single step does not show it: VALID can lower the base reputation (by at most `a_h`)
  where INVALID leaves it.  What survives any common continuation is

      the lead    h₀ ≤ h₁  and  either  b₀ ≤ b₁,  V₁ ≤ V₀
                               or      9·b₀ ≤ 10·b₁ + 200,  V₁ + 1 ≤ V₀

  (`0` the original record, `1` the modified one).  The slack `200` absorbs what the floors
  lose while missed rounds carry both bases to zero; there the effective reputation has
  long been the floor `R_MIN`.

    • `leads_next`, `effective_le` — one event keeps the lead, and the lead decides;
    • `follows_step` — the relation of the two registries, the jail included;
    • `honest_not_worse` — the two runs.
-/
import HZKA.Reputation.Invariant

namespace HZKA.ReputationRegistry

open HZKA.Lib HZKA.EVM

/-! ## §1. The two scores are monotone. -/

theorem nextHistory_mono (e : EventType) {h₀ h₁ : Nat} (h : h₀ ≤ h₁) :
    nextHistory e h₀ ≤ nextHistory e h₁ := by
  cases e <;> simp only [nextHistory, GAMMA, PRECISION] <;> omega

theorem nextBase_mono (e : EventType) {h₀ h₁ b₀ b₁ : Nat} (h : h₀ ≤ h₁) (hb : b₀ ≤ b₁) :
    nextBase e h₀ b₀ ≤ nextBase e h₁ b₁ := by
  cases e <;> simp only [nextBase, A_H, Q_L, R_MAX, PRECISION] <;> omega

/-- The slack of a tenth outlives every event. -/
theorem nextBase_slack (e : EventType) {h₀ h₁ b₀ b₁ : Nat} (h : h₀ ≤ h₁)
    (hb : 9 * b₀ ≤ 10 * b₁ + 200) :
    9 * nextBase e h₀ b₀ ≤ 10 * nextBase e h₁ b₁ + 200 := by
  cases e with
  | VALID =>
    -- the gain `a_h · Q` is worth far more than the two floors
    simp only [nextBase, A_H, R_MAX, PRECISION]
    omega
  | INVALID => exact hb
  | MISSING =>
    simp only [nextBase, Q_L, PRECISION]
    omega

/-! ## §2. The lead. -/

/-- `s₁` is ahead of `s₀` in both bases and faults, or by a whole fault. -/
structure Leads (s₀ s₁ : StateSnapshot) : Prop where
  history : s₀.historyScore ≤ s₁.historyScore
  lead : s₀.baseReputation ≤ s₁.baseReputation ∧ s₁.cumulativeV ≤ s₀.cumulativeV
    ∨ 9 * s₀.baseReputation ≤ 10 * s₁.baseReputation + 200
      ∧ s₁.cumulativeV + 1 ≤ s₀.cumulativeV

/-- Fewer faults, larger multiplier. -/
theorem mult_antitone {s₀ s₁ : StateSnapshot} (h₀ : RecordInv s₀) (h₁ : RecordInv s₁) {k : Nat}
    (hv : s₁.cumulativeV + k ≤ s₀.cumulativeV) : s₀.safetyMult * 2 ^ k ≤ s₁.safetyMult := by
  have hpos : 0 < 2 ^ s₁.cumulativeV := Nat.two_pow_pos _
  apply Nat.le_of_mul_le_mul_right _ hpos
  calc s₀.safetyMult * 2 ^ k * 2 ^ s₁.cumulativeV
      = s₀.safetyMult * 2 ^ (s₁.cumulativeV + k) := by rw [Nat.mul_assoc, ← Nat.pow_add,
        Nat.add_comm]
    _ ≤ s₀.safetyMult * 2 ^ s₀.cumulativeV :=
        Nat.mul_le_mul_left _ (Nat.pow_le_pow_right (by omega) hv)
    _ = s₁.safetyMult * 2 ^ s₁.cumulativeV := by rw [h₀.mult_eq, h₁.mult_eq]

/-- The product `R_base · φ` of the leading record is larger, or the other one is below the
floor. -/
theorem product_le {s₀ s₁ : StateSnapshot} (h₀ : RecordInv s₀) (h₁ : RecordInv s₁)
    (hlead : Leads s₀ s₁) :
    s₀.baseReputation * s₀.safetyMult ≤ s₁.baseReputation * s₁.safetyMult
      ∨ s₀.baseReputation * s₀.safetyMult / PRECISION ≤ R_MIN := by
  rcases hlead.lead with ⟨hbase, hv⟩ | ⟨hbase, hv⟩
  · left
    have hmult := mult_antitone h₀ h₁ (k := 0) hv
    rw [Nat.pow_zero, Nat.mul_one] at hmult
    exact Nat.mul_le_mul hbase hmult
  · have hmult := mult_antitone h₀ h₁ hv
    by_cases hsmall : s₀.baseReputation < 50
    · right
      have hprod : s₀.baseReputation * s₀.safetyMult ≤ 50 * PRECISION :=
        Nat.mul_le_mul (by omega) h₀.mult_le
      simp only [PRECISION, R_MIN] at *
      omega
    · -- twice the multiplier makes up for a tenth of the base
      left
      have htwice : s₀.baseReputation ≤ 2 * s₁.baseReputation := by omega
      calc s₀.baseReputation * s₀.safetyMult
          ≤ 2 * s₁.baseReputation * s₀.safetyMult := Nat.mul_le_mul_right _ htwice
        _ = s₁.baseReputation * (s₀.safetyMult * 2 ^ 1) := by ring
        _ ≤ s₁.baseReputation * s₁.safetyMult := Nat.mul_le_mul_left _ hmult

/-- The effective reputation before the jail flag is looked at. -/
def score (s : StateSnapshot) : Nat :=
  max R_MIN (s.baseReputation * s.safetyMult / PRECISION)

theorem effective_of_free {s : StateSnapshot} (h : s.isJailed = false) : effective s = score s := by
  unfold effective score
  rw [h, if_neg (by decide)]

theorem effective_of_jailed {s : StateSnapshot} (h : s.isJailed = true) : effective s = R_MIN := by
  unfold effective
  rw [if_pos h]

/-- **The lead decides.** -/
theorem score_le {s₀ s₁ : StateSnapshot} (h₀ : RecordInv s₀) (h₁ : RecordInv s₁)
    (hlead : Leads s₀ s₁) : score s₀ ≤ score s₁ := by
  refine max_le (le_max_left _ _) ?_
  rcases product_le h₀ h₁ hlead with hle | hfloor
  · exact le_trans (Nat.div_le_div_right hle) (le_max_right _ _)
  · exact le_trans hfloor (le_max_left _ _)

/-- The jail test reads the score the fault leaves. -/
theorem jailed_fault_iff {s : StateSnapshot} (hfree : s.isJailed = false) :
    (nextState .INVALID s).isJailed = true ↔ score (nextState .INVALID s) ≤ R_JAIL := by
  have hbefore : (faultState .INVALID (movedState .INVALID s)).isJailed = false := by
    rw [faultState_isJailed]
    exact hfree
  have hscore : effective (faultState .INVALID (movedState .INVALID s))
      = score (nextState .INVALID s) := effective_of_free hbefore
  rw [nextState_isJailed, hfree, Bool.false_or]
  unfold jails
  rw [decide_eq_true_iff, hscore]
  exact and_iff_right rfl

/-- One event on both records keeps the lead. -/
theorem leads_next (e : EventType) {s₀ s₁ : StateSnapshot} (h : Leads s₀ s₁) :
    Leads (nextState e s₀) (nextState e s₁) := by
  have hhist := nextHistory_mono e h.history
  refine ⟨?_, ?_⟩
  · rw [nextState_historyScore, nextState_historyScore]
    exact hhist
  · rw [nextState_baseReputation, nextState_baseReputation, cumulativeV_nextState,
      cumulativeV_nextState]
    rcases h.lead with ⟨hbase, hv⟩ | ⟨hbase, hv⟩
    · exact Or.inl ⟨nextBase_mono e hhist hbase, by omega⟩
    · exact Or.inr ⟨nextBase_slack e hhist hbase, by omega⟩

/-- A fault on the trailing record only: it leaves the base and lowers the history. -/
theorem leads_fault {s₀ s₁ : StateSnapshot} (h : Leads s₀ s₁) :
    Leads (nextState .INVALID s₀) s₁ := by
  refine ⟨?_, ?_⟩
  · rw [nextState_historyScore]
    have hhist := h.history
    simp only [nextHistory, GAMMA, PRECISION]
    omega
  · rw [nextState_baseReputation, nextState_fault_cumulativeV]
    rcases h.lead with ⟨hbase, hv⟩ | ⟨hbase, hv⟩
    · exact Or.inl ⟨hbase, by omega⟩
    · exact Or.inr ⟨hbase, by omega⟩

/-- **VALID instead of any event** gives the lead. -/
theorem leads_valid (e : EventType) {s : StateSnapshot} (h : RecordInv s) :
    Leads (nextState e s) (nextState .VALID s) := by
  have hbase := h.base_le
  have hhist := h.history_le
  refine ⟨?_, ?_⟩
  · rw [nextState_historyScore, nextState_historyScore]
    cases e <;> simp only [nextHistory, GAMMA, PRECISION] at * <;> omega
  · rw [nextState_baseReputation, nextState_baseReputation, cumulativeV_nextState,
      cumulativeV_nextState]
    cases e with
    | VALID => exact Or.inl ⟨le_refl _, le_refl _⟩
    | INVALID =>
      right
      refine ⟨?_, le_refl _⟩
      simp only [nextBase, A_H, R_MAX, PRECISION] at *
      omega
    | MISSING =>
      left
      refine ⟨?_, le_refl _⟩
      simp only [nextBase, A_H, Q_L, R_MAX, PRECISION] at *
      omega

/-! ## §3. Two registries. -/

/-- The modified record, seen from the original one: the original is jailed, or the modified
one is free and ahead. -/
def Ahead (s₀ s₁ : StateSnapshot) : Prop :=
  s₀.isJailed = true ∨ s₁.isJailed = false ∧ Leads s₀ s₁

/-- Ahead in reputation. -/
theorem Ahead.effective_le {s₀ s₁ : StateSnapshot} (h₀ : RecordInv s₀) (h₁ : RecordInv s₁)
    (h : Ahead s₀ s₁) : effective s₀ ≤ effective s₁ := by
  rcases h with hj | ⟨hfree, hlead⟩
  · rw [effective_of_jailed hj]
    exact h₁.effective_bounds.1
  · by_cases hj : s₀.isJailed = true
    · rw [effective_of_jailed hj]
      exact h₁.effective_bounds.1
    · rw [effective_of_free (Bool.eq_false_iff.mpr hj), effective_of_free hfree]
      exact score_le h₀ h₁ hlead

/-- The one ahead is jailed last. -/
theorem Ahead.jailed {s₀ s₁ : StateSnapshot} (h : Ahead s₀ s₁) (hj : s₁.isJailed = true) :
    s₀.isJailed = true := by
  rcases h with hj₀ | ⟨hfree, -⟩
  · exact hj₀
  · rw [hfree] at hj
    exact absurd hj (by decide)

/-- Two free records, one ahead: after events on both, still ahead, unless the trailing one
went to jail. -/
theorem ahead_of_leads {e e' : EventType} {s₀ s₁ : StateSnapshot} (h₀ : RecordInv s₀)
    (h₁ : RecordInv s₁) (hfree₀ : s₀.isJailed = false) (hfree₁ : s₁.isJailed = false)
    (he : e' = .INVALID → e = .INVALID) (hlead : Leads (nextState e s₀) (nextState e' s₁)) :
    Ahead (nextState e s₀) (nextState e' s₁) := by
  by_cases hj : (nextState e s₀).isJailed = true
  · exact Or.inl hj
  · right
    refine ⟨?_, hlead⟩
    by_cases hfault : e' = .INVALID
    · -- the leading score is above the threshold because the trailing one is
      subst hfault
      obtain rfl := he rfl
      rw [jailed_fault_iff hfree₀] at hj
      rw [Bool.eq_false_iff]
      intro hj₁
      rw [jailed_fault_iff hfree₁] at hj₁
      have hle := score_le (recordInv_fault h₀ hfree₀) (recordInv_fault h₁ hfree₁) hlead
      omega
    · rw [nextState_of_ne hfault]
      exact hfree₁

/-- The original registry `reg₀` beside the modified one. -/
structure Follows (ct : Address) (reg₀ reg₁ : ReputationRegistry) : Prop where
  inv₀ : RegistryInv reg₀
  inv₁ : RegistryInv reg₁
  auditors : reg₁.authorizedAuditors = reg₀.authorizedAuditors
  registered₀ : (reg₀.states ct).isRegistered = true
  registered₁ : (reg₁.states ct).isRegistered = true
  ahead : Ahead (reg₀.states ct) (reg₁.states ct)

/-- A registry follows itself. -/
theorem follows_refl {ct : Address} {reg : ReputationRegistry} (hinv : RegistryInv reg)
    (hreg : (reg.states ct).isRegistered = true) : Follows ct reg reg := by
  refine ⟨hinv, hinv, rfl, hreg, hreg, ?_⟩
  by_cases hj : (reg.states ct).isJailed = true
  · exact Or.inl hj
  · exact Or.inr ⟨Bool.eq_false_iff.mpr hj, le_refl _, Or.inl ⟨le_refl _, le_refl _⟩⟩

theorem authorized_of_updateState {msg : Msg} {ct : Address} {e : EventType} {p : Bytes32}
    {reg reg' : ReputationRegistry} (h : updateState msg ct e p reg = .ok reg') :
    reg.authorizedAuditors msg.sender = true := by
  unfold updateState at h
  obtain ⟨_, hauth, -⟩ := bind_eq_ok.mp h
  exact require_eq_ok.mp hauth

theorem afterUpdate_auditors (ct : Address) (e : EventType) (p : Bytes32)
    (reg : ReputationRegistry) :
    (afterUpdate ct e p reg).authorizedAuditors = reg.authorizedAuditors := by
  unfold afterUpdate
  split <;> rfl

theorem afterUpdate_registered {ct : Address} (e : EventType) (p : Bytes32)
    {reg : ReputationRegistry} (h : (reg.states ct).isRegistered = true) :
    ((afterUpdate ct e p reg).states ct).isRegistered = true := by
  rw [afterUpdate_record]
  split
  next => exact h
  next =>
    rw [nextState_isRegistered]
    exact h

/-- The record a report leaves: of a fault that is turned down, the old one. -/
theorem record_commit {msg : Msg} {ct : Address} (e : EventType) (p : Bytes32)
    {reg : ReputationRegistry} (hinv : RegistryInv reg)
    (hauth : reg.authorizedAuditors msg.sender = true)
    (hreg : (reg.states ct).isRegistered = true) :
    commit exec reg ⟨msg, .updateState ct e p⟩ = afterUpdate ct e p reg
      ∨ e = .INVALID ∧ commit exec reg ⟨msg, .updateState ct e p⟩ = reg := by
  by_cases he : e = .INVALID
  · cases hx : exec ⟨msg, .updateState ct e p⟩ reg with
    | ok reg' =>
      left
      rw [commit_of_ok hx]
      exact (updateState_eq_ok hx).2
    | error err => exact Or.inr ⟨he, commit_of_error hx⟩
  · -- only a fault moves amounts, so only a fault can overflow
    left
    obtain ⟨reg', hx⟩ := updateState_ok e p hauth hreg (hinv.records ct hreg)
      (fun hc => absurd hc he) (fun hc => absurd hc he)
    have hexec : exec ⟨msg, .updateState ct e p⟩ reg = .ok reg' := hx
    rw [commit_of_ok hexec]
    exact (updateState_eq_ok hx).2

theorem registryInv_commit (tx : Tx) {reg : ReputationRegistry} (hinv : RegistryInv reg) :
    RegistryInv (commit exec reg tx) :=
  run_invariant (fun _ _ _ hinv h => registryInv_step hinv h) [tx] hinv

/-- **One report on each side.** -/
theorem follows_commit {msg : Msg} {ct : Address} {e e' : EventType} {p : Bytes32}
    {reg₀ reg₁ reg₀' : ReputationRegistry} (h : Follows ct reg₀ reg₁)
    (he : e' = .INVALID → e = .INVALID)
    (hlead : Leads (reg₀.states ct) (reg₁.states ct) →
      Leads (nextState e (reg₀.states ct)) (nextState e' (reg₁.states ct)))
    (hexec : updateState msg ct e p reg₀ = .ok reg₀') :
    Follows ct reg₀' (commit exec reg₁ ⟨msg, .updateState ct e' p⟩) := by
  have hauth : reg₁.authorizedAuditors msg.sender = true := by
    rw [h.auditors]
    exact authorized_of_updateState hexec
  have hinv₀ : RegistryInv reg₀' := by
    have htx : exec ⟨msg, .updateState ct e p⟩ reg₀ = .ok reg₀' := hexec
    exact registryInv_step h.inv₀ htx
  have hinv₁ := registryInv_commit ⟨msg, .updateState ct e' p⟩ h.inv₁
  obtain ⟨-, rfl⟩ := updateState_eq_ok hexec
  have hrec₀ := afterUpdate_record ct e p reg₀
  have haud₀ := afterUpdate_auditors ct e p reg₀
  have hreg₀ := afterUpdate_registered e p h.registered₀
  rcases record_commit e' p h.inv₁ hauth h.registered₁ with hafter | ⟨hfault, hsame⟩
  · rw [hafter] at hinv₁ ⊢
    refine ⟨hinv₀, hinv₁, ?_, hreg₀, afterUpdate_registered e' p h.registered₁, ?_⟩
    · rw [haud₀, afterUpdate_auditors, h.auditors]
    · rw [hrec₀, afterUpdate_record]
      by_cases hj : (reg₀.states ct).isJailed = true
      · rw [if_pos hj]
        exact Or.inl hj
      · rcases h.ahead with hj₀ | ⟨hfree, hleads⟩
        · exact absurd hj₀ hj
        · rw [if_neg hj, if_neg (by rw [hfree]; decide)]
          exact ahead_of_leads (h.inv₀.records ct h.registered₀) (h.inv₁.records ct h.registered₁)
            (Bool.eq_false_iff.mpr hj) hfree he (hlead hleads)
  · -- the modified run turned the fault down: it loses nothing
    rw [hsame] at hinv₁ ⊢
    obtain rfl := he hfault
    refine ⟨hinv₀, hinv₁, ?_, hreg₀, h.registered₁, ?_⟩
    · rw [haud₀, h.auditors]
    · rw [hrec₀]
      by_cases hj : (reg₀.states ct).isJailed = true
      · rw [if_pos hj]
        exact Or.inl hj
      · rcases h.ahead with hj₀ | ⟨hfree, hleads⟩
        · exact absurd hj₀ hj
        · rw [if_neg hj]
          exact Or.inr ⟨hfree, leads_fault hleads⟩

/-! ## §4. Two runs. -/

/-- A reported event: the call, the event and the proof hash. -/
structure Report where
  msg : Msg
  event : EventType
  proofHash : Bytes32
  deriving DecidableEq, Repr

/-- The report of an honest round instead. -/
def Report.honest (r : Report) : Report := { r with event := .VALID }

/-- The transactions that report events of `ct`. -/
def reports (ct : Address) (rs : List Report) : List Tx :=
  rs.map (fun r => ⟨r.msg, .updateState ct r.event r.proofHash⟩)

/-- The amounts an event of `ct` moves fit their words. -/
structure Covered (ct : Address) (reg : ReputationRegistry) : Prop where
  registered : (reg.states ct).isRegistered = true
  stake : (reg.states ct).stakedAmount < 2 ^ 128
  pool : reg.totalSlashedPool + (reg.states ct).stakedAmount < 2 ^ 256

theorem covered_afterUpdate {ct : Address} (e : EventType) (p : Bytes32)
    {reg : ReputationRegistry} (h : Covered ct reg) : Covered ct (afterUpdate ct e p reg) := by
  have hrec := afterUpdate_record ct e p reg
  refine ⟨afterUpdate_registered e p h.registered, ?_, ?_⟩
  · rw [hrec]
    split
    next => exact h.stake
    next =>
      rw [nextState_stakedAmount]
      have hstake := h.stake
      omega
  · rw [hrec]
    by_cases hj : (reg.states ct).isJailed = true
    · rw [if_pos hj, afterUpdate, if_pos hj]
      exact h.pool
    · -- what leaves the stake enters the pool
      have hle := slashed_le e (reg.states ct)
      have hpool := h.pool
      rw [if_neg hj, nextState_stakedAmount, afterUpdate, if_neg hj]
      show reg.totalSlashedPool + slashed e (reg.states ct)
        + ((reg.states ct).stakedAmount - slashed e (reg.states ct)) < 2 ^ 256
      omega

/-- **Any sequence of events is taken**, if authorized auditors report it. -/
theorem reports_taken {ct : Address} (rs : List Report) :
    ∀ {reg : ReputationRegistry}, RegistryInv reg → Covered ct reg →
    (∀ r ∈ rs, reg.authorizedAuditors r.msg.sender = true) →
    Taken exec reg (reports ct rs) := by
  induction rs with
  | nil =>
    intro reg _ _ _
    exact trivial
  | cons r rs ih =>
    intro reg hinv hcov hauth
    obtain ⟨reg', hup⟩ := updateState_ok r.event r.proofHash (hauth r List.mem_cons_self)
      hcov.registered (hinv.records ct hcov.registered) (fun _ => hcov.stake)
      (fun _ => hcov.pool)
    have hexec : exec ⟨r.msg, .updateState ct r.event r.proofHash⟩ reg = .ok reg' := hup
    refine ⟨isOk_of_eq hexec, ?_⟩
    rw [commit_of_ok hexec]
    have hinv' := registryInv_step hinv hexec
    obtain ⟨-, rfl⟩ := updateState_eq_ok hup
    apply ih hinv' (covered_afterUpdate r.event r.proofHash hcov)
    intro r' hr'
    rw [afterUpdate_auditors]
    exact hauth r' (List.mem_cons_of_mem r hr')

/-- A common continuation keeps the modified registry ahead. -/
theorem follows_run {ct : Address} {reg₀ reg₁ : ReputationRegistry} (rs : List Report)
    (h : Follows ct reg₀ reg₁) (htaken : Taken exec reg₀ (reports ct rs)) :
    Follows ct (run exec reg₀ (reports ct rs)) (run exec reg₁ (reports ct rs)) := by
  refine run_relation (R := Follows ct) (reports ct rs) ?_ h htaken
  intro tx htx s t s' hst hexec
  obtain ⟨r, -, rfl⟩ := List.mem_map.mp htx
  exact follows_commit hst (fun hc => hc) (leads_next r.event) hexec

/-- The replaced event puts the modified registry ahead. -/
theorem follows_honest {ct : Address} {reg : ReputationRegistry} (r : Report)
    (h : Follows ct reg reg) (hok : (exec ⟨r.msg, .updateState ct r.event r.proofHash⟩ reg).isOk = true) :
    Follows ct (commit exec reg ⟨r.msg, .updateState ct r.event r.proofHash⟩)
      (commit exec reg ⟨r.msg, .updateState ct .VALID r.proofHash⟩) := by
  apply follows_commit h
  · intro hc
    exact absurd hc (by decide)
  · intro _
    exact leads_valid r.event (h.inv₀.records ct h.registered₀)
  · exact exec_eq_ok_commit hok

/-- The reports `rs'` leave `ct` no worse than the reports `rs`: in effective reputation, and
jailed only if those do too. -/
def NotWorse (ct : Address) (reg : ReputationRegistry) (rs rs' : List Report) : Prop :=
  ∃ R R', getEffectiveReputation ct (run exec reg (reports ct rs)) = .ok R
    ∧ getEffectiveReputation ct (run exec reg (reports ct rs')) = .ok R'
    ∧ R ≤ R'
    ∧ (((run exec reg (reports ct rs')).states ct).isJailed = true →
        ((run exec reg (reports ct rs)).states ct).isJailed = true)

/-- **Honest behaviour is never worse.**  From any reachable registry, for any sequence of
events of a committer that are taken: one of them replaced by VALID, the committer ends no
worse. -/
theorem honest_not_worse (deployer : Address) (ts : List Tx) (ct : Address)
    (before : List Report) (r : Report) (after : List Report)
    (hcommitter : ((run exec (deploy deployer) ts).states ct).isRegistered = true)
    (htaken : Taken exec (run exec (deploy deployer) ts) (reports ct (before ++ r :: after))) :
    NotWorse ct (run exec (deploy deployer) ts) (before ++ r :: after)
      (before ++ r.honest :: after) := by
  have hinv := registryInv_run deployer ts
  generalize run exec (deploy deployer) ts = reg at *
  have hsplit : ∀ r, reports ct (before ++ r :: after)
      = reports ct before ++ (⟨r.msg, .updateState ct r.event r.proofHash⟩ :: reports ct after) := by
    intro r
    unfold reports
    rw [List.map_append, List.map_cons]
  unfold NotWorse
  rw [hsplit] at htaken ⊢
  rw [hsplit, run_append, run_append, run_cons, run_cons]
  obtain ⟨htaken₁, hok, htaken₂⟩ := (stepsMeet_append reg _ _).mp htaken
  -- the common prefix, the replaced event, the common suffix
  have hprefix := follows_run before (follows_refl hinv hcommitter) htaken₁
  have hreplaced := follows_honest r hprefix hok
  have hend := follows_run after hreplaced htaken₂
  refine ⟨_, _, getEffectiveReputation_ok hend.inv₀ ct, getEffectiveReputation_ok hend.inv₁ ct,
    ?_, ?_⟩
  · exact hend.ahead.effective_le (hend.inv₀.records ct hend.registered₀)
      (hend.inv₁.records ct hend.registered₁)
  · exact hend.ahead.jailed

/-- A report on the deployer by the deployer. -/
def genesisReport (e : EventType) : Report := ⟨⟨1, 0, 0, true⟩, e, 7⟩

/-- The genesis committer's third round faulty, or honest. -/
theorem genesis_honest_not_worse :
    NotWorse 1 (run exec (deploy 1) [])
      ([genesisReport .VALID, genesisReport .MISSING]
        ++ genesisReport .INVALID :: [genesisReport .VALID])
      ([genesisReport .VALID, genesisReport .MISSING]
        ++ (genesisReport .INVALID).honest :: [genesisReport .VALID]) := by
  have hgenesis : (deploy 1).states 1 = genesisState := deploy_states_self 1
  apply honest_not_worse 1 [] 1
  · rw [run_nil, hgenesis]
    rfl
  · refine reports_taken _ (registryInv_run 1 []) ⟨?_, ?_, ?_⟩ ?_
    · rw [run_nil, hgenesis]
      rfl
    · rw [run_nil, hgenesis]
      show (0 : Nat) < 2 ^ 128
      norm_num
    · rw [run_nil, hgenesis]
      show (0 : Nat) + 0 < 2 ^ 256
      norm_num
    · -- every report comes from the deployer
      intro r hr
      have hsender : r.msg.sender = 1 := by
        simp only [List.cons_append, List.nil_append, List.mem_cons, List.not_mem_nil,
          or_false] at hr
        rcases hr with rfl | rfl | rfl | rfl <;> rfl
      rw [hsender]
      decide

end HZKA.ReputationRegistry
