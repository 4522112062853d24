/-
  HZKA.Reputation.Refinement
  ────────────
  **THE CONTRACT AGAINST THE CANONICAL MACHINE.**

  Both run on one event sequence (`lockstep`): the registry by `updateState` on
  one committer, the simulator by `MFPoP.step`.  They `Agree` when the jail flags
  and the fault counts coincide and the two election weights vanish together.

  The two differ in the convex step (`A_H` is 0.0016 in the contract, 0.016 in the
  simulator), in the floor of a missed round and in the eligibility rule.  What
  that amounts to is exact:

    • `jails_iff_base_lt`, `MFPoP.step_jailed_iff` — a fault jails by comparing the
      base reputation with `0.015 · 2^(V+1)`, on both sides;
    • `agree_step_iff` — one event keeps the agreement exactly when both bases are
      on the same side of that threshold, resp. when the simulator stays eligible;
    • `lockstep_agrees_iff` — the same for a whole sequence;
    • `lockstep_disagrees` — and there are short sequences on which they part.
-/
import HZKA.Reputation.Registration
import HZKA.Simulator.MFPoP

namespace HZKA.ReputationRegistry

open HZKA.Lib HZKA.EVM

/-! ## §1. The two machines side by side. -/

/-- The event in the simulator. -/
def simEvent : EventType → SimEvent
  | .VALID => .valid
  | .INVALID => .invalid
  | .MISSING => .missing

/-- One event, with the proof hash it is reported under, on both machines. -/
def lockstep (msg : Msg) (ct : Address) (i : EventType × Bytes32)
    (x : ReputationRegistry × MFPoP) : Except Revert (ReputationRegistry × MFPoP) := do
  let reg ← updateState msg ct i.1 i.2 x.1
  return (reg, (MFPoP.step (simEvent i.1) x.2).1)

/-- Same jail flag, same fault count, election weights zero together. -/
structure Agree (ct : Address) (x : ReputationRegistry × MFPoP) : Prop where
  jailed : (x.1.states ct).isJailed = x.2.jailed
  faults : (x.1.states ct).cumulativeV = x.2.v
  weight : getElectionWeight ct x.1 = .ok 0 ↔ x.2.electionWeight MFPoP.NU MFPoP.W_MAX = 0

/-- What stays true of the pair whether or not the machines agree. -/
structure FeedInv (msg : Msg) (ct : Address) (x : ReputationRegistry × MFPoP) : Prop where
  authorized : x.1.authorizedAuditors msg.sender = true
  registered : (x.1.states ct).isRegistered = true
  record : RecordInv (x.1.states ct)
  stake : (x.1.states ct).stakedAmount < 2 ^ 128
  pool : x.1.totalSlashedPool + (x.1.states ct).stakedAmount < 2 ^ 256
  phi : MFPoP.PhiInv x.2

/-- A jailed committer, and only a jailed one, has no election weight. -/
theorem getElectionWeight_eq_zero_iff {ct : Address} {reg : ReputationRegistry}
    (h : RecordInv (reg.states ct)) :
    getElectionWeight ct reg = .ok 0 ↔ (reg.states ct).isJailed = true := by
  unfold getElectionWeight
  dsimp only
  split
  next hj => exact ⟨fun _ => hj, fun _ => rfl⟩
  next hj =>
    refine ⟨fun hzero => ?_, fun hc => absurd hc hj⟩
    simp only [bind_eq_ok, pure_eq_ok] at hzero
    obtain ⟨r, hr, hw⟩ := hzero
    have hmin : R_MIN ≤ r := by
      rw [getEffectiveR_eq_ok hr]
      exact h.effective_bounds.1
    simp only [R_MIN, W_MAX] at *
    split_ifs at hw
    omega

/-! ## §2. The jail threshold of the contract. -/

/-- **A fault jails by the base reputation alone**: with `φ` an exact power of two
the product test is a comparison of `R_base` with the scaled threshold. -/
theorem jails_iff_base_lt {s : StateSnapshot} (h : RecordInv s) (hfree : s.isJailed = false) :
    jails .INVALID s = true ↔ s.baseReputation < (R_JAIL + 1) * 2 ^ (s.cumulativeV + 1) := by
  have hhalf := mult_halves (h.free_faults hfree) h.mult_eq
  -- the halved multiplier divides 10¹⁸, so it cancels
  have hcancel : s.baseReputation * (Q_S * s.safetyMult / PRECISION) / PRECISION
      = s.baseReputation / 2 ^ (s.cumulativeV + 1) := by
    have hpos : 0 < Q_S * s.safetyMult / PRECISION := by
      rcases Nat.eq_zero_or_pos (Q_S * s.safetyMult / PRECISION) with hz | hz
      · rw [hz, Nat.zero_mul] at hhalf
        simp [PRECISION] at hhalf
      · exact hz
    generalize Q_S * s.safetyMult / PRECISION = m at *
    rw [← hhalf, Nat.mul_comm s.baseReputation, Nat.mul_div_mul_left _ _ hpos]
  have heff : effective (faultState .INVALID (movedState .INVALID s))
      = max R_MIN (s.baseReputation / 2 ^ (s.cumulativeV + 1)) := by
    have hj : (faultState .INVALID (movedState .INVALID s)).isJailed = false := by
      rw [faultState_isJailed]
      simp only [movedState, hfree]
    rw [← hcancel, effective, hj, if_neg (by decide), faultState_baseReputation]
    simp only [faultState, movedState, nextBase]
  unfold jails
  rw [decide_eq_true_iff, heff, ← Nat.div_lt_iff_lt_mul (Nat.two_pow_pos _)]
  simp only [R_MIN, R_JAIL, true_and]
  omega

/-! ## §3. One event. -/

/-- The two machines are on the same side: before a fault, both base reputations
jail or neither does; before another event, the simulator stays eligible. -/
def SameSide (ct : Address) (x : ReputationRegistry × MFPoP) (i : EventType × Bytes32) : Prop :=
  x.2.jailed = false →
    match i.1 with
    | .VALID =>
      MFPoP.R_ELIG * 2 ^ x.2.v < (1 - MFPoP.A_H) * x.2.rBase
        + MFPoP.A_H * MFPoP.quality (MFPoP.nextHistory .valid x.2)
    | .MISSING => MFPoP.R_ELIG * 2 ^ x.2.v < MFPoP.Q_L * x.2.rBase
    | .INVALID =>
      (x.1.states ct).baseReputation < (R_JAIL + 1) * 2 ^ (x.2.v + 1)
        ↔ x.2.rBase ≤ MFPoP.R_JAIL * 2 ^ (x.2.v + 1)

/-- While at most six faults stand, the clamps of the simulator never decide
eligibility. -/
theorem elig_lt_nextBase_iff {s : MFPoP} {e : EventType} (he : e ≠ .INVALID) (hv : s.v ≤ 6) :
    MFPoP.R_ELIG * 2 ^ s.v < MFPoP.nextBase (simEvent e) s
      ↔ match e with
        | .VALID => MFPoP.R_ELIG * 2 ^ s.v < (1 - MFPoP.A_H) * s.rBase
            + MFPoP.A_H * MFPoP.quality (MFPoP.nextHistory .valid s)
        | .MISSING => MFPoP.R_ELIG * 2 ^ s.v < MFPoP.Q_L * s.rBase
        | .INVALID => True := by
  have hlow : MFPoP.R_MIN < MFPoP.R_ELIG * 2 ^ s.v := by
    have hone : (1 : ℚ) ≤ 2 ^ s.v := one_le_pow₀ (by norm_num)
    rw [MFPoP.R_MIN, MFPoP.R_ELIG]
    linarith
  have hhigh : MFPoP.R_ELIG * 2 ^ s.v < MFPoP.R_MAX := by
    have hpow : (2 : ℚ) ^ s.v ≤ 2 ^ 6 := pow_le_pow_right₀ (by norm_num) hv
    rw [MFPoP.R_MAX, MFPoP.R_ELIG]
    linarith
  cases e with
  | INVALID => exact absurd rfl he
  | VALID => simp [simEvent, MFPoP.nextBase, hhigh, not_lt.mpr hlow.le]
  | MISSING => simp [simEvent, MFPoP.nextBase, not_lt.mpr hlow.le]

theorem simEvent_eq_invalid {e : EventType} : simEvent e = .invalid ↔ e = .INVALID := by
  cases e <;> simp [simEvent]

/-- The simulator after a step, as far as agreement reads it. -/
theorem sim_zero_weight_iff {s : MFPoP} (hphi : MFPoP.PhiInv s) (hfree : s.jailed = false)
    (e : EventType) :
    (MFPoP.step (simEvent e) s).1.electionWeight MFPoP.NU MFPoP.W_MAX = 0
      ↔ MFPoP.nextBase (simEvent e) s
        ≤ MFPoP.R_ELIG * 2 ^ (s.v + if e = .INVALID then 1 else 0) := by
  have hphi' := MFPoP.phiInv_step (simEvent e) hphi
  have hraw : (MFPoP.step (simEvent e) s).1.rawReputation ≤ MFPoP.R_ELIG
      ↔ MFPoP.nextBase (simEvent e) s
        ≤ MFPoP.R_ELIG * 2 ^ (s.v + if e = .INVALID then 1 else 0) := by
    rw [MFPoP.rawReputation, hphi'.mul_phi_le_iff, MFPoP.step_rBase _ hfree,
      MFPoP.step_v _ hfree]
    simp only [simEvent_eq_invalid]
  rw [MFPoP.electionWeight_eq_zero_iff, MFPoP.step_jailed_iff _ hfree, hraw]
  refine ⟨?_, Or.inr⟩
  rintro (⟨he, hjail⟩ | hle)
  · -- a jailing fault leaves the raw reputation at or below the threshold
    rw [← hraw, MFPoP.rawReputation, MFPoP.step_rBase _ hfree, MFPoP.step_phi _ hfree,
      if_pos he, he]
    exact hjail
  · exact hle

/-- Both sides move. -/
theorem lockstep_eq_ok {msg : Msg} {ct : Address} {i : EventType × Bytes32}
    {x y : ReputationRegistry × MFPoP} (h : lockstep msg ct i x = .ok y) :
    updateState msg ct i.1 i.2 x.1 = .ok y.1 ∧ y.2 = (MFPoP.step (simEvent i.1) x.2).1 := by
  simp only [lockstep, bind_eq_ok, pure_eq_ok] at h
  obtain ⟨reg, hreg, rfl⟩ := h
  exact ⟨hreg, rfl⟩

/-- **One step** keeps the feed. -/
theorem feedInv_step {msg : Msg} {ct : Address} {i : EventType × Bytes32}
    {x y : ReputationRegistry × MFPoP} (hinv : FeedInv msg ct x)
    (h : lockstep msg ct i x = .ok y) : FeedInv msg ct y := by
  obtain ⟨hup, hsim⟩ := lockstep_eq_ok h
  obtain ⟨_, hreg⟩ := updateState_eq_ok hup
  have hphi : MFPoP.PhiInv y.2 := by
    rw [hsim]
    exact MFPoP.phiInv_step _ hinv.phi
  by_cases hj : (x.1.states ct).isJailed = true
  · rw [afterUpdate, if_pos hj] at hreg
    refine ⟨?_, ?_, ?_, ?_, ?_, hphi⟩ <;> rw [hreg]
    exacts [hinv.authorized, hinv.registered, hinv.record, hinv.stake, hinv.pool]
  · have hrec : y.1.states ct = nextState i.1 (x.1.states ct) := by
      rw [hreg, afterUpdate_record, if_neg hj]
    have hle := slashed_le i.1 (x.1.states ct)
    have hstake := hinv.stake
    have hpool := hinv.pool
    rw [afterUpdate, if_neg hj] at hreg
    refine ⟨?_, ?_, ?_, ?_, ?_, hphi⟩
    · rw [hreg]
      exact hinv.authorized
    · rw [hrec, nextState_isRegistered]
      exact hinv.registered
    · rw [hrec]
      exact recordInv_nextState i.1 hinv.record (Bool.eq_false_iff.mpr hj)
    · rw [hrec, nextState_stakedAmount]
      omega
    · -- what leaves the stake enters the pool
      have hp : y.1.totalSlashedPool
          = x.1.totalSlashedPool + slashed i.1 (x.1.states ct) := by rw [hreg]
      rw [hrec, nextState_stakedAmount, hp]
      omega

/-- No update of a fed committer reverts. -/
theorem lockstep_ok {msg : Msg} {ct : Address} {x : ReputationRegistry × MFPoP}
    (hinv : FeedInv msg ct x) (i : EventType × Bytes32) :
    ∃ y, lockstep msg ct i x = .ok y := by
  obtain ⟨reg, hreg⟩ := updateState_ok i.1 i.2 hinv.authorized hinv.registered hinv.record
    (fun _ => hinv.stake) (fun _ => hinv.pool)
  refine ⟨(reg, (MFPoP.step (simEvent i.1) x.2).1), ?_⟩
  unfold lockstep
  rw [hreg]
  rfl

/-- On a fault, agreement after it is agreement of the two jail tests. -/
theorem sameSide_fault_iff {ct : Address} {x : ReputationRegistry × MFPoP}
    (hrec : RecordInv (x.1.states ct)) (hphi : MFPoP.PhiInv x.2)
    (hfree : (x.1.states ct).isJailed = false) (hsim : x.2.jailed = false)
    (hv : (x.1.states ct).cumulativeV = x.2.v) :
    (jails .INVALID (x.1.states ct) = true ↔ (MFPoP.step .invalid x.2).1.jailed = true)
      ↔ ((x.1.states ct).baseReputation < (R_JAIL + 1) * 2 ^ (x.2.v + 1)
          ↔ x.2.rBase ≤ MFPoP.R_JAIL * 2 ^ (x.2.v + 1)) := by
  have hhalf : x.2.rBase * (x.2.phi * MFPoP.Q_S) ≤ MFPoP.R_JAIL
      ↔ x.2.rBase ≤ MFPoP.R_JAIL * 2 ^ (x.2.v + 1) := by
    have hscaled := hphi.mul_phi_le_iff (x.2.rBase * MFPoP.Q_S) MFPoP.R_JAIL
    rw [MFPoP.Q_S] at hscaled ⊢
    rw [pow_succ]
    constructor
    · intro hle
      have := hscaled.mp (by linarith)
      linarith
    · intro hle
      have := hscaled.mpr (by linarith)
      linarith
  rw [jails_iff_base_lt hrec hfree, MFPoP.step_jailed_iff _ hsim, hhalf, hv]
  simp only [true_and]

section OneEvent

variable {msg : Msg} {ct : Address} {x y : ReputationRegistry × MFPoP}

/-- The record after one step. -/
theorem lockstep_record {i : EventType × Bytes32} (h : lockstep msg ct i x = .ok y) :
    y.1.states ct = if (x.1.states ct).isJailed then x.1.states ct
      else nextState i.1 (x.1.states ct) := by
  obtain ⟨hup, _⟩ := lockstep_eq_ok h
  obtain ⟨_, hreg⟩ := updateState_eq_ok hup
  rw [hreg, afterUpdate_record]

/-- A jailed pair is frozen on both sides. -/
theorem agree_of_frozen {i : EventType × Bytes32} (hinv : FeedInv msg ct x) (hag : Agree ct x)
    (hj : x.2.jailed = true) (h : lockstep msg ct i x = .ok y) : Agree ct y := by
  have hweight := getElectionWeight_eq_zero_iff (feedInv_step hinv h).record
  have hrec := lockstep_record h
  have hsim := (lockstep_eq_ok h).2
  have hcj : (x.1.states ct).isJailed = true := by rw [hag.jailed, hj]
  rw [hcj, if_pos rfl] at hrec
  rw [MFPoP.step_of_jailed _ hj] at hsim
  refine ⟨?_, ?_, ?_⟩
  · rw [hrec, hsim, hag.jailed]
  · rw [hrec, hsim, hag.faults]
  · rw [hweight, hrec, hsim, MFPoP.electionWeight_eq_zero_iff, hcj, hj]
    simp

/-- An event on a pair that is not jailed: the contract's jail flag is its jail test, and the
fault counts stay equal. -/
theorem lockstep_free {i : EventType × Bytes32} (hag : Agree ct x) (hj : x.2.jailed = false)
    (h : lockstep msg ct i x = .ok y) :
    (y.1.states ct).isJailed = jails i.1 (x.1.states ct)
      ∧ (y.1.states ct).cumulativeV = y.2.v := by
  have hrec := lockstep_record h
  have hsim := (lockstep_eq_ok h).2
  have hcj : (x.1.states ct).isJailed = false := by rw [hag.jailed, hj]
  rw [hcj, if_neg (by decide)] at hrec
  constructor
  · rw [hrec, nextState_isJailed, hcj, Bool.false_or]
  · rw [hrec, hsim, cumulativeV_nextState, MFPoP.step_v _ hj, hag.faults]
    simp only [simEvent_eq_invalid]

/-- A faulted simulator has weight zero exactly when it is jailed. -/
theorem sim_fault_weight_iff {s : MFPoP} (hphi : MFPoP.PhiInv s) (hj : s.jailed = false) :
    (MFPoP.step .invalid s).1.electionWeight MFPoP.NU MFPoP.W_MAX = 0
      ↔ (MFPoP.step .invalid s).1.jailed = true := by
  have hzero := sim_zero_weight_iff hphi hj .INVALID
  have hcmp := (MFPoP.phiInv_step .invalid hphi).mul_phi_le_iff s.rBase MFPoP.R_JAIL
  rw [MFPoP.step_phi _ hj, MFPoP.step_v _ hj, if_pos rfl] at hcmp
  simp only [simEvent, if_pos] at hzero
  rw [hzero, MFPoP.step_jailed_iff _ hj]
  simp only [true_and]
  exact hcmp.symm

/-- After a fault they agree exactly if both jail or neither does. -/
theorem agree_after_fault {proofHash : Bytes32} (hinv : FeedInv msg ct x) (hag : Agree ct x)
    (hj : x.2.jailed = false) (h : lockstep msg ct (.INVALID, proofHash) x = .ok y) :
    Agree ct y ↔ (jails .INVALID (x.1.states ct) = true
      ↔ (MFPoP.step .invalid x.2).1.jailed = true) := by
  have hweight := getElectionWeight_eq_zero_iff (feedInv_step hinv h).record
  have hsim : y.2 = (MFPoP.step .invalid x.2).1 := (lockstep_eq_ok h).2
  have hzero := sim_fault_weight_iff hinv.phi hj
  obtain ⟨hflag, hfaults⟩ := lockstep_free hag hj h
  rw [← hsim] at hzero
  constructor
  · intro hy
    rw [← hflag, hy.jailed, hsim]
  · intro hy
    have hsame : (y.1.states ct).isJailed = y.2.jailed := by
      rw [hflag, hsim, Bool.eq_iff_iff]
      exact hy
    exact ⟨hsame, hfaults, by rw [hweight, hzero, hsame]⟩

/-- After another event nobody is jailed, and they agree exactly if the simulator stays
eligible. -/
theorem agree_after_other {e : EventType} {proofHash : Bytes32} (he : e ≠ .INVALID)
    (hinv : FeedInv msg ct x) (hag : Agree ct x) (hj : x.2.jailed = false)
    (h : lockstep msg ct (e, proofHash) x = .ok y) :
    Agree ct y ↔ MFPoP.R_ELIG * 2 ^ x.2.v < MFPoP.nextBase (simEvent e) x.2 := by
  have hweight := getElectionWeight_eq_zero_iff (feedInv_step hinv h).record
  have hsim : y.2 = (MFPoP.step (simEvent e) x.2).1 := (lockstep_eq_ok h).2
  have hzero := sim_zero_weight_iff hinv.phi hj e
  obtain ⟨hflag, hfaults⟩ := lockstep_free hag hj h
  have hcfree : (y.1.states ct).isJailed = false := by rw [hflag, jails_eq_false he]
  have hsfree : y.2.jailed = false := by
    rw [hsim, Bool.eq_false_iff]
    intro hc
    exact he (simEvent_eq_invalid.mp ((MFPoP.step_jailed_iff _ hj).mp hc).1)
  rw [if_neg he, Nat.add_zero] at hzero
  rw [← not_le, ← hzero, ← hsim]
  constructor
  · intro hy hc
    have hjailed := hweight.mp (hy.weight.mpr hc)
    rw [hcfree] at hjailed
    exact absurd hjailed (by decide)
  · intro hy
    refine ⟨by rw [hcfree, hsfree], hfaults, ?_⟩
    rw [hweight, hcfree]
    exact ⟨fun hc => absurd hc (by decide), fun hc => absurd hc hy⟩

/-- **One event keeps the agreement exactly when it finds both on the same side.** -/
theorem agree_step_iff {i : EventType × Bytes32} (hinv : FeedInv msg ct x) (hag : Agree ct x)
    (h : lockstep msg ct i x = .ok y) : Agree ct y ↔ SameSide ct x i := by
  obtain ⟨e, p⟩ := i
  cases hj : x.2.jailed with
  | true =>
    have hagree := agree_of_frozen hinv hag hj h
    exact iff_of_true hagree fun hc => absurd (hj.symm.trans hc) (by decide)
  | false =>
    have hcj : (x.1.states ct).isJailed = false := by rw [hag.jailed, hj]
    have hsv : x.2.v ≤ 6 := by
      rw [← hag.faults]
      exact hinv.record.free_faults hcj
    by_cases he : e = .INVALID
    · subst he
      rw [agree_after_fault hinv hag hj h,
        sameSide_fault_iff hinv.record hinv.phi hcj hj hag.faults]
      exact ⟨fun hs _ => hs, fun hs => hs hj⟩
    · rw [agree_after_other he hinv hag hj h, elig_lt_nextBase_iff he hsv]
      cases e with
      | INVALID => exact absurd rfl he
      | VALID => exact ⟨fun hs _ => hs, fun hs => hs hj⟩
      | MISSING => exact ⟨fun hs _ => hs, fun hs => hs hj⟩

end OneEvent

/-! ## §4. Whole sequences. -/

/-- The simulator as registration starts it. -/
def simStart : MFPoP := MFPoP.init MFPoP.R_INITIAL 1

theorem agree_start {ct : Address} {reg : ReputationRegistry} {value round : Nat}
    {endorsers : Address × Address}
    (hstate : reg.states ct = registrationState value round endorsers) :
    Agree ct (reg, simStart) := by
  have hrec : RecordInv (reg.states ct) := by
    rw [hstate]
    exact recordInv_registration value round endorsers
  refine ⟨by rw [hstate]; rfl, by rw [hstate]; rfl, ?_⟩
  rw [getElectionWeight_eq_zero_iff hrec, MFPoP.electionWeight_eq_zero_iff, hstate]
  constructor
  · intro hc
    exact absurd hc Bool.false_ne_true
  · rintro (hc | hc)
    · exact absurd hc Bool.false_ne_true
    · exact absurd hc (by norm_num [simStart, MFPoP.init, MFPoP.rawReputation,
        MFPoP.R_INITIAL, MFPoP.R_ELIG])

theorem feedInv_start {msg : Msg} {ct : Address} {reg : ReputationRegistry} {value round : Nat}
    {endorsers : Address × Address}
    (hstate : reg.states ct = registrationState value round endorsers)
    (hauth : reg.authorizedAuditors msg.sender = true) (hvalue : value < 2 ^ 128)
    (hpool : reg.totalSlashedPool < 2 ^ 255) : FeedInv msg ct (reg, simStart) := by
  have hstake : (reg.states ct).stakedAmount = value := by rw [hstate]; rfl
  refine ⟨hauth, by rw [hstate]; rfl, ?_, ?_, ?_, MFPoP.phiInv_init _ _⟩
  · show RecordInv (reg.states ct)
    rw [hstate]
    exact recordInv_registration value round endorsers
  · show (reg.states ct).stakedAmount < 2 ^ 128
    omega
  · show reg.totalSlashedPool + (reg.states ct).stakedAmount < 2 ^ 256
    omega

/-- **When the contract follows the canonical machine.**  Fed the same events from
registration on, the two agree after every event exactly when each event finds them
on the same side. -/
theorem lockstep_agrees_iff (msg : Msg) (ct : Address) (reg : ReputationRegistry)
    (value round : Nat) (endorsers : Address × Address)
    (hstate : reg.states ct = registrationState value round endorsers)
    (hauth : reg.authorizedAuditors msg.sender = true) (hvalue : value < 2 ^ 128)
    (hpool : reg.totalSlashedPool < 2 ^ 255) (es : List (EventType × Bytes32)) :
    (∀ k, Agree ct (run (lockstep msg ct) (reg, simStart) (es.take k)))
      ↔ StepsMeet (lockstep msg ct) (SameSide ct) (reg, simStart) es := by
  refine run_tally_iff (C := SameSide ct) (w := fun _ => 0) (R := fun _ => Agree ct)
    (P := FeedInv msg ct) ?_ ?_ ?_ es 0 _ (feedInv_start hstate hauth hvalue hpool)
    (agree_start hstate)
  · exact fun _ _ _ hinv h => feedInv_step hinv h
  · exact fun _ _ _ _ hinv hag h => agree_step_iff hinv hag h
  · intro x i e hinv herr
    obtain ⟨y, hy⟩ := lockstep_ok hinv i
    rw [hy] at herr
    exact nomatch herr

/-- One fault of a fresh committer: half of `0.5` is above `0.015` for both. -/
theorem lockstep_agrees_first_fault :
    Agree bob (run (lockstep genesisMsg bob) (bobRegistered, simStart)
      [(EventType.INVALID, 7)]) := by
  refine (lockstep_agrees_iff genesisMsg bob bobRegistered ether 1 (genesis, genesis) rfl
    rfl (by decide) (by decide) [(.INVALID, 7)]).mpr ?_ 1
  refine ⟨?_, trivial⟩
  intro _
  show ((bobRegistered.states bob).baseReputation < (R_JAIL + 1) * 2 ^ (simStart.v + 1)
    ↔ simStart.rBase ≤ MFPoP.R_JAIL * 2 ^ (simStart.v + 1))
  decide +kernel

/-- A missed round, a valid one, five faults. -/
def partingEvents : List (EventType × Bytes32) :=
  [(.MISSING, 0), (.VALID, 0), (.INVALID, 1), (.INVALID, 2), (.INVALID, 3), (.INVALID, 4),
    (.INVALID, 5)]

/-- **They part**: the valid round lifts the simulator's base over `0.48`, the
contract's ten times smaller step does not, and the fifth fault jails only there. -/
theorem lockstep_disagrees :
    ¬ ∀ (msg : Msg) (ct : Address) (reg : ReputationRegistry) (value round : Nat)
        (endorsers : Address × Address),
        reg.states ct = registrationState value round endorsers →
        reg.authorizedAuditors msg.sender = true → value < 2 ^ 128 →
        reg.totalSlashedPool < 2 ^ 255 → ∀ (es : List (EventType × Bytes32)) (k : Nat),
        Agree ct (run (lockstep msg ct) (reg, simStart) (es.take k)) := by
  intro hall
  have h := (hall genesisMsg bob bobRegistered ether 1 (genesis, genesis) rfl
    rfl (by decide) (by decide) partingEvents 7).jailed
  have hparted : ((run (lockstep genesisMsg bob) (bobRegistered, simStart)
        (partingEvents.take 7)).1.states bob).isJailed = true
      ∧ (run (lockstep genesisMsg bob) (bobRegistered, simStart)
        (partingEvents.take 7)).2.jailed = false := by
    decide +kernel
  obtain ⟨hcontract, hsim⟩ := hparted
  rw [hcontract, hsim] at h
  exact absurd h (by decide)

end HZKA.ReputationRegistry
