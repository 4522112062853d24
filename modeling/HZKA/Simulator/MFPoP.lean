/-
  HZKA.Simulator.MFPoP
  ────────────
  **THE CANONICAL MF-PoP MACHINE** of the protocol simulator
  (`hzka_protocol_sim.py`), read over exact rationals.

  `step` keeps the order of the script: history, base reputation, safety
  multiplier and stake, jail, bookkeeping.  `electionWeight` takes the exponent
  and the cap as the script does, with its defaults.

  What later proofs use of a step is in §3: who is jailed by it and when the
  machine is eligible after it, as conditions on the numbers BEFORE the event.
  §4 is what a machine can have behind it: `Sound` after any events, `Clean` after
  any that are not invalid.
-/
import Mathlib.Data.Rat.Defs
import Mathlib.Algebra.Order.Field.Rat
import Mathlib.Tactic.Linarith
import Mathlib.Tactic.NormNum
import Mathlib.Tactic.LinearCombination
import Mathlib.Tactic.Positivity
import Mathlib.Tactic.Ring

namespace HZKA

/-- The four outcomes the script distinguishes. -/
inductive SimEvent where
  | valid
  | invalid
  | missing
  | unresolved
  deriving DecidableEq, Repr

/-- The reputation state of one committer. -/
structure MFPoP where
  rBase : ℚ
  h : ℚ
  phi : ℚ
  v : Nat
  stake : ℚ
  jailed : Bool
  missedStreak : Nat
  roundsIneligible : Nat

namespace MFPoP

/-! ## §1. Constants and observables. -/

/-- The public floor. -/
def R_MIN : ℚ := 1 / 100
/-- The ceiling. -/
def R_MAX : ℚ := 1
/-- The jail threshold. -/
def R_JAIL : ℚ := 15 / 1000
/-- The eligibility threshold. -/
def R_ELIG : ℚ := 15 / 1000
/-- Where a committer starts. -/
def R_INITIAL : ℚ := 1 / 2
/-- The pace of the base. -/
def A_H : ℚ := 16 / 1000
/-- The memory of the history. -/
def GAMMA : ℚ := 70 / 100
/-- What a missed round leaves. -/
def Q_L : ℚ := 95 / 100
/-- What a fault leaves. -/
def Q_S : ℚ := 50 / 100
/-- The share of stake slashed. -/
def SIGMA : ℚ := 10 / 100
/-- The weight of correctness. -/
def ALPHA_C : ℚ := 6 / 10
/-- The weight of history. -/
def ALPHA_H : ℚ := 3 / 10
/-- The weight of latency. -/
def ALPHA_L : ℚ := 1 / 10
/-- The election cap. -/
def W_MAX : ℚ := 1
/-- The election floor. -/
def W_MIN : ℚ := 1 / 1000000
/-- The election exponent. -/
def NU : Nat := 1

/-- `__init__`. -/
def init (r0 stake : ℚ) : MFPoP where
  rBase := r0
  h := r0
  phi := 1
  v := 0
  stake := stake
  jailed := false
  missedStreak := 0
  roundsIneligible := 0

/-- Before floor and jail. -/
def rawReputation (s : MFPoP) : ℚ := s.rBase * s.phi

/-- What others see. -/
def publicReputation (s : MFPoP) : ℚ :=
  if s.jailed then R_MIN else max R_MIN s.rawReputation

/-- May be elected. -/
def eligible (s : MFPoP) : Bool :=
  !s.jailed && decide (s.rawReputation > R_ELIG)

/-- The capped, jail-gated election weight. -/
def electionWeight (s : MFPoP) (nu : Nat) (wMax : ℚ) : ℚ :=
  if s.jailed || !s.eligible then 0
  else min wMax ((W_MIN + s.publicReputation) ^ nu)

/-! ## §2. The transition. -/

/-- The history after an event. -/
def nextHistory (event : SimEvent) (s : MFPoP) : ℚ :=
  match event with
  | .valid => GAMMA * s.h + (1 - GAMMA)
  | .invalid => GAMMA * s.h
  | _ => s.h

/-- The quality score of a valid round with history `newH`. -/
def quality (newH : ℚ) : ℚ := ALPHA_C * 1 + ALPHA_H * newH + ALPHA_L * 1

/-- The base after an event. -/
def nextBase (event : SimEvent) (s : MFPoP) : ℚ :=
  match event with
  | .valid =>
    min R_MAX (max R_MIN ((1 - A_H) * s.rBase + A_H * quality (nextHistory .valid s)))
  | .missing => max R_MIN (Q_L * s.rBase)
  | _ => s.rBase

/-- One adjudicated event: the new state and the stake slashed this round. -/
def step (event : SimEvent) (s : MFPoP) : MFPoP × ℚ :=
  if s.jailed then (s, 0)
  else
    -- (1) history, (2) base reputation
    let s₂ := { s with h := nextHistory event s, rBase := nextBase event s }
    -- (3) safety multiplier and stake
    let slashed := if event = .invalid then SIGMA * s₂.stake else 0
    let s₃ :=
      if event = .invalid then
        { s₂ with phi := s₂.phi * Q_S, v := s₂.v + 1, stake := s₂.stake - slashed }
      else s₂
    -- (4) jail
    let s₄ :=
      if event = .invalid ∧ s₃.rawReputation ≤ R_JAIL then { s₃ with jailed := true } else s₃
    -- (5) bookkeeping
    let streak :=
      match event with
      | .missing => s₄.missedStreak + 1
      | .valid => 0
      | _ => s₄.missedStreak
    let s₅ := { s₄ with missedStreak := streak }
    let ineligible :=
      if s₅.eligible then s₅.roundsIneligible else s₅.roundsIneligible + 1
    ({ s₅ with roundsIneligible := ineligible }, slashed)

/-! ## §3. What a step does. -/

/-- A jailed state stays. -/
theorem step_of_jailed {s : MFPoP} (event : SimEvent) (hj : s.jailed = true) :
    (step event s).1 = s := by
  rw [step, if_pos hj]

section Free

variable {s : MFPoP} (event : SimEvent) (hfree : s.jailed = false)

include hfree

theorem step_rBase : (step event s).1.rBase = nextBase event s := by
  rw [step, if_neg (by rw [hfree]; decide)]
  cases event <;> simp
  split_ifs <;> rfl

theorem step_v : (step event s).1.v = s.v + if event = .invalid then 1 else 0 := by
  rw [step, if_neg (by rw [hfree]; decide)]
  cases event <;> simp
  split_ifs <;> rfl

theorem step_phi : (step event s).1.phi = if event = .invalid then s.phi * Q_S else s.phi := by
  rw [step, if_neg (by rw [hfree]; decide)]
  cases event <;> simp
  split_ifs <;> rfl

/-- Only an invalid event jails, and it does so by the raw reputation it leaves. -/
theorem step_jailed_iff :
    (step event s).1.jailed = true
      ↔ event = .invalid ∧ s.rBase * (s.phi * Q_S) ≤ R_JAIL := by
  rw [step, if_neg (by rw [hfree]; decide)]
  cases event <;> simp [hfree, rawReputation, nextBase]
  split_ifs with h
  · simp [h]
  · simp [h]

end Free

/-- The multiplier is the fault count's power of two. -/
def PhiInv (s : MFPoP) : Prop := s.phi * 2 ^ s.v = 1

theorem phiInv_init (r0 stake : ℚ) : PhiInv (init r0 stake) := by
  simp [PhiInv, init]

/-- One event keeps the multiplier. -/
theorem phiInv_step (event : SimEvent) {s : MFPoP} (h : PhiInv s) :
    PhiInv (step event s).1 := by
  cases hj : s.jailed with
  | true =>
    rw [step_of_jailed event hj]
    exact h
  | false =>
    unfold PhiInv at h ⊢
    rw [step_phi event hj, step_v event hj]
    split_ifs
    · rw [pow_succ, Q_S]
      linarith
    · exact h

theorem PhiInv.phi_pos {s : MFPoP} (h : PhiInv s) : 0 < s.phi := by
  by_contra hle
  have hpow : (0 : ℚ) < 2 ^ s.v := by positivity
  have hprod : s.phi * 2 ^ s.v ≤ 0 := mul_nonpos_of_nonpos_of_nonneg (not_lt.mp hle) hpow.le
  unfold PhiInv at h
  linarith

/-- Comparing with the raw reputation is comparing with the scaled threshold. -/
theorem PhiInv.mul_phi_le_iff {s : MFPoP} (h : PhiInv s) (b θ : ℚ) :
    b * s.phi ≤ θ ↔ b ≤ θ * 2 ^ s.v := by
  have hphi := h.phi_pos
  have hscale : θ = θ * 2 ^ s.v * s.phi := by
    unfold PhiInv at h
    linear_combination -θ * h
  constructor
  · intro hle
    rw [hscale] at hle
    exact le_of_mul_le_mul_right hle hphi
  · intro hle
    rw [hscale]
    exact mul_le_mul_of_nonneg_right hle hphi.le

/-- The weight vanishes exactly on a jailed or ineligible machine. -/
theorem electionWeight_eq_zero_iff (s : MFPoP) :
    electionWeight s NU W_MAX = 0 ↔ s.jailed = true ∨ s.rawReputation ≤ R_ELIG := by
  unfold electionWeight eligible
  cases hj : s.jailed with
  | true => simp
  | false =>
    by_cases hr : s.rawReputation ≤ R_ELIG
    · simp [hr, not_lt.mpr hr]
    · have hr' : R_ELIG < s.rawReputation := not_le.mp hr
      have hpub : 0 < publicReputation s := by
        rw [publicReputation, hj, if_neg (by decide)]
        exact lt_of_lt_of_le (by norm_num [R_MIN]) (le_max_left _ _)
      have hpos : 0 < min W_MAX ((W_MIN + publicReputation s) ^ NU) := by
        refine lt_min (by norm_num [W_MAX]) ?_
        have : (0 : ℚ) < W_MIN := by norm_num [W_MIN]
        positivity
      simp [hr, hr', hpos.ne']

/-! ## §4. What a machine can have behind it. -/

/-- Jailed is for good. -/
theorem jailed_step (event : SimEvent) {s : MFPoP} (hj : s.jailed = true) :
    (step event s).1.jailed = true := by
  rw [step_of_jailed event hj]
  exact hj

/-- A fault counts while the machine is free. -/
theorem step_faults (event : SimEvent) (s : MFPoP) :
    (step event s).1.v = s.v + if event = .invalid ∧ s.jailed = false then 1 else 0 := by
  cases hj : s.jailed with
  | true => simp [step_of_jailed event hj]
  | false => simp [step_v event hj]

theorem step_stake (event : SimEvent) (s : MFPoP) :
    (step event s).1.stake
      = if event = .invalid ∧ s.jailed = false then s.stake - SIGMA * s.stake else s.stake := by
  cases hj : s.jailed with
  | true => simp [step_of_jailed event hj]
  | false =>
    rw [step, if_neg (by rw [hj]; decide)]
    cases event <;> simp
    split_ifs <;> rfl

/-- What a step returns is what it takes off the stake. -/
theorem step_slashed (event : SimEvent) (s : MFPoP) :
    (step event s).2 = s.stake - (step event s).1.stake := by
  rw [step_stake]
  unfold step
  cases hj : s.jailed with
  | true => simp
  | false => cases event <;> simp

theorem nextBase_le_one (event : SimEvent) {s : MFPoP} (h : s.rBase ≤ 1) :
    nextBase event s ≤ 1 := by
  cases event with
  | valid => exact min_le_left _ _
  | missing =>
    refine max_le (by norm_num [R_MIN]) ?_
    unfold Q_L
    linarith
  | invalid => exact h
  | unresolved => exact h

/-- What every machine that started with stake 1 keeps. -/
structure Sound (s : MFPoP) : Prop where
  phi : PhiInv s
  base : s.rBase ≤ 1
  stake : s.stake = (9 / 10) ^ s.v
  faults : s.v ≤ 7
  free : s.jailed = false → s.v ≤ 6

theorem sound_init : Sound (init R_INITIAL 1) where
  phi := phiInv_init _ _
  base := by norm_num [init, R_INITIAL]
  stake := by norm_num [init]
  faults := Nat.zero_le 7
  free := fun _ => Nat.zero_le 6

/-- From base reputation 1 the seventh fault reaches the threshold. -/
theorem faults_le_of_free {s : MFPoP} (hphi : PhiInv s) (hbase : s.rBase ≤ 1)
    (hraw : R_JAIL < s.rBase * s.phi) : s.v ≤ 6 := by
  by_contra hv
  have hpow : (2 : ℚ) ^ 7 ≤ 2 ^ s.v := pow_le_pow_right₀ (by norm_num) (by omega)
  have hlow : R_JAIL * 2 ^ s.v < s.rBase := not_le.mp fun h =>
    not_le.mpr hraw ((hphi.mul_phi_le_iff _ _).mpr h)
  unfold R_JAIL at hlow
  linarith

/-- One event keeps a state sound. -/
theorem Sound.step (event : SimEvent) {s : MFPoP} (h : Sound s) : Sound (step event s).1 := by
  cases hj : s.jailed with
  | true =>
    rw [step_of_jailed event hj]
    exact h
  | false =>
    have hbase : (MFPoP.step event s).1.rBase ≤ 1 := by
      rw [step_rBase event hj]
      exact nextBase_le_one event h.base
    have hle := h.free hj
    refine ⟨phiInv_step event h.phi, hbase, ?_, ?_, ?_⟩
    · rw [step_stake, step_faults, h.stake]
      split_ifs
      · rw [SIGMA, pow_succ]
        ring
      · rfl
    · rw [step_faults]
      split_ifs <;> omega
    · intro hfree
      by_cases hev : event = .invalid
      · -- the fault left the raw reputation above the threshold
        refine faults_le_of_free (phiInv_step event h.phi) hbase (not_le.mp fun hraw => ?_)
        rw [step_rBase event hj, step_phi event hj, if_pos hev, hev] at hraw
        have hjailed := (step_jailed_iff event hj).mpr ⟨hev, hraw⟩
        rw [hfree] at hjailed
        exact absurd hjailed (by decide)
      · rw [step_faults, if_neg (fun hc => hev hc.1)]
        exact hle

/-- Never faulted. -/
structure Clean (s : MFPoP) : Prop where
  free : s.jailed = false
  faults : s.v = 0

theorem clean_init : Clean (init R_INITIAL 1) := ⟨rfl, rfl⟩

/-- No fault, no stain. -/
theorem Clean.step {event : SimEvent} {s : MFPoP} (h : Clean s) (hev : event ≠ .invalid) :
    Clean (step event s).1 where
  free := by
    rw [Bool.eq_false_iff]
    exact fun hj => hev ((step_jailed_iff event h.free).mp hj).1
  faults := by
    rw [step_faults, if_neg fun hc => hev hc.1, h.faults]

end MFPoP

end HZKA
