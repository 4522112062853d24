/-
  HZKA.Reputation.Transition
  ────────────
  **WHAT ONE TRANSACTION OF THE REGISTRY DOES.**

  The checked do-blocks of `ReputationRegistry` are opened here once.

    • `nextState e s`, `slashed e s` — the transition of one record in plain
      natural-number arithmetic; `applyEvent_eq_ok` says that whenever the
      checked code returns, it returns exactly these.
    • `StepEffect tx reg reg'` — the four things a successful transaction can
      do to records, pool and snapshots (register, event, restore, nothing);
      `exec_effect` is the inversion every invariant proof starts from.
-/
import HZKA.Contracts.ReputationRegistry
import Mathlib.Tactic.NormNum
import Mathlib.Tactic.SplitIfs

namespace HZKA.ReputationRegistry

open Function
open HZKA.Lib HZKA.EVM

/-! ## §1. The transition in plain arithmetic. -/

/-- The history score after an event. -/
def nextHistory : EventType → Nat → Nat
  | .VALID, h => (GAMMA * h + (PRECISION - GAMMA) * PRECISION) / PRECISION
  | .INVALID, h => GAMMA * h / PRECISION
  | .MISSING, h => h

/-- `h` is the history score after the event. -/
def nextBase : EventType → Nat → Nat → Nat
  | .VALID, h, base =>
    min R_MAX (((PRECISION - A_H) * base
      + A_H * (700000000000000000 + 300000000000000000 * h / PRECISION)) / PRECISION)
  | .INVALID, _, base => base
  | .MISSING, _, base => Q_L * base / PRECISION

/-- The effective reputation of a record. -/
def effective (s : StateSnapshot) : Nat :=
  if s.isJailed then R_MIN else max R_MIN (s.baseReputation * s.safetyMult / PRECISION)

/-- What an event takes from the stake. -/
def slashed : EventType → StateSnapshot → Nat
  | .INVALID, s => SIGMA * s.stakedAmount / PRECISION
  | .VALID, _ => 0
  | .MISSING, _ => 0

/-- The record after the history and base updates. -/
def movedState (e : EventType) (s : StateSnapshot) : StateSnapshot :=
  { s with
    historyScore := nextHistory e s.historyScore
    baseReputation := nextBase e (nextHistory e s.historyScore) s.baseReputation }

/-- The safety-fault update of a record. -/
def faultState : EventType → StateSnapshot → StateSnapshot
  | .INVALID, s =>
    { s with
      safetyMult := Q_S * s.safetyMult / PRECISION
      cumulativeV := s.cumulativeV + 1
      stakedAmount := s.stakedAmount - slashed .INVALID s }
  | .VALID, s => s
  | .MISSING, s => s

/-- The jail test reads the record after the other updates. -/
def jails (e : EventType) (s : StateSnapshot) : Bool :=
  decide (e = .INVALID ∧ effective (faultState e (movedState e s)) ≤ R_JAIL)

/-- The record after one event. -/
def nextState (e : EventType) (s : StateSnapshot) : StateSnapshot :=
  { faultState e (movedState e s) with isJailed := s.isJailed || jails e s }

theorem faultState_isJailed (e : EventType) (s : StateSnapshot) :
    (faultState e s).isJailed = s.isJailed := by
  cases e <;> rfl

theorem faultState_isRegistered (e : EventType) (s : StateSnapshot) :
    (faultState e s).isRegistered = s.isRegistered := by
  cases e <;> rfl

theorem faultState_endorsedBy (e : EventType) (s : StateSnapshot) :
    (faultState e s).endorsedBy = s.endorsedBy := by
  cases e <;> rfl

theorem faultState_baseReputation (e : EventType) (s : StateSnapshot) :
    (faultState e s).baseReputation = s.baseReputation := by
  cases e <;> rfl

theorem faultState_historyScore (e : EventType) (s : StateSnapshot) :
    (faultState e s).historyScore = s.historyScore := by
  cases e <;> rfl

theorem movedState_safetyMult (e : EventType) (s : StateSnapshot) :
    (movedState e s).safetyMult = s.safetyMult := by
  simp only [movedState]

theorem movedState_cumulativeV (e : EventType) (s : StateSnapshot) :
    (movedState e s).cumulativeV = s.cumulativeV := by
  simp only [movedState]

theorem movedState_stakedAmount (e : EventType) (s : StateSnapshot) :
    (movedState e s).stakedAmount = s.stakedAmount := by
  simp only [movedState]

theorem slashed_movedState (e : EventType) (s : StateSnapshot) :
    slashed e (movedState e s) = slashed e s := by
  cases e <;> simp only [slashed, movedState]

theorem faultState_stakedAmount (e : EventType) (s : StateSnapshot) :
    (faultState e s).stakedAmount = s.stakedAmount - slashed e s := by
  cases e <;> rfl

theorem nextState_baseReputation (e : EventType) (s : StateSnapshot) :
    (nextState e s).baseReputation
      = nextBase e (nextHistory e s.historyScore) s.baseReputation := by
  simp only [nextState, faultState_baseReputation, movedState]

theorem nextState_historyScore (e : EventType) (s : StateSnapshot) :
    (nextState e s).historyScore = nextHistory e s.historyScore := by
  simp only [nextState, faultState_historyScore, movedState]

theorem nextState_isJailed (e : EventType) (s : StateSnapshot) :
    (nextState e s).isJailed = (s.isJailed || jails e s) := by
  simp only [nextState]

theorem nextState_isRegistered (e : EventType) (s : StateSnapshot) :
    (nextState e s).isRegistered = s.isRegistered := by
  simp only [nextState, faultState_isRegistered, movedState]

theorem nextState_endorsedBy (e : EventType) (s : StateSnapshot) :
    (nextState e s).endorsedBy = s.endorsedBy := by
  simp only [nextState, faultState_endorsedBy, movedState]

theorem nextState_stakedAmount (e : EventType) (s : StateSnapshot) :
    (nextState e s).stakedAmount = s.stakedAmount - slashed e s := by
  simp only [nextState, faultState_stakedAmount, slashed_movedState, movedState_stakedAmount]

theorem nextState_fault_safetyMult (s : StateSnapshot) :
    (nextState .INVALID s).safetyMult = Q_S * s.safetyMult / PRECISION := by
  simp only [nextState, faultState, movedState]

theorem nextState_fault_cumulativeV (s : StateSnapshot) :
    (nextState .INVALID s).cumulativeV = s.cumulativeV + 1 := by
  simp only [nextState, faultState, movedState]

/-- Only a fault jails. -/
theorem jails_eq_false {e : EventType} (he : e ≠ .INVALID) (s : StateSnapshot) :
    jails e s = false := by
  unfold jails
  exact decide_eq_false (fun hc => he hc.1)

theorem faultState_of_ne {e : EventType} (he : e ≠ .INVALID) (s : StateSnapshot) :
    faultState e s = s := by
  cases e with
  | INVALID => exact absurd rfl he
  | VALID => rfl
  | MISSING => rfl

/-- On the other events nothing moves but the two scores. -/
theorem nextState_of_ne {e : EventType} (he : e ≠ .INVALID) (s : StateSnapshot) :
    nextState e s = movedState e s := by
  unfold nextState
  rw [jails_eq_false he, Bool.or_false, faultState_of_ne he]
  simp only [movedState]

/-! ## §2. The checked code computes it. -/

/-- The reputation, if it does not overflow. -/
theorem getEffectiveR_eq_ok {s : StateSnapshot} {r : Nat}
    (h : getEffectiveR s = .ok r) : r = effective s := by
  unfold getEffectiveR at h
  unfold effective
  split at h
  next hj =>
    rw [pure_eq_ok] at h
    rw [if_pos hj, h]
  next hj =>
    simp only [bind_eq_ok, pure_eq_ok, mulU256_eq_ok] at h
    obtain ⟨_, ⟨_, rfl⟩, rfl⟩ := h
    rw [if_neg hj]
    split_ifs <;> omega

theorem getEffectiveR_ok {s : StateSnapshot}
    (h : s.baseReputation * s.safetyMult < 2 ^ 256) :
    getEffectiveR s = .ok (effective s) := by
  unfold getEffectiveR effective mulU256
  rw [if_pos h]
  split
  next => rfl
  next =>
    show Except.ok (if s.baseReputation * s.safetyMult / PRECISION < R_MIN then R_MIN
      else s.baseReputation * s.safetyMult / PRECISION) = _
    congr 1
    split_ifs <;> omega

theorem historyUpdate_eq_ok {e : EventType} {h r : Nat}
    (hr : historyUpdate e h = .ok r) : r = nextHistory e h := by
  cases e with
  | VALID =>
    simp only [historyUpdate, bind_eq_ok, pure_eq_ok, mulU256_eq_ok, subU256_eq_ok,
      addU256_eq_ok] at hr
    obtain ⟨_, ⟨_, rfl⟩, _, ⟨_, rfl⟩, _, ⟨_, rfl⟩, _, ⟨_, rfl⟩, rfl⟩ := hr
    rfl
  | INVALID =>
    simp only [historyUpdate, bind_eq_ok, pure_eq_ok, mulU256_eq_ok] at hr
    obtain ⟨_, ⟨_, rfl⟩, rfl⟩ := hr
    rfl
  | MISSING =>
    simp only [historyUpdate, pure_eq_ok] at hr
    exact hr.symm

theorem baseUpdate_eq_ok {e : EventType} {h base r : Nat}
    (hr : baseUpdate e h base = .ok r) : r = nextBase e h base := by
  cases e with
  | VALID =>
    simp only [baseUpdate, bind_eq_ok, pure_eq_ok, mulU256_eq_ok, subU256_eq_ok,
      addU256_eq_ok] at hr
    obtain ⟨_, ⟨_, rfl⟩, _, ⟨_, rfl⟩, _, ⟨_, rfl⟩, _, ⟨_, rfl⟩, _, ⟨_, rfl⟩, _, ⟨_, rfl⟩,
      rfl⟩ := hr
    show _ = min R_MAX _
    split_ifs <;> omega
  | INVALID =>
    simp only [baseUpdate, pure_eq_ok] at hr
    exact hr.symm
  | MISSING =>
    simp only [baseUpdate, bind_eq_ok, pure_eq_ok, mulU256_eq_ok] at hr
    obtain ⟨_, ⟨_, rfl⟩, rfl⟩ := hr
    rfl

/-- What a fault leaves and slashes. -/
theorem safetyFault_eq_ok {e : EventType} {s : StateSnapshot} {r : StateSnapshot × Nat}
    (hr : safetyFault e s = .ok r) : r = (faultState e s, slashed e s) := by
  cases e with
  | INVALID =>
    simp only [safetyFault, bind_eq_ok, pure_eq_ok, mulU256_eq_ok, addU32_eq_ok,
      subU256_eq_ok] at hr
    obtain ⟨_, ⟨_, rfl⟩, _, ⟨_, rfl⟩, _, ⟨_, rfl⟩, _, ⟨_, rfl⟩, rfl⟩ := hr
    simp only [faultState, slashed]
  | VALID => exact (pure_eq_ok.mp hr).symm
  | MISSING => exact (pure_eq_ok.mp hr).symm

/-- **Whenever the checked transition returns, it returns `nextState` and
`slashed`.** -/
theorem applyEvent_eq_ok {e : EventType} {s : StateSnapshot} {r : StateSnapshot × Nat}
    (hr : applyEvent e s = .ok r) : r = (nextState e s, slashed e s) := by
  simp only [applyEvent, bind_eq_ok] at hr
  obtain ⟨h, hh, base, hb, f, hf, rEff, he, hr⟩ := hr
  obtain rfl := historyUpdate_eq_ok hh
  obtain rfl := baseUpdate_eq_ok hb
  obtain rfl := safetyFault_eq_ok hf
  obtain rfl := getEffectiveR_eq_ok he
  change (if e = .INVALID ∧ effective (faultState e (movedState e s)) ≤ R_JAIL
    then pure ({ faultState e (movedState e s) with isJailed := true },
      slashed e (movedState e s))
    else pure (faultState e (movedState e s), slashed e (movedState e s))) = _ at hr
  rw [slashed_movedState] at hr
  unfold nextState jails
  split at hr
  next hc =>
    rw [pure_eq_ok] at hr
    rw [← hr, decide_eq_true hc, Bool.or_true]
  next hc =>
    rw [pure_eq_ok] at hr
    rw [← hr, decide_eq_false hc, Bool.or_false]
    have hj : s.isJailed = (faultState e (movedState e s)).isJailed := by
      rw [faultState_isJailed]
      rfl
    rw [hj]

theorem creditPool_eq_ok {e : EventType} {pool pool' : Nat} {s : StateSnapshot}
    (h : creditPool e pool (slashed e s) = .ok pool') : pool' = pool + slashed e s := by
  cases e with
  | INVALID => exact (addU256_eq_ok.mp h).2.symm
  | VALID => exact (Except.ok.inj h).symm
  | MISSING => exact (Except.ok.inj h).symm

/-! ## §3. The effect of a transaction. -/

/-- The snapshot mapping after an event on `ct`. -/
def snapshotsAfter (e : EventType) (ct : Address) (proofHash : Bytes32)
    (reg : ReputationRegistry) : Bytes32 → StateSnapshot :=
  if e = .INVALID then update reg.appealSnapshots proofHash (reg.states ct)
  else reg.appealSnapshots

/-- The storage after an update of `ct`; a jailed record is frozen. -/
def afterUpdate (ct : Address) (e : EventType) (proofHash : Bytes32)
    (reg : ReputationRegistry) : ReputationRegistry :=
  if (reg.states ct).isJailed then reg
  else
    { reg with
      states := update reg.states ct (nextState e (reg.states ct))
      totalSlashedPool := reg.totalSlashedPool + slashed e (reg.states ct)
      appealSnapshots := snapshotsAfter e ct proofHash reg }

/-- The record after an update, free or frozen. -/
theorem afterUpdate_record (ct : Address) (e : EventType) (p : Bytes32)
    (reg : ReputationRegistry) :
    (afterUpdate ct e p reg).states ct
      = if (reg.states ct).isJailed then reg.states ct else nextState e (reg.states ct) := by
  unfold afterUpdate
  split
  next => rfl
  next => exact update_self ..

/-- The storage after upholding the appeal stored under `appealId`. -/
def afterUphold (appealId : Bytes32) (reg : ReputationRegistry) : ReputationRegistry :=
  { reg with
    appeals := update reg.appeals appealId
      { reg.appeals appealId with resolved := true, upheld := true }
    totalSlashedPool := poolAfterRefund reg.totalSlashedPool
      (reg.states (reg.appeals appealId).committer).stakedAmount
      (reg.appealSnapshots (reg.appeals appealId).proofHash).stakedAmount
    states := update reg.states (reg.appeals appealId).committer
      (reg.appealSnapshots (reg.appeals appealId).proofHash) }

/-- The guards of upholding an appeal. -/
structure CanUphold (sender : Address) (appealId : Bytes32) (reg : ReputationRegistry) :
    Prop where
  authorized : reg.authorizedAuditors sender = true
  unresolved : (reg.appeals appealId).resolved = false
  snapshot : (reg.appealSnapshots (reg.appeals appealId).proofHash).isRegistered = true

/-- The storage after filing an appeal. -/
def afterFile (msg : Msg) (round : Nat) (proofHash : Bytes32) (reg : ReputationRegistry) :
    ReputationRegistry :=
  { reg with
    appeals := update reg.appeals (appealKey msg.sender round proofHash)
      { committer := msg.sender
        round := round
        proofHash := proofHash
        filedAt := reg.currentRound
        resolved := false
        upheld := false } }

/-- The guards of filing an appeal. -/
structure CanFile (sender : Address) (round : Nat) (proofHash : Bytes32)
    (reg : ReputationRegistry) : Prop where
  registered : (reg.states sender).isRegistered = true
  room : round + APPEAL_WINDOW < 2 ^ 256
  window : reg.currentRound ≤ round + APPEAL_WINDOW
  unresolved : (reg.appeals (appealKey sender round proofHash)).resolved = false

/-- What a successful transaction did to records, pool and snapshots. -/
inductive StepEffect : Tx → ReputationRegistry → ReputationRegistry → Prop
  /-- A new committer with its stake. -/
  | register {msg : Msg} {value nonce : Nat} {endorsers : Address × Address}
      {reg : ReputationRegistry}
      (hnew : (reg.states msg.sender).isRegistered = false) :
      StepEffect ⟨msg, .registerCommitter value nonce endorsers⟩ reg
        { reg with
          states := update reg.states msg.sender
            (registrationState value reg.currentRound endorsers)
          committerList := reg.committerList ++ [msg.sender] }
  /-- An event on an unjailed record. -/
  | event {msg : Msg} {ct : Address} {e : EventType} {proofHash : Bytes32}
      {reg : ReputationRegistry}
      (hreg : (reg.states ct).isRegistered = true)
      (hfree : (reg.states ct).isJailed = false) :
      StepEffect ⟨msg, .updateState ct e proofHash⟩ reg
        { reg with
          states := update reg.states ct (nextState e (reg.states ct))
          totalSlashedPool := reg.totalSlashedPool + slashed e (reg.states ct)
          appealSnapshots := snapshotsAfter e ct proofHash reg }
  /-- An upheld appeal. -/
  | restore {msg : Msg} {appealId : Bytes32} {reg : ReputationRegistry}
      (hcan : CanUphold msg.sender appealId reg) :
      StepEffect ⟨msg, .resolveAppeal appealId true⟩ reg (afterUphold appealId reg)
  /-- Anything else leaves all three alone. -/
  | frame {tx : Tx} {reg reg' : ReputationRegistry}
      (hstates : reg'.states = reg.states)
      (hpool : reg'.totalSlashedPool = reg.totalSlashedPool)
      (hsnaps : reg'.appealSnapshots = reg.appealSnapshots)
      (hregister : ∀ value nonce endorsers, tx.call ≠ .registerCommitter value nonce endorsers)
      (hevent : ∀ ct e proofHash, tx.call = .updateState ct e proofHash →
        (reg.states ct).isRegistered = true ∧ (reg.states ct).isJailed = true)
      (hresolve : ∀ appealId, tx.call ≠ .resolveAppeal appealId true) :
      StepEffect tx reg reg'

theorem registerCommitter_effect {msg : Msg} {value nonce : Nat}
    {endorsers : Address × Address} {reg reg' : ReputationRegistry}
    (h : registerCommitter msg value nonce endorsers reg = .ok reg') :
    StepEffect ⟨msg, .registerCommitter value nonce endorsers⟩ reg reg' := by
  simp only [registerCommitter, bind_eq_ok, pure_eq_ok, require_eq_ok] at h
  obtain ⟨_, hnew, _, _, _, _, _, _, _, _, _, _, _, _, rfl⟩ := h
  exact .register hnew

/-- What an update does. -/
theorem updateState_eq_ok {msg : Msg} {ct : Address} {e : EventType} {proofHash : Bytes32}
    {reg reg' : ReputationRegistry} (h : updateState msg ct e proofHash reg = .ok reg') :
    (reg.states ct).isRegistered = true ∧ reg' = afterUpdate ct e proofHash reg := by
  simp only [updateState, bind_eq_ok, require_eq_ok] at h
  obtain ⟨_, _, _, hreg, h⟩ := h
  refine ⟨hreg, ?_⟩
  unfold afterUpdate
  split at h
  next hj =>
    rw [if_pos hj]
    exact (pure_eq_ok.mp h).symm
  next hj =>
    simp only [bind_eq_ok, pure_eq_ok] at h
    obtain ⟨r, hr, pool, hpool, rfl⟩ := h
    obtain rfl := applyEvent_eq_ok hr
    obtain rfl := creditPool_eq_ok hpool
    rw [if_neg hj]
    rfl

theorem updateState_effect {msg : Msg} {ct : Address} {e : EventType} {proofHash : Bytes32}
    {reg reg' : ReputationRegistry} (h : updateState msg ct e proofHash reg = .ok reg') :
    StepEffect ⟨msg, .updateState ct e proofHash⟩ reg reg' := by
  obtain ⟨hreg, rfl⟩ := updateState_eq_ok h
  unfold afterUpdate
  split
  next hj =>
    refine .frame rfl rfl rfl (fun _ _ _ hc => nomatch hc) ?_ (fun _ hc => nomatch hc)
    intro ct' e' p' heq
    cases heq
    exact ⟨hreg, hj⟩
  next hj => exact .event hreg (Bool.eq_false_iff.mpr hj)

/-- What a resolution does. -/
theorem resolveAppeal_effect {msg : Msg} {appealId : Bytes32} {upheld : Bool}
    {reg reg' : ReputationRegistry} (h : resolveAppeal msg appealId upheld reg = .ok reg') :
    StepEffect ⟨msg, .resolveAppeal appealId upheld⟩ reg reg' := by
  simp only [resolveAppeal, bind_eq_ok, require_eq_ok] at h
  obtain ⟨_, hauth, _, hun, h⟩ := h
  cases upheld with
  | true =>
    simp only [if_true, bind_eq_ok, pure_eq_ok, require_eq_ok] at h
    obtain ⟨_, hsnap, rfl⟩ := h
    exact .restore ⟨hauth, hun, hsnap⟩
  | false =>
    rw [if_neg (by decide), pure_eq_ok] at h
    subst h
    exact .frame rfl rfl rfl (fun _ _ _ hc => nomatch hc) (fun _ _ _ hc => nomatch hc)
      (fun _ hc => nomatch hc)

/-- An appeal whose guards hold is upheld. -/
theorem exec_uphold {msg : Msg} {appealId : Bytes32} {reg : ReputationRegistry}
    (h : CanUphold msg.sender appealId reg) :
    exec ⟨msg, .resolveAppeal appealId true⟩ reg = .ok (afterUphold appealId reg) := by
  show resolveAppeal msg appealId true reg = _
  unfold resolveAppeal
  rw [require_bind h.authorized, require_bind h.unresolved, if_pos rfl]
  show (require ((reg.appealSnapshots (reg.appeals appealId).proofHash).isRegistered = true)
    "Snapshot missing" >>= fun _ => pure (afterUphold appealId reg)) = _
  rw [require_bind h.snapshot]
  rfl

/-- When an appeal is filed. -/
theorem fileAppeal_eq_ok {msg : Msg} {round : Nat} {proofHash : Bytes32}
    {reg reg' : ReputationRegistry} :
    fileAppeal msg round proofHash reg = .ok reg'
      ↔ CanFile msg.sender round proofHash reg ∧ reg' = afterFile msg round proofHash reg := by
  constructor
  · intro h
    simp only [fileAppeal, bind_eq_ok, pure_eq_ok, require_eq_ok, addU256_eq_ok] at h
    obtain ⟨_, hregistered, _, ⟨hroom, rfl⟩, _, hwindow, _, hopen, rfl⟩ := h
    exact ⟨⟨hregistered, hroom, hwindow, hopen⟩, rfl⟩
  · rintro ⟨hcan, rfl⟩
    have hlast : addU256 round APPEAL_WINDOW = .ok (round + APPEAL_WINDOW) :=
      addU256_eq_ok.mpr ⟨hcan.room, rfl⟩
    unfold fileAppeal
    rw [require_bind hcan.registered, hlast]
    show (require (reg.currentRound ≤ round + APPEAL_WINDOW) "Appeal window expired"
      >>= fun _ => _) = _
    rw [require_bind hcan.window, require_bind hcan.unresolved]
    rfl

/-- The administrative calls leave records, pool and snapshots alone. -/
theorem fileAppeal_effect {msg : Msg} {round : Nat} {proofHash : Bytes32}
    {reg reg' : ReputationRegistry} (h : fileAppeal msg round proofHash reg = .ok reg') :
    StepEffect ⟨msg, .fileAppeal round proofHash⟩ reg reg' := by
  obtain ⟨-, rfl⟩ := fileAppeal_eq_ok.mp h
  exact .frame rfl rfl rfl (fun _ _ _ hc => nomatch hc) (fun _ _ _ hc => nomatch hc)
    (fun _ hc => nomatch hc)

theorem advanceRound_effect {msg : Msg} {reg reg' : ReputationRegistry}
    (h : advanceRound msg reg = .ok reg') : StepEffect ⟨msg, .advanceRound⟩ reg reg' := by
  simp only [advanceRound, bind_eq_ok, pure_eq_ok, require_eq_ok, addU256_eq_ok] at h
  obtain ⟨_, _, _, _, rfl⟩ := h
  exact .frame rfl rfl rfl (fun _ _ _ hc => nomatch hc) (fun _ _ _ hc => nomatch hc)
    (fun _ hc => nomatch hc)

/-- The owner sets an authorization. -/
theorem setAuthorizedAuditor_ok {msg : Msg} (auditor : Address) (status : Bool)
    {reg : ReputationRegistry} (howner : msg.sender = reg.owner) :
    exec ⟨msg, .setAuthorizedAuditor auditor status⟩ reg
      = .ok { reg with
        authorizedAuditors := update reg.authorizedAuditors auditor status } := by
  show setAuthorizedAuditor msg auditor status reg = _
  unfold setAuthorizedAuditor
  rw [require_bind howner]
  rfl

theorem setAuthorizedAuditor_effect {msg : Msg} {auditor : Address} {status : Bool}
    {reg reg' : ReputationRegistry}
    (h : setAuthorizedAuditor msg auditor status reg = .ok reg') :
    StepEffect ⟨msg, .setAuthorizedAuditor auditor status⟩ reg reg' := by
  simp only [setAuthorizedAuditor, bind_eq_ok, pure_eq_ok, require_eq_ok] at h
  obtain ⟨_, _, rfl⟩ := h
  exact .frame rfl rfl rfl (fun _ _ _ hc => nomatch hc) (fun _ _ _ hc => nomatch hc)
    (fun _ hc => nomatch hc)

/-- **Inversion of a transaction**: every success is one of the four effects. -/
theorem exec_effect {tx : Tx} {reg reg' : ReputationRegistry} (h : exec tx reg = .ok reg') :
    StepEffect tx reg reg' := by
  obtain ⟨msg, call⟩ := tx
  cases call with
  | registerCommitter value nonce endorsers => exact registerCommitter_effect h
  | updateState ct e proofHash => exact updateState_effect h
  | fileAppeal round proofHash => exact fileAppeal_effect h
  | resolveAppeal appealId upheld => exact resolveAppeal_effect h
  | advanceRound => exact advanceRound_effect h
  | setAuthorizedAuditor auditor status => exact setAuthorizedAuditor_effect h

end HZKA.ReputationRegistry
