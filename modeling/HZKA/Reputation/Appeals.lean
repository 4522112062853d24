/-
  HZKA.Reputation.Appeals
  ────────────
  **WHAT AN UPHELD APPEAL RESTORES.**

  `updateState` files the pre-fault record under the PROOF HASH alone, and
  `resolveAppeal` writes back whatever stands under the appeal's proof hash:

    • `snapshot_run` — the snapshot under `p` survives any run in which no
      further fault is recorded under `p`;
    • `upheld_appeal_restores_own_state` — so, along such runs, upholding an
      appeal of `c` gives `c` its own pre-fault record and touches nobody else;
    • `upheld_appeal_restores_other_state` — and not along all runs: the auditors
      report one proof hash for several committers, and the last one faulted
      owns the snapshot.
-/
import HZKA.Reputation.Registration

namespace HZKA.ReputationRegistry

open Function
open HZKA.Lib HZKA.EVM

/-! ## §1. Filing. -/

theorem appeals_afterFile (msg : Msg) (round : Nat) (p : Bytes32) (reg : ReputationRegistry) :
    (afterFile msg round p reg).appeals (appealKey msg.sender round p)
      = ⟨msg.sender, round, p, reg.currentRound, false, false⟩ :=
  update_self ..

theorem appeals_afterFile_of_ne (msg : Msg) {round : Nat} {p : Bytes32} (reg : ReputationRegistry)
    {appealId : Bytes32} (h : appealId ≠ appealKey msg.sender round p) :
    (afterFile msg round p reg).appeals appealId = reg.appeals appealId :=
  update_of_ne h ..

/-- A filed appeal is stored under its key with its committer and proof hash. -/
theorem fileAppeal_stores {msg : Msg} {round : Nat} {p : Bytes32}
    {reg reg' : ReputationRegistry} (h : fileAppeal msg round p reg = .ok reg') :
    (reg'.appeals (appealKey msg.sender round p)).committer = msg.sender
      ∧ (reg'.appeals (appealKey msg.sender round p)).proofHash = p
      ∧ (reg'.appeals (appealKey msg.sender round p)).resolved = false := by
  obtain ⟨-, rfl⟩ := fileAppeal_eq_ok.mp h
  rw [appeals_afterFile]
  exact ⟨rfl, rfl, rfl⟩

/-- An upheld appeal restores the snapshot. -/
theorem states_afterUphold (appealId : Bytes32) (reg : ReputationRegistry) :
    (afterUphold appealId reg).states = update reg.states (reg.appeals appealId).committer
      (reg.appealSnapshots (reg.appeals appealId).proofHash) := rfl

/-- Upholding an appeal touches no other. -/
theorem appeals_afterUphold_of_ne {appealId other : Bytes32} (reg : ReputationRegistry)
    (h : other ≠ appealId) : (afterUphold appealId reg).appeals other = reg.appeals other :=
  update_of_ne h ..

/-! ## §2. How long a snapshot lives. -/

/-- The fault transaction. -/
def faultTx (msg : Msg) (c : Address) (p : Bytes32) : Tx :=
  ⟨msg, .updateState c .INVALID p⟩

/-- A fault leaves the appeals alone. -/
theorem appeals_commit_fault (msg : Msg) (c : Address) (p : Bytes32) (reg : ReputationRegistry) :
    (commit exec reg (faultTx msg c p)).appeals = reg.appeals := by
  cases h : exec (faultTx msg c p) reg with
  | error e => rw [commit_of_error h]
  | ok reg' =>
    obtain ⟨-, hafter⟩ := updateState_eq_ok (show updateState msg c .INVALID p reg = .ok reg' from h)
    rw [commit_of_ok h, hafter]
    unfold afterUpdate
    split
    next => rfl
    next => rfl

/-- The transaction records no fault under `p`. -/
def KeepsSnapshot (p : Bytes32) (reg : ReputationRegistry) (tx : Tx) : Prop :=
  ∀ ct, tx.call = .updateState ct .INVALID p →
    (reg.states ct).isRegistered = true → (reg.states ct).isJailed = true

/-- No other call touches a snapshot. -/
theorem snapshot_step {p : Bytes32} {tx : Tx} {reg reg' : ReputationRegistry}
    (hkeep : KeepsSnapshot p reg tx) (h : exec tx reg = .ok reg') :
    reg'.appealSnapshots p = reg.appealSnapshots p := by
  cases exec_effect h with
  | register hnew => rfl
  | @event _ ct e q _ hreg hfree =>
    show snapshotsAfter e ct q reg p = _
    unfold snapshotsAfter
    split
    next he =>
      -- a fault recorded under another hash
      have hqp : p ≠ q := by
        intro hpq
        subst he hpq
        have hj := hkeep ct rfl hreg
        rw [hfree] at hj
        exact absurd hj (by decide)
      rw [update_of_ne hqp]
    next => rfl
  | restore hcan => rfl
  | frame _ _ hsnaps => rw [hsnaps]

/-- **The snapshot under `p` survives while no fault is recorded under `p`.** -/
theorem snapshot_run {p : Bytes32} {reg : ReputationRegistry} {ts : List Tx}
    (hts : StepsMeet exec (KeepsSnapshot p) reg ts) :
    (run exec reg ts).appealSnapshots p = reg.appealSnapshots p :=
  run_invariant_of (P := fun r => r.appealSnapshots p = reg.appealSnapshots p)
    (fun _ _ _ hkeep hP h => (snapshot_step hkeep h).trans hP) ts reg rfl hts

/-- A fault on an unjailed record files that record. -/
theorem snapshot_fault {msg : Msg} {c : Address} {p : Bytes32} {reg reg' : ReputationRegistry}
    (hfree : (reg.states c).isJailed = false) (h : exec (faultTx msg c p) reg = .ok reg') :
    reg'.appealSnapshots p = reg.states c := by
  cases exec_effect h with
  | event hreg _ =>
    show snapshotsAfter .INVALID c p reg p = _
    rw [snapshotsAfter, if_pos rfl, update_self]
  | frame _ _ _ _ hevent _ =>
    have hj := (hevent c .INVALID p rfl).2
    rw [hfree] at hj
    exact absurd hj (by decide)

theorem resolveAppeal_states {msg : Msg} {appealId : Bytes32} {reg reg' : ReputationRegistry}
    (h : exec ⟨msg, .resolveAppeal appealId true⟩ reg = .ok reg') :
    reg'.states = update reg.states (reg.appeals appealId).committer
      (reg.appealSnapshots (reg.appeals appealId).proofHash) := by
  cases exec_effect h with
  | restore hcan => rfl
  | frame _ _ _ _ _ hresolve => exact absurd rfl (hresolve appealId)

/-! ## §3. The restored record. -/

/-- After `c` is faulted under `p` in `reg₀` and the transactions `ts` follow,
upholding an appeal of `c` that names `p` gives `c` the record it had in `reg₀`
and leaves every other record alone. -/
def OwnStateRestored (reg₀ : ReputationRegistry) (m₁ : Msg) (c : Address) (p : Bytes32)
    (ts : List Tx) (m₂ : Msg) (appealId : Bytes32) : Prop :=
  ∀ reg₁ reg₃, exec (faultTx m₁ c p) reg₀ = .ok reg₁ →
    ((run exec reg₁ ts).appeals appealId).committer = c →
    ((run exec reg₁ ts).appeals appealId).proofHash = p →
    exec ⟨m₂, .resolveAppeal appealId true⟩ (run exec reg₁ ts) = .ok reg₃ →
    reg₃.states = update (run exec reg₁ ts).states c (reg₀.states c)

/-- **Own state restored**, along every run in which the faulted record was not
jailed and no later fault is recorded under the same proof hash. -/
theorem upheld_appeal_restores_own_state (deployer : Address) (ts₁ : List Tx) (m₁ : Msg)
    (c : Address) (p : Bytes32) (ts₂ : List Tx) (m₂ : Msg) (appealId : Bytes32)
    (hfree : ((run exec (deploy deployer) ts₁).states c).isJailed = false)
    (hkeep : StepsMeet exec (KeepsSnapshot p)
      (commit exec (run exec (deploy deployer) ts₁) (faultTx m₁ c p)) ts₂) :
    OwnStateRestored (run exec (deploy deployer) ts₁) m₁ c p ts₂ m₂ appealId := by
  intro reg₁ reg₃ hfault hc hp hup
  rw [commit_of_ok hfault] at hkeep
  rw [resolveAppeal_states hup, hc, hp, snapshot_run hkeep, snapshot_fault hfree hfault]

/-- `bob` is faulted under hash `7` and appeals; the appeal is upheld. -/
def bobAppeal : Tx := ⟨bobMsg, .fileAppeal 1 7⟩

/-- The one transaction. -/
def bobAppeals : List Tx := [bobAppeal]

/-- Its appeal. -/
def bobAppealId : Bytes32 := appealKey bobMsg.sender 1 7

theorem bob_own_state_restored :
    OwnStateRestored (run exec (deploy genesis) [bobRegisters]) genesisMsg bob 7 bobAppeals
      genesisMsg bobAppealId := by
  refine upheld_appeal_restores_own_state genesis [bobRegisters] genesisMsg bob 7 bobAppeals
    genesisMsg bobAppealId ?_ ?_
  · rw [run_bobRegisters, run_nil]
    rfl
  · simp [bobAppeals, bobAppeal, StepsMeet, KeepsSnapshot]

/-! ## §4. A snapshot overwritten. -/

/-- The auditor reports the same proof hash for the genesis committer before `bob`
appeals. -/
def crossFault : List Tx := faultTx genesisMsg genesis 7 :: bobAppeals

/-- The storage when `bob`'s appeal comes up. -/
def crossFaulted : ReputationRegistry :=
  run exec (commit exec bobRegistered (faultTx genesisMsg bob 7)) crossFault

/-- Both faults go through and bob may appeal; the snapshot left under the hash is not of
bob's stake. -/
theorem crossFaulted_facts :
    (exec (faultTx genesisMsg bob 7) bobRegistered).isOk = true
      ∧ (exec bobAppeal (commit exec (commit exec bobRegistered (faultTx genesisMsg bob 7))
        (faultTx genesisMsg genesis 7))).isOk = true
      ∧ crossFaulted.authorizedAuditors genesisMsg.sender = true
      ∧ (crossFaulted.appealSnapshots 7).isRegistered = true
      ∧ (crossFaulted.appealSnapshots 7).stakedAmount ≠ (bobRegistered.states bob).stakedAmount := by
  decide +kernel

theorem crossFaulted_appeal :
    (crossFaulted.appeals bobAppealId).committer = bobMsg.sender
      ∧ (crossFaulted.appeals bobAppealId).proofHash = 7
      ∧ (crossFaulted.appeals bobAppealId).resolved = false := by
  have hfile : exec bobAppeal
      (commit exec (commit exec bobRegistered (faultTx genesisMsg bob 7))
        (faultTx genesisMsg genesis 7)) = .ok crossFaulted :=
    exec_eq_ok_commit crossFaulted_facts.2.1
  rw [show exec bobAppeal = fileAppeal bobMsg 1 7 from rfl] at hfile
  unfold bobAppealId
  exact fileAppeal_stores hfile

/-- **Not along every run**: `bob`'s upheld appeal gives it the genesis record. -/
theorem upheld_appeal_restores_other_state :
    ¬ ∀ (deployer : Address) (ts₁ : List Tx) (m₁ : Msg) (c : Address) (p : Bytes32)
        (ts₂ : List Tx) (m₂ : Msg) (appealId : Bytes32),
        OwnStateRestored (run exec (deploy deployer) ts₁) m₁ c p ts₂ m₂ appealId := by
  intro hall
  have h := hall genesis [bobRegisters] genesisMsg bob 7 crossFault genesisMsg bobAppealId
  rw [run_bobRegisters, run_nil] at h
  obtain ⟨hc, hp, hopen⟩ := crossFaulted_appeal
  obtain ⟨hfault, -, hauth, hsnap, hother⟩ := crossFaulted_facts
  have hcan : CanUphold genesisMsg.sender bobAppealId crossFaulted := by
    refine ⟨hauth, hopen, ?_⟩
    rw [hp]
    exact hsnap
  have hstates := h _ _ (exec_eq_ok_commit hfault) hc hp (exec_uphold hcan)
  -- the restored stake is the genesis committer's, not bob's ether
  have hstake := congrArg (fun f => (f bob).stakedAmount) hstates
  change (update crossFaulted.states (crossFaulted.appeals bobAppealId).committer
    (crossFaulted.appealSnapshots (crossFaulted.appeals bobAppealId).proofHash)
      bob).stakedAmount = _ at hstake
  rw [hc, hp] at hstake
  simp only [update_self] at hstake
  exact hother hstake

end HZKA.ReputationRegistry
