/-
  HZKA.Reputation.Stake
  ────────────
  **WHERE THE STAKED ETHER GOES.**

  The books to balance: the stakes of all registered records plus the slashed
  pool, against everything ever paid in by `registerCommitter`.  A registration
  pays in, a slash moves stake into the pool; only an upheld appeal can break the
  balance, because it overwrites the stake with the snapshot's and debits the pool
  by a separate rule.

    • `balanced_step_iff` — a successful transaction keeps the books balanced
      EXACTLY when an upheld appeal restores at least the current stake and the
      pool covers the difference;
    • `stake_conserved_iff` — so the books balance along a whole run exactly when
      each of its appeals is of that kind;
    • `stake_not_conserved` — two faults of one committer, appealed oldest first,
      are not.
-/
import HZKA.Reputation.Appeals
import Mathlib.Algebra.BigOperators.Group.Finset.Piecewise
import Mathlib.Algebra.Order.BigOperators.Group.Finset
import Mathlib.Data.BitVec

namespace HZKA.ReputationRegistry

open Function
open HZKA.Lib HZKA.EVM

/-! ## §1. Total stake. -/

noncomputable instance addressFintype : Fintype Address :=
  Fintype.ofEquiv (Fin (2 ^ 160)) BitVec.equivFin.symm.toEquiv

/-- The stake a record counts with: only registered records do. -/
def countedStake (s : StateSnapshot) : Nat :=
  if s.isRegistered then s.stakedAmount else 0

/-- All stakes on record. -/
noncomputable def totalStake (states : Address → StateSnapshot) : Nat :=
  ∑ a, countedStake (states a)

/-- The value paid in by a transaction that registers. -/
def paidIn (tx : Tx) : Nat :=
  match tx.call with
  | .registerCommitter value _ _ => value
  | _ => 0

/-- Writing one record moves the total by the difference of the two stakes. -/
theorem totalStake_update (states : Address → StateSnapshot) (a : Address) (s : StateSnapshot) :
    totalStake (update states a s) + countedStake (states a)
      = totalStake states + countedStake s := by
  have hcomp : ∀ x, countedStake (update states a s x)
      = update (fun b => countedStake (states b)) a (countedStake s) x := by
    intro x
    by_cases hx : x = a
    · rw [hx, update_self, update_self]
    · rw [update_of_ne hx, update_of_ne hx]
  unfold totalStake
  rw [Finset.sum_congr rfl (fun x _ => hcomp x), Finset.sum_update_of_mem (Finset.mem_univ a),
    ← Finset.sum_sdiff (Finset.subset_univ {a})]
  rw [Finset.sum_singleton]
  omega

/-- In a reachable state an unregistered record has no stake. -/
theorem countedStake_eq {reg : ReputationRegistry} (hinv : RegistryInv reg) (a : Address) :
    countedStake (reg.states a) = (reg.states a).stakedAmount := by
  unfold countedStake
  cases h : (reg.states a).isRegistered with
  | true => rw [if_pos rfl]
  | false =>
    rw [hinv.blank a h]
    rfl

/-! ## §2. One transaction. -/

/-- The books balance against `n` wei paid in. -/
def Balanced (n : Nat) (reg : ReputationRegistry) : Prop :=
  totalStake reg.states + reg.totalSlashedPool = n

/-- An upheld appeal restores at least the current stake, and the slashed pool
covers the difference. -/
def RefundCovered (reg : ReputationRegistry) (tx : Tx) : Prop :=
  ∀ appealId, tx.call = .resolveAppeal appealId true →
    CanUphold tx.msg.sender appealId reg →
    (reg.states (reg.appeals appealId).committer).stakedAmount
        ≤ (reg.appealSnapshots (reg.appeals appealId).proofHash).stakedAmount
      ∧ (reg.appealSnapshots (reg.appeals appealId).proofHash).stakedAmount
          - (reg.states (reg.appeals appealId).committer).stakedAmount
        ≤ reg.totalSlashedPool

/-- The pool debit matches the restored stake exactly in the covered case. -/
theorem poolAfterRefund_balances (total pool current snapshot : Nat) (h : current ≤ total) :
    total + snapshot - current + poolAfterRefund pool current snapshot = total + pool
      ↔ current ≤ snapshot ∧ snapshot - current ≤ pool := by
  unfold poolAfterRefund
  dsimp only
  split_ifs <;> omega

theorem countedStake_le_total (states : Address → StateSnapshot) (a : Address) :
    countedStake (states a) ≤ totalStake states :=
  Finset.single_le_sum (f := fun b => countedStake (states b)) (fun _ _ => Nat.zero_le _)
    (Finset.mem_univ a)

/-- A registration adds its stake. -/
theorem balanced_register {reg : ReputationRegistry} (hinv : RegistryInv reg) {n : Nat}
    {a : Address} (hnew : (reg.states a).isRegistered = false) (hbal : Balanced n reg)
    (value : Nat) (endorsers : Address × Address) :
    totalStake (update reg.states a
        (registrationState value reg.currentRound endorsers)) + reg.totalSlashedPool
      = n + value := by
  have hup := totalStake_update reg.states a
    (registrationState value reg.currentRound endorsers)
  rw [hinv.blank a hnew] at hup
  have hnew' : countedStake (registrationState value reg.currentRound endorsers) = value := rfl
  have hold : countedStake StateSnapshot.zero = 0 := rfl
  unfold Balanced at hbal
  omega

/-- An event moves stake to the pool. -/
theorem balanced_event {reg : ReputationRegistry} (hinv : RegistryInv reg) {n : Nat}
    {ct : Address} (hreg : (reg.states ct).isRegistered = true) (hbal : Balanced n reg)
    (e : EventType) :
    totalStake (update reg.states ct (nextState e (reg.states ct)))
        + (reg.totalSlashedPool + slashed e (reg.states ct))
      = n := by
  have hup := totalStake_update reg.states ct (nextState e (reg.states ct))
  have hnew : countedStake (nextState e (reg.states ct))
      = (reg.states ct).stakedAmount - slashed e (reg.states ct) := by
    unfold countedStake
    rw [nextState_isRegistered, if_pos hreg, nextState_stakedAmount]
  have hle := slashed_le e (reg.states ct)
  rw [countedStake_eq hinv, hnew] at hup
  unfold Balanced at hbal
  omega

/-- When an upheld appeal keeps the balance. -/
theorem balanced_uphold_iff {reg : ReputationRegistry} (hinv : RegistryInv reg) {n : Nat}
    {sender : Address} {appealId : Bytes32} (hcan : CanUphold sender appealId reg)
    (hbal : Balanced n reg) :
    Balanced n (afterUphold appealId reg)
      ↔ (reg.states (reg.appeals appealId).committer).stakedAmount
            ≤ (reg.appealSnapshots (reg.appeals appealId).proofHash).stakedAmount
          ∧ (reg.appealSnapshots (reg.appeals appealId).proofHash).stakedAmount
              - (reg.states (reg.appeals appealId).committer).stakedAmount
            ≤ reg.totalSlashedPool := by
  have hup := totalStake_update reg.states (reg.appeals appealId).committer
    (reg.appealSnapshots (reg.appeals appealId).proofHash)
  have hle := countedStake_le_total reg.states (reg.appeals appealId).committer
  have hsnap : countedStake (reg.appealSnapshots (reg.appeals appealId).proofHash)
      = (reg.appealSnapshots (reg.appeals appealId).proofHash).stakedAmount := by
    unfold countedStake
    rw [if_pos hcan.snapshot]
  rw [countedStake_eq hinv] at hup hle
  rw [hsnap] at hup
  rw [← poolAfterRefund_balances _ _ _ _ hle]
  unfold Balanced at hbal ⊢
  show totalStake (update reg.states _ _) + poolAfterRefund _ _ _ = n ↔ _
  constructor
  · intro h
    omega
  · intro h
    omega

/-- **One transaction keeps the books balanced exactly when its refund is
covered.** -/
theorem balanced_step_iff {n : Nat} {tx : Tx} {reg reg' : ReputationRegistry}
    (hinv : RegistryInv reg) (hbal : Balanced n reg) (h : exec tx reg = .ok reg') :
    Balanced (n + paidIn tx) reg' ↔ RefundCovered reg tx := by
  cases exec_effect h with
  | register hnew =>
    have hok := balanced_register hinv hnew hbal
    exact ⟨fun _ _ hc => (nomatch hc), fun _ => hok _ _⟩
  | event hreg hfree =>
    have hok := balanced_event hinv hreg hbal
    exact ⟨fun _ _ hc => (nomatch hc), fun _ => hok _⟩
  | restore hcan =>
    have hiff := balanced_uphold_iff hinv hcan hbal
    constructor
    · intro hb id hcall _
      cases hcall
      exact hiff.mp hb
    · intro hcov
      exact hiff.mpr (hcov _ rfl hcan)
  | frame hstates hpool _ hregister _ hresolve =>
    have hpaid : paidIn tx = 0 := by
      unfold paidIn
      split
      next value nonce endorsers hcall => exact absurd hcall (hregister _ _ _)
      next => rfl
    refine ⟨fun _ id hcall => absurd hcall (hresolve id), fun _ => ?_⟩
    unfold Balanced at hbal ⊢
    rw [hstates, hpool, hpaid]
    exact hbal

/-! ## §3. Whole runs. -/

theorem balanced_deploy (deployer : Address) : Balanced 0 (deploy deployer) := by
  have hup := totalStake_update (fun _ => StateSnapshot.zero) deployer genesisState
  have hzero : totalStake (fun _ => StateSnapshot.zero) = 0 := Finset.sum_eq_zero (fun _ _ => rfl)
  have hgen : countedStake genesisState = 0 := rfl
  have hold : countedStake StateSnapshot.zero = 0 := rfl
  show totalStake (update (fun _ => StateSnapshot.zero) deployer genesisState) + 0 = 0
  omega

/-- A transaction that fails upholds nothing. -/
theorem refundCovered_of_error {reg : ReputationRegistry} {tx : Tx} {e : Revert}
    (h : exec tx reg = .error e) : RefundCovered reg tx := by
  intro id hcall hcan
  obtain ⟨msg, call⟩ := tx
  cases hcall
  rw [exec_uphold hcan] at h
  exact nomatch h

/-- **Stake conservation, exactly.**  After every number of transactions the
stakes of the registered committers plus the slashed pool equal what the successful
registrations paid in, if and only if each upheld appeal is covered. -/
theorem stake_conserved_iff (deployer : Address) (ts : List Tx) :
    (∀ k, totalStake (run exec (deploy deployer) (ts.take k)).states
          + (run exec (deploy deployer) (ts.take k)).totalSlashedPool
        = tally exec paidIn (deploy deployer) (ts.take k))
      ↔ StepsMeet exec RefundCovered (deploy deployer) ts := by
  have h := run_tally_iff (C := RefundCovered) (w := paidIn) (R := Balanced)
    (fun _ _ _ hinv h => registryInv_step hinv h)
    (fun _ _ _ _ hinv hbal h => balanced_step_iff hinv hbal h)
    (fun _ _ _ _ h => refundCovered_of_error h) ts 0 (deploy deployer)
    (registryInv_deploy deployer) (balanced_deploy deployer)
  simpa only [Nat.zero_add, Balanced] using h

/-- `bob` is faulted under the hashes `7` and `8` and appeals both; the older appeal
is upheld first. -/
def twoFaults : List Tx :=
  [bobRegisters, faultTx genesisMsg bob 7, faultTx genesisMsg bob 8,
    ⟨bobMsg, .fileAppeal 1 7⟩, ⟨genesisMsg, .resolveAppeal (appealKey bob 1 7) true⟩,
    ⟨bobMsg, .fileAppeal 1 8⟩]

/-- Upholding the second appeal. -/
def secondUphold : Tx := ⟨genesisMsg, .resolveAppeal (appealKey bob 1 8) true⟩

/-- The storage after the two faults: the older snapshot holds the larger stake. -/
def faultedTwice : ReputationRegistry :=
  run exec bobRegistered [faultTx genesisMsg bob 7, faultTx genesisMsg bob 8]

theorem faultedTwice_facts :
    faultedTwice.authorizedAuditors genesis = true ∧ faultedTwice.currentRound ≤ 1 + APPEAL_WINDOW
      ∧ (faultedTwice.states bob).isRegistered = true
      ∧ (faultedTwice.appealSnapshots 7).isRegistered = true
      ∧ (faultedTwice.appealSnapshots 8).isRegistered = true
      ∧ (faultedTwice.appealSnapshots 8).stakedAmount
        < (faultedTwice.appealSnapshots 7).stakedAmount := by
  decide +kernel

theorem run_faultedTwice (ts : List Tx) :
    run exec bobRegistered (faultTx genesisMsg bob 7 :: faultTx genesisMsg bob 8 :: ts)
      = run exec faultedTwice ts := rfl

theorem appeal_room : 1 + APPEAL_WINDOW < 2 ^ 256 := by
  norm_num [APPEAL_WINDOW]

theorem faultedTwice_appeals : faultedTwice.appeals = bobRegistered.appeals := by
  rw [faultedTwice, run_cons, run_cons, run_nil, appeals_commit_fault, appeals_commit_fault]

/-- The storage before the second appeal is filed. -/
def firstUpheld : ReputationRegistry :=
  afterUphold (appealKey bob 1 7) (afterFile bobMsg 1 7 faultedTwice)

/-- The first appeal is upheld: the older snapshot is in place. -/
theorem run_firstUpheld (ts : List Tx) :
    run exec faultedTwice (⟨bobMsg, .fileAppeal 1 7⟩
        :: ⟨genesisMsg, .resolveAppeal (appealKey bob 1 7) true⟩ :: ts)
      = run exec firstUpheld ts := by
  obtain ⟨hauth, hwindow, hregistered, hsnap, -⟩ := faultedTwice_facts
  have hfile : exec ⟨bobMsg, .fileAppeal 1 7⟩ faultedTwice
      = .ok (afterFile bobMsg 1 7 faultedTwice) :=
    fileAppeal_eq_ok.mpr ⟨⟨hregistered, appeal_room, hwindow, by rw [faultedTwice_appeals]; rfl⟩, rfl⟩
  have hstored : (afterFile bobMsg 1 7 faultedTwice).appeals (appealKey bob 1 7)
      = ⟨bob, 1, 7, faultedTwice.currentRound, false, false⟩ := appeals_afterFile bobMsg 1 7 _
  have hcan : CanUphold genesis (appealKey bob 1 7) (afterFile bobMsg 1 7 faultedTwice) := by
    refine ⟨hauth, ?_, ?_⟩
    · rw [hstored]
    · rw [hstored]
      exact hsnap
  rw [run_cons, commit_of_ok hfile, run_cons, commit_of_ok (exec_uphold hcan)]
  rfl

theorem firstUpheld_bob : firstUpheld.states bob = faultedTwice.appealSnapshots 7 := by
  have hstored : (afterFile bobMsg 1 7 faultedTwice).appeals (appealKey bob 1 7)
      = ⟨bob, 1, 7, faultedTwice.currentRound, false, false⟩ := appeals_afterFile bobMsg 1 7 _
  rw [firstUpheld, states_afterUphold, hstored]
  exact update_self ..

/-- The second appeal goes in: it has another key. -/
theorem run_twoFaults :
    run exec (deploy genesis) twoFaults = afterFile bobMsg 1 8 firstUpheld := by
  obtain ⟨-, hwindow, -, hsnap, -⟩ := faultedTwice_facts
  have hkeys : appealKey bob 1 8 ≠ appealKey bob 1 7 := by
    decide +kernel
  have hopen : (firstUpheld.appeals (appealKey bob 1 8)).resolved = false := by
    rw [firstUpheld, appeals_afterUphold_of_ne _ hkeys,
      show (afterFile bobMsg 1 7 faultedTwice).appeals (appealKey bob 1 8) = _ from
        appeals_afterFile_of_ne bobMsg _ hkeys, faultedTwice_appeals]
    rfl
  have hregistered : (firstUpheld.states bob).isRegistered = true := by
    rw [firstUpheld_bob]
    exact hsnap
  have hround : firstUpheld.currentRound ≤ 1 + APPEAL_WINDOW := by
    unfold firstUpheld afterUphold afterFile
    exact hwindow
  have hfile : exec ⟨bobMsg, .fileAppeal 1 8⟩ firstUpheld = .ok (afterFile bobMsg 1 8 firstUpheld) :=
    fileAppeal_eq_ok.mpr ⟨⟨hregistered, appeal_room, hround, hopen⟩, rfl⟩
  rw [twoFaults, run_bobRegisters, run_faultedTwice, run_firstUpheld, run_cons, commit_of_ok hfile,
    run_nil]

/-- The second appeal is open, and its snapshot is of the slashed stake. -/
theorem twoFaults_second_appeal :
    CanUphold genesis (appealKey bob 1 8) (run exec (deploy genesis) twoFaults)
      ∧ ¬ RefundCovered (run exec (deploy genesis) twoFaults) secondUphold := by
  obtain ⟨hauth, -, -, -, hsnap, hless⟩ := faultedTwice_facts
  have hstored : (afterFile bobMsg 1 8 firstUpheld).appeals (appealKey bob 1 8)
      = ⟨bob, 1, 8, firstUpheld.currentRound, false, false⟩ := appeals_afterFile bobMsg 1 8 _
  rw [run_twoFaults]
  have hcan : CanUphold genesis (appealKey bob 1 8) (afterFile bobMsg 1 8 firstUpheld) := by
    refine ⟨hauth, ?_, ?_⟩
    · rw [hstored]
    · rw [hstored]
      exact hsnap
  refine ⟨hcan, ?_⟩
  intro hcov
  have hle := (hcov _ rfl hcan).1
  rw [hstored] at hle
  have hstake : (firstUpheld.states bob).stakedAmount
      ≤ (faultedTwice.appealSnapshots 8).stakedAmount := hle
  rw [firstUpheld_bob] at hstake
  omega

/-- **Not along every run**: with the older of two faults appealed first, upholding
the other takes the slashed stake out of the books. -/
theorem stake_not_conserved :
    ¬ ∀ (deployer : Address) (ts : List Tx),
        totalStake (run exec (deploy deployer) ts).states
            + (run exec (deploy deployer) ts).totalSlashedPool
          = tally exec paidIn (deploy deployer) ts := by
  intro hall
  obtain ⟨hcan, huncovered⟩ := twoFaults_second_appeal
  have hbefore : Balanced _ (run exec (deploy genesis) twoFaults) := hall genesis twoFaults
  have hafter := hall genesis (twoFaults ++ [secondUphold])
  have hup : exec secondUphold (run exec (deploy genesis) twoFaults) = .ok _ := exec_uphold hcan
  rw [run_append, tally_append, run_cons, run_nil, commit_of_ok hup] at hafter
  have hpaid : tally exec paidIn (run exec (deploy genesis) twoFaults) [secondUphold]
      = paidIn secondUphold := by
    rw [tally_cons_ok hup, tally, Nat.add_zero]
  rw [hpaid] at hafter
  exact huncovered ((balanced_step_iff (registryInv_run genesis twoFaults) hbefore hup).mp hafter)

end HZKA.ReputationRegistry
