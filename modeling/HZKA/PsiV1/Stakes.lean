/-
  HZKA.PsiV1.Stakes
  ────────────
  **ARE THE STAKES STILL THERE?**

  Stakes come in with `registerCommitter` and leave, half an ether at a time, with
  `slashCommitter`; both move the balance by the same amount.  Rewards are counters that
  nothing funds, and `claimRewards` pays them out of the one balance.

    • `stakes_backed_iff` — at every point of a run the balance covers the stakes, exactly
      when each claim leaves them covered;
    • `stakes_not_backed` — the first reward is paid out of the committer's own stake.
-/
import HZKA.Lib.Totals
import HZKA.PsiV1.Lifecycle
import Mathlib.Data.FinEnum

namespace HZKA.PsiV1

open Function
open HZKA.Lib HZKA.EVM HZKA.Groth16Verifier HZKA.AuditV1

variable {pairing : PairingCheck}

/-! ## §1. The property. -/

/-- The stakes of all committers. -/
noncomputable def stakeTotal (c : AuditContract) : Nat := total c.committerStakes

/-- The balance covers the stakes, and so every slash the stakes allow. -/
structure StakesBacked (c : AuditContract) : Prop where
  covered : stakeTotal c ≤ c.balance
  slashable : ∀ a, SLASH_AMOUNT ≤ c.committerStakes a → SLASH_AMOUNT ≤ c.balance

/-- Backed by the total. -/
theorem stakesBacked_iff {c : AuditContract} : StakesBacked c ↔ stakeTotal c ≤ c.balance := by
  refine ⟨fun h => h.covered, fun h => ⟨h, ?_⟩⟩
  intro a ha
  have hle := le_total c.committerStakes a
  unfold stakeTotal at h
  omega

/-- A claim leaves the stakes covered. -/
def ClaimCovered (c : AuditContract) (tx : Tx) : Prop :=
  tx.call = .claimRewards →
    stakeTotal c + (c.committers tx.msg.sender).rewards ≤ c.balance

/-! ## §2. One call. -/

/-- A registration stakes what it pays in (a stake it would replace only helps). -/
theorem stakeTotal_afterRegister (msg : Msg) (value : Nat) (chainIds : List AuditV1.ChainId)
    (c : AuditContract) : stakeTotal (afterRegister msg value chainIds c) ≤ stakeTotal c + value := by
  have hchange := total_change (f := update c.committerStakes msg.sender value)
    (g := c.committerStakes) msg.sender (fun a ha => update_of_ne ha _ _)
  rw [update_self] at hchange
  show total (update c.committerStakes msg.sender value) ≤ total c.committerStakes + value
  omega

/-- A slash takes its amount from the stakes. -/
theorem stakeTotal_afterSlash {msg : Msg} {commitId : Bytes32} {c : AuditContract}
    (hcan : CanSlash msg commitId c) :
    stakeTotal (afterSlash commitId c) + SLASH_AMOUNT = stakeTotal c := by
  have hchange := total_change (f := (afterSlash commitId c).committerStakes)
    (g := c.committerStakes) (c.commits commitId).committer
    (fun a ha => update_of_ne ha _ _)
  have hself : (afterSlash commitId c).committerStakes (c.commits commitId).committer
      = c.committerStakes (c.commits commitId).committer - SLASH_AMOUNT := update_self ..
  have hstaked := hcan.staked
  unfold stakeTotal
  rw [hself] at hchange
  omega

/-- A call that moves neither stakes nor balance and claims nothing. -/
theorem backed_of_same {c c' : AuditContract} {tx : Tx} (hc : stakeTotal c ≤ c.balance)
    (hstakes : c'.committerStakes = c.committerStakes) (hbalance : c.balance ≤ c'.balance)
    (hcall : tx.call ≠ .claimRewards) : stakeTotal c' ≤ c'.balance ↔ ClaimCovered c tx := by
  refine iff_of_true ?_ (fun h => absurd h hcall)
  unfold stakeTotal
  rw [hstakes]
  exact le_trans hc hbalance

/-- **One call** keeps the stakes backed exactly when it is no claim beyond the cover. -/
theorem backed_step_iff (tx : Tx) (c c' : AuditContract) (hc : stakeTotal c ≤ c.balance)
    (h : exec pairing tx c = .ok c') : stakeTotal c' ≤ c'.balance ↔ ClaimCovered c tx := by
  cases exec_effect h with
  | @registerCommitter msg value chainIds _ =>
    refine iff_of_true ?_ (fun hcall => by cases hcall)
    have hle := stakeTotal_afterRegister msg value chainIds c
    show stakeTotal (afterRegister msg value chainIds c) ≤ c.balance + value
    omega
  | @slashCommitter msg commitId guards =>
    refine iff_of_true ?_ (fun hcall => by cases hcall)
    have heq := stakeTotal_afterSlash guards
    show stakeTotal (afterSlash commitId c) ≤ c.balance - SLASH_AMOUNT
    omega
  | @claimRewards msg guards =>
    have hfunded := guards.funded
    show stakeTotal c ≤ c.balance - (c.committers msg.sender).rewards ↔ _
    constructor
    · intro hle _
      show stakeTotal c + (c.committers msg.sender).rewards ≤ c.balance
      omega
    · intro hcovered
      have hle : stakeTotal c + (c.committers msg.sender).rewards ≤ c.balance := hcovered rfl
      omega
  | submitAggregatedCommit _ frame =>
    exact backed_of_same hc frame.committerStakes (le_of_eq frame.balance.symm) (by simp)
  | setVerifyingKey => exact backed_of_same hc rfl (le_refl _) (by simp)
  | registerChain _ => exact backed_of_same hc rfl (le_refl _) (by simp)
  | registerAuditor => exact backed_of_same hc rfl (le_refl _) (by simp)
  | submitCommit _ => exact backed_of_same hc rfl (le_refl _) (by simp)
  | verifyCommit _ => exact backed_of_same hc rfl (le_refl _) (by simp)
  | createTreeNode _ => exact backed_of_same hc rfl (le_refl _) (by simp)
  | deposit => exact backed_of_same hc rfl (Nat.le_add_right _ _) (by simp)

/-! ## §3. Whole runs. -/

/-- **The stakes stay backed exactly in the runs whose claims leave them backed.** -/
theorem stakes_backed_iff (pairing : PairingCheck) (deployer : Address) (moves : List (Move Tx)) :
    (∀ k, StakesBacked (run (step pairing) ⟨deploy deployer, []⟩ (moves.take k)).current)
      ↔ StepsMeet (step pairing) (OnCalls (exec pairing) ClaimCovered) ⟨deploy deployer, []⟩
          moves := by
  simp only [stakesBacked_iff]
  refine reentrant_invariant_iff (P := fun _ => True) (Q := fun c => stakeTotal c ≤ c.balance)
    (fun _ _ _ _ _ => trivial) (fun tx c c' _ => backed_step_iff tx c c') moves trivial ?_
  show total (fun _ : Address => 0) ≤ 0
  simp

/-- Where one stake is the whole balance, every claim takes from it. -/
theorem claim_uncovers {c : AuditContract} {msg : Msg} {a : Address} (hcan : CanClaim msg c)
    (hall : c.balance ≤ c.committerStakes a) : ¬ StakesBacked (afterClaim msg c) := by
  intro hbacked
  have hcovered : total c.committerStakes ≤ c.balance - (c.committers msg.sender).rewards :=
    hbacked.covered
  have hstake := le_total c.committerStakes a
  have hearned := hcan.earned
  have hfunded := hcan.funded
  omega

theorem run_claim {c : AuditContract} {msg : Msg} (hcan : CanClaim msg c) :
    (run (step pairing) ⟨c, []⟩ [.call ⟨msg, .claimRewards⟩]).current = afterClaim msg c := by
  have hclaim : exec pairing ⟨msg, .claimRewards⟩ c = .ok (afterClaim msg c) :=
    claimRewards_eq_ok.mpr ⟨hcan, rfl⟩
  rw [run_cons, commit_of_ok (move_call_eq_ok.mpr ⟨_, hclaim, rfl⟩)]
  rfl

/-- `0xB0B`, the only committer, claims the reward of their first commit. -/
theorem stakes_not_backed : ¬ ∀ (pairing : PairingCheck) (deployer : Address)
    (moves : List (Move Tx)),
    StakesBacked (run (step pairing) ⟨deploy deployer, []⟩ moves).current := by
  intro hall
  have hbacked := hall zeroPairing 1
    ((opening ++ [submitBob 11]) ++ ([.call ⟨ownerMsg, .verifyCommit (bobCommit 11) emptyProof⟩]
      ++ [.call ⟨bobMsg, .claimRewards⟩]))
  rw [run_append, run_pending, run_append, run_verify (canVerify_pending eleven_lt_modulus)]
    at hbacked
  -- the reward stands on the account of the committer, whose stake is the whole balance
  have hcommitter : ((pending 11).commits (bobCommit 11)).committer = 0xB0B := by
    rw [commits_pending]
    rfl
  have haccount : (pending 11).committers 0xB0B = ⟨0xB0B, [5], 0, 0, true⟩ := by
    rw [(pending_frame 11).committers, committers_opened]
  have hrewards := committers_afterVerify ownerMsg (bobCommit 11) emptyProof (pending 11)
  rw [hcommitter, haccount] at hrewards
  have hbalance : (afterVerify ownerMsg (bobCommit 11) emptyProof (pending 11)).balance = ether :=
    (pending_frame 11).balance.trans balance_opened
  have hstake : (afterVerify ownerMsg (bobCommit 11) emptyProof (pending 11)).committerStakes 0xB0B
      = ether := by
    show (pending 11).committerStakes 0xB0B = ether
    rw [(pending_frame 11).committerStakes, stakes_opened]
  generalize afterVerify ownerMsg (bobCommit 11) emptyProof (pending 11) = c at *
  have hreward : (c.committers 0xB0B).rewards = 1000000000000000 := by
    rw [hrewards]
    rfl
  have hcan : CanClaim bobMsg c := by
    refine ⟨?_, ?_, ?_⟩
    · show (c.committers 0xB0B).isRegistered = true
      rw [hrewards]
    · show 0 < (c.committers 0xB0B).rewards
      omega
    · show (c.committers 0xB0B).rewards ≤ c.balance
      rw [hreward, hbalance]
      decide
  rw [run_claim hcan] at hbacked
  exact claim_uncovers hcan (le_of_eq (hbalance.trans hstake.symm)) hbacked

end HZKA.PsiV1
