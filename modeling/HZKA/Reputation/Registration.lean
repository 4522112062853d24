/-
  HZKA.Reputation.Registration
  ────────────
  **WHO GETS REGISTERED.**  `registerCommitter` succeeds exactly on the calls
  that pass its five guards (`registerCommitter_eq_ok_iff`), and then writes one
  fresh record and nothing else.

  The guards can be met: §2 exhibits a committer with a proof-of-work nonce,
  endorsed twice by the genesis account.  The two-committer deployment it ends
  in is the smallest one in which stakes are slashed and appeals cross.
-/
import HZKA.Reputation.Invariant

namespace HZKA.ReputationRegistry

open HZKA.Lib HZKA.EVM

/-! ## §1. The guards. -/

/-- The storage after `sender` is registered. -/
def afterRegister (sender : Address) (value : Nat) (endorsers : Address × Address)
    (reg : ReputationRegistry) : ReputationRegistry :=
  { reg with
    states := Function.update reg.states sender
      (registrationState value reg.currentRound endorsers)
    committerList := reg.committerList ++ [sender] }

/-- The guards of `registerCommitter`. -/
structure CanRegister (sender : Address) (value nonce : Nat) (endorsers : Address × Address)
    (reg : ReputationRegistry) : Prop where
  fresh : (reg.states sender).isRegistered = false
  staked : value ≥ MIN_STAKE
  endorser₀ : endorserValid (reg.states endorsers.1) = .ok true
  endorser₁ : endorserValid (reg.states endorsers.2) = .ok true
  worked : leadingZeroBits (keccak256 (abiEncode [.address sender, .uint256 nonce]))
    ≥ POW_DIFFICULTY

/-- **Registration succeeds exactly when the guards hold.** -/
theorem registerCommitter_eq_ok_iff {msg : Msg} {value nonce : Nat}
    {endorsers : Address × Address} {reg reg' : ReputationRegistry} :
    registerCommitter msg value nonce endorsers reg = .ok reg'
      ↔ CanRegister msg.sender value nonce endorsers reg
        ∧ reg' = afterRegister msg.sender value endorsers reg := by
  constructor
  · intro h
    simp only [registerCommitter, bind_eq_ok, pure_eq_ok, require_eq_ok] at h
    obtain ⟨_, hfresh, _, hstake, ok₀, h₀, _, rfl, ok₁, h₁, _, rfl, _, hpow, rfl⟩ := h
    exact ⟨⟨hfresh, hstake, h₀, h₁, hpow⟩, rfl⟩
  · rintro ⟨hcan, rfl⟩
    unfold registerCommitter
    rw [require_bind hcan.fresh, require_bind hcan.staked, hcan.endorser₀, ok_bind,
      require_bind rfl, hcan.endorser₁, ok_bind, require_bind rfl, require_bind hcan.worked]
    rfl

/-- A registered, unjailed record of full reputation endorses. -/
theorem endorserValid_of_effective {s : StateSnapshot} (hreg : s.isRegistered = true)
    (hmul : s.baseReputation * s.safetyMult < 2 ^ 256) (heff : R_ENDORSE_MIN ≤ effective s) :
    endorserValid s = .ok true := by
  unfold endorserValid
  rw [if_pos hreg, getEffectiveR_ok hmul]
  show Except.ok (decide (effective s ≥ R_ENDORSE_MIN)) = _
  rw [decide_eq_true heff]

/-! ## §2. A deployment with a second committer. -/

/-- The deployer, genesis committer and sole auditor. -/
def genesis : Address := 1

/-- The second committer. -/
def bob : Address := 0xB0B

/-- A nonce with twenty leading zero bits for `bob`. -/
def bobNonce : Nat := 1916870

theorem bob_worked :
    leadingZeroBits (keccak256 (abiEncode [.address bob, .uint256 bobNonce]))
      ≥ POW_DIFFICULTY := by
  decide +kernel

/-- Sent by `bob`. -/
def bobMsg : Msg := ⟨bob, 1, 0, true⟩

/-- Sent by `genesis`. -/
def genesisMsg : Msg := ⟨genesis, 1, 0, true⟩

/-- The transaction that registers `bob` with a stake of one ether. -/
def bobRegisters : Tx := ⟨bobMsg, .registerCommitter ether bobNonce (genesis, genesis)⟩

/-- The registry of `genesis` with `bob` registered. -/
def bobRegistered : ReputationRegistry :=
  afterRegister bob ether (genesis, genesis) (deploy genesis)

theorem genesis_endorses : endorserValid ((deploy genesis).states genesis) = .ok true := by
  rw [deploy_states_self]
  refine endorserValid_of_effective rfl ?_ ?_
  · norm_num [genesisState, R_MAX, PRECISION]
  · norm_num [effective, genesisState, R_MAX, PRECISION, R_MIN, R_ENDORSE_MIN]

/-- The registration goes through. -/
theorem exec_bobRegisters : exec bobRegisters (deploy genesis) = .ok bobRegistered := by
  refine registerCommitter_eq_ok_iff.mpr ⟨?_, rfl⟩
  refine ⟨?_, ?_, genesis_endorses, genesis_endorses, bob_worked⟩
  · show ((deploy genesis).states bob).isRegistered = false
    rw [deploy_states_of_ne (by decide)]
    rfl
  · show ether ≥ MIN_STAKE
    rw [MIN_STAKE]

/-- A run that starts with the registration goes on from `bobRegistered`. -/
theorem run_bobRegisters (ts : List Tx) :
    run exec (deploy genesis) (bobRegisters :: ts) = run exec bobRegistered ts := by
  rw [run_cons, commit_of_ok exec_bobRegisters]

/-- Seven faults of `bob`, reported by the auditor; nothing is upheld. -/
def sevenFaults : List Tx := List.replicate 7 ⟨genesisMsg, .updateState bob .INVALID 7⟩

/-- After a run with a registration the seven faults jail. -/
theorem sevenFaults_jail :
    StakesBelow [bobRegisters]
      ∧ 7 ≤ tally exec (faultWeight bob) (run exec (deploy genesis) [bobRegisters]) sevenFaults
      ∧ ((run exec (run exec (deploy genesis) [bobRegisters]) sevenFaults).states bob).isJailed
        = true := by
  have hrun : run exec (deploy genesis) [bobRegisters] = bobRegistered := run_bobRegisters []
  have hseven : 7 ≤ tally exec (faultWeight bob) (run exec (deploy genesis) [bobRegisters])
      sevenFaults := by
    rw [hrun]
    decide +kernel
  have hbelow : StakesBelow [bobRegisters] := by
    intro tx htx value nonce endorsers hcall
    rw [List.mem_singleton.mp htx] at hcall
    cases hcall
    norm_num [ether]
  refine ⟨hbelow, hseven, ?_⟩
  refine (mfpop_invariant_and_fault_ceiling genesis [bobRegisters] hbelow).2 bob sevenFaults ?_
    hseven
  simp [sevenFaults, List.replicate, StepsMeet, NoUpheldAppeal]

end HZKA.ReputationRegistry
