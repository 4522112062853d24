/-
  HZKA.Contracts.ReputationRegistry
  ────────────
  **THE MF-PoP REPUTATION CONTRACT** (`ReputationRegistry.sol`), as explicit
  state passing: each external function takes the call context and the storage
  and returns the new storage or a revert.

  Layout of the source kept: the constants, the 6-tuple snapshot with its
  registration data, the canonical transition (`applyEvent` is the part of
  `updateState` that rewrites one committer's record), the appeal path, the
  election weight.  Every `uint256` operation is the checked one, so a revert
  of the source is a revert here.

  Left out: events (nothing reads them) and the ether balance, which no
  function of the contract uses.
-/
import HZKA.Lib.Run
import HZKA.EVM.Abi
import Mathlib

namespace HZKA

open Function
open HZKA.Lib HZKA.EVM

namespace ReputationRegistry

/-! ## §1. Constants.

Irreducible, so that no unifier ever counts up to `10¹⁸`; proofs that need the
number name the constant. -/

/-- The fixed-point one. -/
@[irreducible] def PRECISION : Nat := 1000000000000000000
/-- The least effective reputation. -/
@[irreducible] def R_MIN : Nat := 10000000000000000
/-- The greatest base reputation. -/
@[irreducible] def R_MAX : Nat := 1000000000000000000
/-- The reputation of a new committer. -/
@[irreducible] def R_INITIAL : Nat := 500000000000000000
/-- What an endorser needs. -/
@[irreducible] def R_ENDORSE_MIN : Nat := 700000000000000000
/-- At or below this a fault jails. -/
@[irreducible] def R_JAIL : Nat := 15000000000000000
/-- The greatest election weight. -/
@[irreducible] def W_MAX : Nat := 1000000000000000000

/-- `a_h`, the convex step of the valid-event update. -/
@[irreducible] def A_H : Nat := 1600000000000000
/-- `γ`, the history decay. -/
@[irreducible] def GAMMA : Nat := 700000000000000000
/-- `q_l`, the decay of a missed round. -/
@[irreducible] def Q_L : Nat := 950000000000000000
/-- `q_s`, the geometric safety decay. -/
@[irreducible] def Q_S : Nat := 500000000000000000
/-- `σ`, the share of the stake slashed per safety fault. -/
@[irreducible] def SIGMA : Nat := 100000000000000000

/-- The stake of a registration. -/
@[irreducible] def MIN_STAKE : Nat := ether
/-- Leading zero bits of a registration's hash. -/
@[irreducible] def POW_DIFFICULTY : Nat := 20
/-- Rounds to appeal in. -/
@[irreducible] def APPEAL_WINDOW : Nat := 5

end ReputationRegistry

/-! ## §2. Storage. -/

/-- The three adjudicated outcomes of a round. -/
inductive EventType where
  | VALID
  | INVALID
  | MISSING
  deriving DecidableEq, Repr

/-- One committer's record `X = (R_base, H, φ, V, S, J)` with its
registration data. -/
structure StateSnapshot where
  baseReputation : Nat
  historyScore : Nat
  safetyMult : Nat
  cumulativeV : Nat
  stakedAmount : Nat
  isJailed : Bool
  isRegistered : Bool
  registeredAt : Nat
  endorsedBy : Address × Address
  deriving DecidableEq, Repr

/-- The record an address never written to reads as. -/
def StateSnapshot.zero : StateSnapshot :=
  ⟨0, 0, 0, 0, 0, false, false, 0, (0, 0)⟩

/-- An appeal against a fault. -/
structure Appeal where
  committer : Address
  round : Nat
  proofHash : Bytes32
  filedAt : Nat
  resolved : Bool
  upheld : Bool
  deriving DecidableEq, Repr

/-- An unset appeal. -/
def Appeal.zero : Appeal := ⟨0, 0, 0, 0, false, false⟩

/-- The storage. -/
structure ReputationRegistry where
  states : Address → StateSnapshot
  committerList : List Address
  currentRound : Nat
  totalSlashedPool : Nat
  owner : Address
  authorizedAuditors : Address → Bool
  appeals : Bytes32 → Appeal
  appealSnapshots : Bytes32 → StateSnapshot

namespace ReputationRegistry

/-- The record `_bootstrap` gives the genesis account. -/
def genesisState : StateSnapshot where
  baseReputation := R_MAX
  historyScore := R_MAX
  safetyMult := PRECISION
  cumulativeV := 0
  stakedAmount := 0
  isJailed := false
  isRegistered := true
  registeredAt := 1
  endorsedBy := (0, 0)

/-- The constructor: the deployer is owner, authorized auditor and genesis
committer. -/
def deploy (deployer : Address) : ReputationRegistry where
  states := update (fun _ => StateSnapshot.zero) deployer genesisState
  committerList := [deployer]
  currentRound := 1
  totalSlashedPool := 0
  owner := deployer
  authorizedAuditors := update (fun _ => false) deployer true
  appeals := fun _ => Appeal.zero
  appealSnapshots := fun _ => StateSnapshot.zero

/-! ## §3. Effective reputation and election weight. -/

/-- `_getEffectiveR`: jailed reads as the floor, else `R_base · φ`, floored. -/
def getEffectiveR (state : StateSnapshot) : Except Revert Nat := do
  if state.isJailed then
    return R_MIN
  else
    let product ← mulU256 state.baseReputation state.safetyMult
    let rEff := product / PRECISION
    return (if rEff < R_MIN then R_MIN else rEff)

/-- The effective reputation of a committer. -/
def getEffectiveReputation (ct : Address) (reg : ReputationRegistry) : Except Revert Nat :=
  getEffectiveR (reg.states ct)

/-- Whether the committer is registered. -/
def isCommitterRegistered (ct : Address) (reg : ReputationRegistry) : Bool :=
  (reg.states ct).isRegistered

/-- The capped linear election weight; a jailed committer has none. -/
def getElectionWeight (ct : Address) (reg : ReputationRegistry) : Except Revert Nat := do
  let state := reg.states ct
  if state.isJailed then
    return 0
  else
    let r ← getEffectiveR state
    return (if r > W_MAX then W_MAX else r)

/-! ## §4. Registration. -/

/-- The leading zero bits a non-zero byte contributes, as the source tests
them (four masks). -/
def nonzeroByteBits (byt : Byte) : Nat :=
  (if byt &&& 0x80 = 0 then 1 else 0)
    + (if byt &&& 0x40 = 0 ∧ byt &&& 0x80 = 0 then 1 else 0)
    + (if byt &&& 0x20 = 0 ∧ byt &&& 0xC0 = 0 then 1 else 0)
    + (if byt &&& 0x10 = 0 ∧ byt &&& 0xE0 = 0 then 1 else 0)

/-- The loop of `_leadingZeroBits` over the remaining bytes. -/
def leadingZeroBitsLoop : List Byte → Nat → Nat
  | [], count => count
  | byt :: rest, count =>
    if count < 256 then
      if byt = 0 then leadingZeroBitsLoop rest (count + 8)
      else count + nonzeroByteBits byt
    else count

/-- `_leadingZeroBits`. -/
def leadingZeroBits (h : Bytes32) : Nat :=
  leadingZeroBitsLoop (Bytes32.toBytes h) 0

/-- An endorser is registered and has effective reputation at least
`R_ENDORSE_MIN`. -/
def endorserValid (state : StateSnapshot) : Except Revert Bool := do
  if state.isRegistered then
    let r ← getEffectiveR state
    return decide (r ≥ R_ENDORSE_MIN)
  else
    return false

/-- The record a successful registration writes. -/
def registrationState (value round : Nat) (endorsers : Address × Address) :
    StateSnapshot where
  baseReputation := R_INITIAL
  historyScore := R_INITIAL
  safetyMult := PRECISION
  cumulativeV := 0
  stakedAmount := value
  isJailed := false
  isRegistered := true
  registeredAt := round
  endorsedBy := endorsers

/-- Registration: stake, two endorsers, proof of work. -/
def registerCommitter (msg : Msg) (value nonce : Nat) (endorsers : Address × Address)
    (reg : ReputationRegistry) : Except Revert ReputationRegistry := do
  require ((reg.states msg.sender).isRegistered = false) "Already registered"
  require (value ≥ MIN_STAKE) "Insufficient stake"
  let ok₀ ← endorserValid (reg.states endorsers.1)
  require (ok₀ = true) "Endorser 0 invalid"
  let ok₁ ← endorserValid (reg.states endorsers.2)
  require (ok₁ = true) "Endorser 1 invalid"
  let hash := keccak256 (abiEncode [.address msg.sender, .uint256 nonce])
  require (leadingZeroBits hash ≥ POW_DIFFICULTY) "PoW failed"
  return { reg with
    states := update reg.states msg.sender
      (registrationState value reg.currentRound endorsers)
    committerList := reg.committerList ++ [msg.sender] }

/-! ## §5. The canonical transition. -/

/-- Step 1, history. -/
def historyUpdate (e : EventType) (h : Nat) : Except Revert Nat := do
  match e with
  | .VALID =>
    let kept ← mulU256 GAMMA h
    let room ← subU256 PRECISION GAMMA
    let gained ← mulU256 room PRECISION
    let sum ← addU256 kept gained
    return sum / PRECISION
  | .INVALID =>
    let kept ← mulU256 GAMMA h
    return kept / PRECISION
  | .MISSING => return h

/-- Step 2, base reputation; `h` is the history score after step 1. -/
def baseUpdate (e : EventType) (h base : Nat) : Except Revert Nat := do
  match e with
  | .VALID =>
    let h3 ← mulU256 300000000000000000 h
    let Q ← addU256 700000000000000000 (h3 / PRECISION)
    let keep ← subU256 PRECISION A_H
    let kept ← mulU256 keep base
    let gained ← mulU256 A_H Q
    let sum ← addU256 kept gained
    let newRBase := sum / PRECISION
    return (if newRBase > R_MAX then R_MAX else newRBase)
  | .MISSING =>
    let kept ← mulU256 Q_L base
    return kept / PRECISION
  | .INVALID => return base

/-- Step 3, the safety fault: the record with `φ` halved, one more fault and the
stake cut, together with the amount slashed (zero on the other events). -/
def safetyFault (e : EventType) (state : StateSnapshot) :
    Except Revert (StateSnapshot × Nat) := do
  match e with
  | .INVALID =>
    let decayed ← mulU256 Q_S state.safetyMult
    let v ← addU32 state.cumulativeV 1
    let cut ← mulU256 SIGMA state.stakedAmount
    let slash := cut / PRECISION
    let left ← subU256 state.stakedAmount slash
    return ({ state with
      safetyMult := decayed / PRECISION
      cumulativeV := v
      stakedAmount := left }, slash)
  | _ => return (state, 0)

/-- Steps 1–4 of `updateState` on one unjailed record: the new record and the
amount slashed. -/
def applyEvent (e : EventType) (state : StateSnapshot) :
    Except Revert (StateSnapshot × Nat) := do
  let h ← historyUpdate e state.historyScore
  let base ← baseUpdate e h state.baseReputation
  let (faulted, slash) ← safetyFault e { state with historyScore := h, baseReputation := base }
  let rEff ← getEffectiveR faulted
  -- the jail is evaluated on an INVALID event only
  if e = .INVALID ∧ rEff ≤ R_JAIL then
    return ({ faulted with isJailed := true }, slash)
  else
    return (faulted, slash)

/-- `totalSlashedPool += slash`, on the INVALID branch only. -/
def creditPool (e : EventType) (pool slash : Nat) : Except Revert Nat :=
  if e = .INVALID then addU256 pool slash else .ok pool

/-- An auditor reports an event on a committer. -/
def updateState (msg : Msg) (ct : Address) (e : EventType) (proofHash : Bytes32)
    (reg : ReputationRegistry) : Except Revert ReputationRegistry := do
  require (reg.authorizedAuditors msg.sender = true) "Not authorized auditor"
  let state := reg.states ct
  require (state.isRegistered = true) "Not registered"
  -- absorbing: a jailed record is frozen
  if state.isJailed then
    return reg
  else
    let (state', slash) ← applyEvent e state
    let pool ← creditPool e reg.totalSlashedPool slash
    return { reg with
      states := update reg.states ct state'
      totalSlashedPool := pool
      appealSnapshots :=
        if e = .INVALID then update reg.appealSnapshots proofHash state
        else reg.appealSnapshots }

/-! ## §6. Appeals, rounds, administration. -/

/-- The key an appeal is stored under. -/
def appealKey (committer : Address) (round : Nat) (proofHash : Bytes32) : Bytes32 :=
  keccak256 (abiEncode [.address committer, .uint256 round, .bytes32 proofHash])

/-- A committer appeals a fault of a recent round. -/
def fileAppeal (msg : Msg) (round : Nat) (proofHash : Bytes32)
    (reg : ReputationRegistry) : Except Revert ReputationRegistry := do
  require ((reg.states msg.sender).isRegistered = true) "Not registered"
  let lastRound ← addU256 round APPEAL_WINDOW
  require (reg.currentRound ≤ lastRound) "Appeal window expired"
  let appealId := appealKey msg.sender round proofHash
  require ((reg.appeals appealId).resolved = false) "Already resolved"
  return { reg with
    appeals := update reg.appeals appealId
      { committer := msg.sender
        round := round
        proofHash := proofHash
        filedAt := reg.currentRound
        resolved := false
        upheld := false } }

/-- What an upheld appeal takes out of the slashed pool: the stake missing with
respect to the snapshot, if the pool covers it. -/
def poolAfterRefund (pool current snapshot : Nat) : Nat :=
  let slashedAmount := if current < snapshot then snapshot - current else 0
  if slashedAmount > 0 ∧ pool ≥ slashedAmount then pool - slashedAmount else pool

/-- An auditor decides an appeal; upheld, the snapshot comes back. -/
def resolveAppeal (msg : Msg) (appealId : Bytes32) (upheld : Bool)
    (reg : ReputationRegistry) : Except Revert ReputationRegistry := do
  require (reg.authorizedAuditors msg.sender = true) "Not authorized auditor"
  let a := reg.appeals appealId
  require (a.resolved = false) "Appeal already resolved"
  let reg := { reg with
    appeals := update reg.appeals appealId { a with resolved := true, upheld := upheld } }
  if upheld then
    let snap := reg.appealSnapshots a.proofHash
    require (snap.isRegistered = true) "Snapshot missing"
    return { reg with
      totalSlashedPool := poolAfterRefund reg.totalSlashedPool
        (reg.states a.committer).stakedAmount snap.stakedAmount
      states := update reg.states a.committer snap }
  else
    return reg

/-- An auditor starts the next round. -/
def advanceRound (msg : Msg) (reg : ReputationRegistry) : Except Revert ReputationRegistry := do
  require (reg.authorizedAuditors msg.sender = true) "Not authorized"
  let next ← addU256 reg.currentRound 1
  return { reg with currentRound := next }

/-- The owner names or dismisses an auditor. -/
def setAuthorizedAuditor (msg : Msg) (auditor : Address) (status : Bool)
    (reg : ReputationRegistry) : Except Revert ReputationRegistry := do
  require (msg.sender = reg.owner) "Not owner"
  return { reg with
    authorizedAuditors := update reg.authorizedAuditors auditor status }

/-! ## §7. Transactions. -/

/-- The state-changing external functions with their arguments. -/
inductive Call where
  | registerCommitter (value nonce : Nat) (endorsers : Address × Address)
  | updateState (ct : Address) (e : EventType) (proofHash : Bytes32)
  | fileAppeal (round : Nat) (proofHash : Bytes32)
  | resolveAppeal (appealId : Bytes32) (upheld : Bool)
  | advanceRound
  | setAuthorizedAuditor (auditor : Address) (status : Bool)
  deriving DecidableEq, Repr

/-- One transaction: a call in its context. -/
structure Tx where
  msg : Msg
  call : Call
  deriving DecidableEq, Repr

/-- Dispatch of a transaction. -/
def exec (tx : Tx) (reg : ReputationRegistry) : Except Revert ReputationRegistry :=
  match tx.call with
  | .registerCommitter value nonce endorsers =>
    registerCommitter tx.msg value nonce endorsers reg
  | .updateState ct e proofHash => updateState tx.msg ct e proofHash reg
  | .fileAppeal round proofHash => fileAppeal tx.msg round proofHash reg
  | .resolveAppeal appealId upheld => resolveAppeal tx.msg appealId upheld reg
  | .advanceRound => advanceRound tx.msg reg
  | .setAuthorizedAuditor auditor status => setAuthorizedAuditor tx.msg auditor status reg

end ReputationRegistry

end HZKA
