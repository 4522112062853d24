/-
  HZKA.Reputation.AppealWindow
  ────────────
  **WHICH FAULTS AN APPEAL IS ABOUT.**

  `fileAppeal` checks the round and the proof hash it is GIVEN: that the round is not older
  than the window, and that no appeal of the caller with the same round and hash is resolved.
  It never looks for a fault.

    • `appeals_sound` — if each filing names a round in which the caller was faulted under the
      hash, and a committer is faulted under one hash in one round only, then appeals are about
      recent faults and each fault is undone at most once;
    • `appeals_unsound` — neither holds along every run.

  That an appeal is stored under the key of its own data (`filed_run`) and that a resolved one
  stays (`resolved_step`) needs no condition.
-/
import HZKA.Reputation.Appeals

namespace HZKA.ReputationRegistry

open Function
open HZKA.Lib HZKA.EVM

/-! ## §1. What a transaction does to appeals and rounds. -/

/-- The three things a successful transaction does to the appeals. -/
inductive AppealEffect (reg reg' : ReputationRegistry) : Tx → Prop
  | file {msg : Msg} {round : Nat} {p : Bytes32} (guards : CanFile msg.sender round p reg)
      (state : reg' = afterFile msg round p reg) :
      AppealEffect reg reg' ⟨msg, .fileAppeal round p⟩
  | resolve {msg : Msg} {appealId : Bytes32} {upheld : Bool}
      (unresolved : (reg.appeals appealId).resolved = false)
      (appeals : reg'.appeals = update reg.appeals appealId
        { reg.appeals appealId with resolved := true, upheld := upheld }) :
      AppealEffect reg reg' ⟨msg, .resolveAppeal appealId upheld⟩
  | frame {tx : Tx} (appeals : reg'.appeals = reg.appeals)
      (hfile : ∀ round p, tx.call ≠ .fileAppeal round p)
      (hresolve : ∀ appealId upheld, tx.call ≠ .resolveAppeal appealId upheld) :
      AppealEffect reg reg' tx

/-- An appeal is resolved once. -/
theorem resolveAppeal_appeals {msg : Msg} {appealId : Bytes32} {upheld : Bool}
    {reg reg' : ReputationRegistry} (h : resolveAppeal msg appealId upheld reg = .ok reg') :
    (reg.appeals appealId).resolved = false
      ∧ reg'.appeals = update reg.appeals appealId
        { reg.appeals appealId with resolved := true, upheld := upheld } := by
  simp only [resolveAppeal, bind_eq_ok, require_eq_ok] at h
  obtain ⟨_, _, _, hopen, h⟩ := h
  refine ⟨hopen, ?_⟩
  cases upheld with
  | true =>
    simp only [if_true, bind_eq_ok, pure_eq_ok, require_eq_ok] at h
    obtain ⟨_, _, rfl⟩ := h
    rfl
  | false =>
    rw [if_neg (by decide), pure_eq_ok] at h
    rw [← h]

/-- What a call does to the appeals. -/
theorem exec_appealEffect {tx : Tx} {reg reg' : ReputationRegistry} (h : exec tx reg = .ok reg') :
    AppealEffect reg reg' tx := by
  obtain ⟨msg, call⟩ := tx
  cases call with
  | fileAppeal round p =>
    obtain ⟨hcan, hafter⟩ := fileAppeal_eq_ok.mp h
    exact .file hcan hafter
  | resolveAppeal appealId upheld =>
    obtain ⟨hopen, happeals⟩ := resolveAppeal_appeals h
    exact .resolve hopen happeals
  | registerCommitter value nonce endorsers =>
    obtain ⟨-, rfl⟩ := registerCommitter_eq_ok_iff.mp h
    exact .frame rfl (by simp) (by simp)
  | updateState ct e p =>
    obtain ⟨-, rfl⟩ := updateState_eq_ok h
    refine .frame ?_ (by simp) (by simp)
    unfold afterUpdate
    split <;> rfl
  | advanceRound =>
    simp only [exec, advanceRound, bind_eq_ok, pure_eq_ok] at h
    obtain ⟨_, _, _, _, rfl⟩ := h
    exact .frame rfl (by simp) (by simp)
  | setAuthorizedAuditor auditor status =>
    simp only [exec, setAuthorizedAuditor, bind_eq_ok, pure_eq_ok] at h
    obtain ⟨_, _, rfl⟩ := h
    exact .frame rfl (by simp) (by simp)

theorem appeals_afterUphold (appealId : Bytes32) (reg : ReputationRegistry) :
    (afterUphold appealId reg).appeals appealId
      = { reg.appeals appealId with resolved := true, upheld := true } :=
  update_self ..

theorem resolved_afterUphold (appealId : Bytes32) (reg : ReputationRegistry) :
    ((afterUphold appealId reg).appeals appealId).resolved = true := by
  rw [appeals_afterUphold]

/-- A resolved appeal stays as it is. -/
theorem resolved_step {tx : Tx} {reg reg' : ReputationRegistry} {appealId : Bytes32}
    (hdone : (reg.appeals appealId).resolved = true) (h : exec tx reg = .ok reg') :
    (reg'.appeals appealId).resolved = true := by
  have hne : ∀ key, (reg.appeals key).resolved = false → appealId ≠ key := by
    intro key hkey heq
    rw [← heq, hdone] at hkey
    exact absurd hkey (by decide)
  cases exec_appealEffect h with
  | @file msg round p guards state =>
    rw [state, appeals_afterFile_of_ne msg reg (hne _ guards.unresolved)]
    exact hdone
  | resolve unresolved appeals =>
    rw [appeals, update_of_ne (hne _ unresolved)]
    exact hdone
  | frame appeals =>
    rw [appeals]
    exact hdone

theorem round_afterFile (msg : Msg) (round : Nat) (p : Bytes32) (reg : ReputationRegistry) :
    (afterFile msg round p reg).currentRound = reg.currentRound := rfl

/-- **One call** never lowers the round. -/
theorem round_step {tx : Tx} {reg reg' : ReputationRegistry} (h : exec tx reg = .ok reg') :
    reg.currentRound ≤ reg'.currentRound := by
  obtain ⟨msg, call⟩ := tx
  cases call with
  | fileAppeal round p =>
    obtain ⟨-, rfl⟩ := fileAppeal_eq_ok.mp h
    exact le_refl _
  | resolveAppeal appealId upheld =>
    simp only [exec, resolveAppeal, bind_eq_ok, require_eq_ok] at h
    obtain ⟨_, _, _, _, h⟩ := h
    cases upheld with
    | true =>
      simp only [if_true, bind_eq_ok, pure_eq_ok] at h
      obtain ⟨_, _, rfl⟩ := h
      exact le_refl _
    | false =>
      rw [if_neg (by decide), pure_eq_ok] at h
      rw [← h]
  | registerCommitter value nonce endorsers =>
    obtain ⟨-, rfl⟩ := registerCommitter_eq_ok_iff.mp h
    exact le_refl _
  | updateState ct e p =>
    obtain ⟨-, rfl⟩ := updateState_eq_ok h
    unfold afterUpdate
    split <;> exact le_refl _
  | advanceRound =>
    simp only [exec, advanceRound, bind_eq_ok, pure_eq_ok, addU256_eq_ok] at h
    obtain ⟨_, _, _, ⟨_, rfl⟩, rfl⟩ := h
    exact Nat.le_succ _
  | setAuthorizedAuditor auditor status =>
    simp only [exec, setAuthorizedAuditor, bind_eq_ok, pure_eq_ok] at h
    obtain ⟨_, _, rfl⟩ := h
    exact le_refl _

/-- **No run** lowers the round. -/
theorem round_run (reg : ReputationRegistry) (ts : List Tx) :
    reg.currentRound ≤ (run exec reg ts).currentRound :=
  run_invariant (P := fun r => reg.currentRound ≤ r.currentRound)
    (fun _ _ _ hle h => le_trans hle (round_step h)) ts (le_refl _)

/-! ## §2. Faults, and the two laws. -/

/-- After `before`, the report of a fault of `c` under `p` is recorded: it succeeds on a free
record. -/
structure Recorded (deployer : Address) (before : List Tx) (msg : Msg) (c : Address)
    (p : Bytes32) : Prop where
  taken : (exec (faultTx msg c p) (run exec (deploy deployer) before)).isOk = true
  free : ((run exec (deploy deployer) before).states c).isJailed = false

/-- In the course of `ts`, `c` received an INVALID event under `p` in round `q`. -/
def FaultedIn (deployer : Address) (ts : List Tx) (c : Address) (p : Bytes32) (q : Nat) : Prop :=
  ∃ before msg after, ts = before ++ faultTx msg c p :: after
    ∧ Recorded deployer before msg c p ∧ (run exec (deploy deployer) before).currentRound = q

/-- **Appeals are about recent faults**: each successful filing of the run follows a fault of
the caller under the hash, at most `APPEAL_WINDOW` rounds ago. -/
def AppealsRecent (deployer : Address) (ts : List Tx) : Prop :=
  ∀ before msg round p after, ts = before ++ ⟨msg, .fileAppeal round p⟩ :: after →
    (exec ⟨msg, .fileAppeal round p⟩ (run exec (deploy deployer) before)).isOk = true →
    ∃ q, FaultedIn deployer before msg.sender p q
      ∧ q ≤ (run exec (deploy deployer) before).currentRound
      ∧ (run exec (deploy deployer) before).currentRound ≤ q + APPEAL_WINDOW

/-- The fault of `c` under `p` recorded after `before` is undone after `mid`: an appeal of `c`
that names `p` is upheld while the snapshot under `p` is still the one of that fault. -/
structure Undone (deployer : Address) (ts before : List Tx) (msg : Msg) (c : Address)
    (p : Bytes32) (mid : List Tx) (m : Msg) (appealId : Bytes32) : Prop where
  split : ∃ after, ts
    = before ++ faultTx msg c p :: (mid ++ ⟨m, .resolveAppeal appealId true⟩ :: after)
  recorded : Recorded deployer before msg c p
  kept : StepsMeet exec (KeepsSnapshot p) (run exec (deploy deployer)
    (before ++ [faultTx msg c p])) mid
  upheld : CanUphold m.sender appealId (run exec (deploy deployer)
    (before ++ faultTx msg c p :: mid))
  committer : ((run exec (deploy deployer) (before ++ faultTx msg c p :: mid)).appeals
    appealId).committer = c
  proofHash : ((run exec (deploy deployer) (before ++ faultTx msg c p :: mid)).appeals
    appealId).proofHash = p

/-- **Each fault of an account is undone at most once** (no account has address zero). -/
def UndoneOnce (deployer : Address) (ts : List Tx) : Prop :=
  ∀ before msg c p mid m appealId mid' m' appealId', c ≠ 0 →
    Undone deployer ts before msg c p mid m appealId →
    Undone deployer ts before msg c p mid' m' appealId' → mid = mid'

/-- Each successful filing names a round in which the caller was faulted under the hash. -/
def OwnRound (deployer : Address) (ts : List Tx) : Prop :=
  ∀ before msg round p after, ts = before ++ ⟨msg, .fileAppeal round p⟩ :: after →
    (exec ⟨msg, .fileAppeal round p⟩ (run exec (deploy deployer) before)).isOk = true →
    FaultedIn deployer before msg.sender p round

/-- A committer is faulted under one hash in one round only. -/
def OneRound (deployer : Address) (ts : List Tx) : Prop :=
  ∀ c p q q', FaultedIn deployer ts c p q → FaultedIn deployer ts c p q' → q = q'

theorem FaultedIn.append {deployer : Address} {ts : List Tx} {c : Address} {p : Bytes32} {q : Nat}
    (h : FaultedIn deployer ts c p q) (us : List Tx) : FaultedIn deployer (ts ++ us) c p q := by
  obtain ⟨before, msg, after, rfl, hfacts⟩ := h
  exact ⟨before, msg, after ++ us, by rw [List.append_assoc, List.cons_append], hfacts⟩

theorem OwnRound.of_append {deployer : Address} {ts us : List Tx}
    (h : OwnRound deployer (ts ++ us)) : OwnRound deployer ts := by
  intro before msg round p after hts
  apply h before msg round p (after ++ us)
  rw [hts, List.append_assoc, List.cons_append]

/-- A fault's round is not ahead of the current one. -/
theorem FaultedIn.le_current {deployer : Address} {ts : List Tx} {c : Address} {p : Bytes32}
    {q : Nat} (h : FaultedIn deployer ts c p q) :
    q ≤ (run exec (deploy deployer) ts).currentRound := by
  obtain ⟨before, msg, after, rfl, -, rfl⟩ := h
  rw [run_append]
  exact round_run _ _

/-! ## §3. Appeals on record. -/

/-- Every appeal of an account stands under the key of its own data, and its round is the round
of a fault. -/
def FiledInv (deployer : Address) (ts : List Tx) (reg : ReputationRegistry) : Prop :=
  ∀ appealId, (reg.appeals appealId).committer ≠ 0 →
    appealId = appealKey (reg.appeals appealId).committer (reg.appeals appealId).round
        (reg.appeals appealId).proofHash
      ∧ FaultedIn deployer ts (reg.appeals appealId).committer (reg.appeals appealId).proofHash
        (reg.appeals appealId).round

theorem FiledInv.append {deployer : Address} {ts : List Tx} {reg : ReputationRegistry}
    (h : FiledInv deployer ts reg) (us : List Tx) : FiledInv deployer (ts ++ us) reg := by
  intro appealId hreal
  obtain ⟨hkey, hfault⟩ := h appealId hreal
  exact ⟨hkey, hfault.append us⟩

/-- Only the data of an appeal matter. -/
theorem FiledInv.congr {deployer : Address} {ts : List Tx} {reg reg' : ReputationRegistry}
    (h : FiledInv deployer ts reg)
    (hsame : ∀ appealId, (reg'.appeals appealId).committer = (reg.appeals appealId).committer
      ∧ (reg'.appeals appealId).round = (reg.appeals appealId).round
      ∧ (reg'.appeals appealId).proofHash = (reg.appeals appealId).proofHash) :
    FiledInv deployer ts reg' := by
  intro appealId hreal
  obtain ⟨hc, hr, hp⟩ := hsame appealId
  rw [hc] at hreal
  rw [hc, hr, hp]
  exact h appealId hreal

/-- **Every run** keeps it. -/
theorem filed_run (deployer : Address) (ts : List Tx) (hown : OwnRound deployer ts) :
    FiledInv deployer ts (run exec (deploy deployer) ts) := by
  refine run_history (P := fun ts reg => OwnRound deployer ts → FiledInv deployer ts reg)
    ?_ ?_ ?_ ts hown
  · -- nothing is filed yet
    intro _ appealId hreal
    exact absurd rfl hreal
  · intro ts tx reg' ih hx hown
    have hinv := (ih hown.of_append).append [tx]
    cases exec_appealEffect hx with
    | @file msg round p guards state =>
      have hfault := (hown ts msg round p [] rfl (isOk_of_eq hx)).append [⟨msg, .fileAppeal round p⟩]
      intro appealId hreal
      by_cases hid : appealId = appealKey msg.sender round p
      · rw [state, hid, appeals_afterFile]
        exact ⟨rfl, hfault⟩
      · rw [state, appeals_afterFile_of_ne msg _ hid] at hreal ⊢
        exact hinv appealId hreal
    | @resolve msg key upheld unresolved appeals =>
      refine hinv.congr ?_
      intro appealId
      rw [appeals]
      by_cases hid : appealId = key
      · rw [hid, update_self]
        exact ⟨rfl, rfl, rfl⟩
      · rw [update_of_ne hid]
        exact ⟨rfl, rfl, rfl⟩
    | frame appeals =>
      refine hinv.congr ?_
      intro appealId
      rw [appeals]
      exact ⟨rfl, rfl, rfl⟩
  · intro ts tx ih hown
    exact (ih hown.of_append).append [tx]

/-- Resolved stays resolved. -/
theorem resolved_run {reg : ReputationRegistry} {appealId : Bytes32}
    (hdone : (reg.appeals appealId).resolved = true) (ts : List Tx) :
    ((run exec reg ts).appeals appealId).resolved = true :=
  run_invariant (P := fun r => (r.appeals appealId).resolved = true)
    (fun _ _ _ hdone h => resolved_step hdone h) ts hdone

/-! ## §4. The laws, under the condition. -/

/-- An appeal of `c` about `p` has the key of the round `c` was faulted in. -/
theorem appealKey_of_filed {deployer : Address} {ts : List Tx} {appealId : Bytes32} {c : Address}
    {p : Bytes32} (hown : OwnRound deployer ts) (hc : c ≠ 0)
    (hcommitter : ((run exec (deploy deployer) ts).appeals appealId).committer = c)
    (hproof : ((run exec (deploy deployer) ts).appeals appealId).proofHash = p) :
    ∃ q, FaultedIn deployer ts c p q ∧ appealId = appealKey c q p := by
  obtain ⟨hkey, hfault⟩ := filed_run deployer ts hown appealId (by rw [hcommitter]; exact hc)
  rw [hcommitter, hproof] at hkey hfault
  exact ⟨_, hfault, hkey⟩

/-- A fault undone once is not undone again: the second appeal would have the key of the first,
which is resolved. -/
theorem not_undone_again {deployer : Address} {ts before : List Tx} {msg : Msg} {c : Address}
    {p : Bytes32} {mid more : List Tx} {m m' : Msg} {appealId appealId' : Bytes32}
    (hown : OwnRound deployer ts) (hone : OneRound deployer ts) (hc : c ≠ 0)
    (h : Undone deployer ts before msg c p mid m appealId)
    (h' : Undone deployer ts before msg c p (mid ++ ⟨m, .resolveAppeal appealId true⟩ :: more)
      m' appealId') : False := by
  obtain ⟨after, hts⟩ := h.split
  obtain ⟨after', hts'⟩ := h'.split
  have hsplit : ts = (before ++ faultTx msg c p :: mid)
      ++ ⟨m, .resolveAppeal appealId true⟩ :: after := by
    rw [hts, List.append_assoc, List.cons_append]
  have hsplit' : ts = (before ++ faultTx msg c p
      :: (mid ++ ⟨m, .resolveAppeal appealId true⟩ :: more))
      ++ ⟨m', .resolveAppeal appealId' true⟩ :: after' := by
    rw [hts', List.append_assoc, List.append_assoc, List.cons_append, List.cons_append,
      List.append_assoc, List.cons_append]
  -- both appeals name the one round of the fault
  obtain ⟨q, hq, hkey⟩ := appealKey_of_filed (OwnRound.of_append (hsplit ▸ hown)) hc
    h.committer h.proofHash
  obtain ⟨q', hq', hkey'⟩ := appealKey_of_filed (OwnRound.of_append (hsplit' ▸ hown)) hc
    h'.committer h'.proofHash
  have hround : q = q' := by
    apply hone c p
    · rw [hsplit]
      exact hq.append _
    · rw [hsplit']
      exact hq'.append _
  have hsame : appealId' = appealId := by rw [hkey, hkey', hround]
  have hopen := h'.upheld.unresolved
  have hrun : run exec (deploy deployer)
      (before ++ faultTx msg c p :: (mid ++ ⟨m, .resolveAppeal appealId true⟩ :: more))
      = run exec (afterUphold appealId (run exec (deploy deployer)
        (before ++ faultTx msg c p :: mid))) more := by
    rw [← List.cons_append, ← List.append_assoc, run_append, run_cons,
      commit_of_ok (exec_uphold h.upheld)]
  rw [hsame, hrun, resolved_run (resolved_afterUphold appealId _) more] at hopen
  exact absurd hopen (by decide)

/-- The genesis account with a fault under hash `7`. -/
def genesisFaulted : ReputationRegistry := commit exec (deploy genesis) (faultTx genesisMsg genesis 7)

theorem genesisFaulted_facts :
    (exec (faultTx genesisMsg genesis 7) (deploy genesis)).isOk = true
      ∧ genesisFaulted.authorizedAuditors genesis = true ∧ genesisFaulted.currentRound = 1
      ∧ (genesisFaulted.states genesis).isRegistered = true
      ∧ (genesisFaulted.appealSnapshots 7).isRegistered = true := by
  decide +kernel

theorem genesis_recorded : Recorded genesis [] genesisMsg genesis 7 := by
  refine ⟨genesisFaulted_facts.1, ?_⟩
  rw [run_nil, deploy_states_self]
  rfl

/-- **Appeals concern recent faults, and each fault is undone once**, along every run whose
filings name the round of an own fault and whose faults of one committer under one hash fall
into one round. -/
theorem appeals_sound (deployer : Address) (ts : List Tx) (hown : OwnRound deployer ts)
    (hone : OneRound deployer ts) : AppealsRecent deployer ts ∧ UndoneOnce deployer ts := by
  constructor
  · intro before msg round p after hts hok
    have hfault := hown before msg round p after hts hok
    refine ⟨round, hfault, hfault.le_current, ?_⟩
    exact (fileAppeal_eq_ok.mp (exec_eq_ok_commit hok)).1.window
  · intro before msg c p mid m appealId mid' m' appealId' hc h h'
    obtain ⟨after, hts⟩ := h.split
    obtain ⟨after', hts'⟩ := h'.split
    have htail := List.cons.inj (List.append_cancel_left (hts.symm.trans hts'))
    rcases split_cases rfl htail.2 with ⟨hmid, -⟩ | ⟨more, hmid⟩ | ⟨more, hmid⟩
    · exact hmid
    · exact (not_undone_again hown hone hc h (hmid ▸ h')).elim
    · exact (not_undone_again hown hone hc h' (hmid ▸ h)).elim

/-- The genesis account is faulted under hash `7`, appeals for round `1`, the round of that
fault, and the appeal is upheld: the run meets both conditions. -/
theorem genesis_appeals_sound :
    AppealsRecent genesis [faultTx genesisMsg genesis 7, ⟨genesisMsg, .fileAppeal 1 7⟩,
        ⟨genesisMsg, .resolveAppeal (appealKey genesis 1 7) true⟩]
      ∧ UndoneOnce genesis [faultTx genesisMsg genesis 7, ⟨genesisMsg, .fileAppeal 1 7⟩,
        ⟨genesisMsg, .resolveAppeal (appealKey genesis 1 7) true⟩] := by
  apply appeals_sound
  · intro before msg round p after hts _
    rcases before with _ | ⟨first, _ | ⟨second, _ | ⟨third, rest⟩⟩⟩
    · exact absurd (congrArg Tx.call (List.cons.inj hts).1) (by simp [faultTx])
    · obtain ⟨rfl, htail⟩ := List.cons.inj hts
      obtain ⟨hfile, -⟩ := List.cons.inj htail
      obtain ⟨rfl, hcall⟩ := Tx.mk.inj hfile
      obtain ⟨rfl, rfl⟩ := Call.fileAppeal.inj hcall
      exact ⟨[], genesisMsg, [], rfl, genesis_recorded, rfl⟩
    · obtain ⟨-, htail⟩ := List.cons.inj hts
      obtain ⟨-, htail⟩ := List.cons.inj htail
      exact absurd (congrArg Tx.call (List.cons.inj htail).1) (by simp)
    · exact absurd (congrArg List.length hts) (by simp)
  · -- the only fault is the first transaction
    have hfirst : ∀ c p q, FaultedIn genesis [faultTx genesisMsg genesis 7,
        ⟨genesisMsg, .fileAppeal 1 7⟩, ⟨genesisMsg, .resolveAppeal (appealKey genesis 1 7) true⟩]
        c p q → q = 1 := by
      intro c p q h
      obtain ⟨before, msg, after, hts, -, rfl⟩ := h
      rcases before with _ | ⟨first, _ | ⟨second, _ | ⟨third, rest⟩⟩⟩
      · rfl
      · obtain ⟨-, htail⟩ := List.cons.inj hts
        exact absurd (congrArg Tx.call (List.cons.inj htail).1) (by simp [faultTx])
      · obtain ⟨-, htail⟩ := List.cons.inj hts
        obtain ⟨-, htail⟩ := List.cons.inj htail
        exact absurd (congrArg Tx.call (List.cons.inj htail).1) (by simp [faultTx])
      · exact absurd (congrArg List.length hts) (by simp)
    intro c p q q' h h'
    rw [hfirst c p q h, hfirst c p q' h']

/-! ## §5. Without the condition. -/

/-- **Filing again under another round**: after an appeal of `msg.sender` about `p` is upheld,
the same account may file about `p` with any other round inside the window, and that appeal may
be upheld too. -/
theorem refile {msg m : Msg} {round round' : Nat} {p : Bytes32} {reg : ReputationRegistry}
    (hcan : CanUphold m.sender (appealKey msg.sender round p) reg)
    (hcommitter : (reg.appeals (appealKey msg.sender round p)).committer = msg.sender)
    (hproof : (reg.appeals (appealKey msg.sender round p)).proofHash = p)
    (hroom : round' + APPEAL_WINDOW < 2 ^ 256) (hwindow : reg.currentRound ≤ round' + APPEAL_WINDOW)
    (hkeys : appealKey msg.sender round' p ≠ appealKey msg.sender round p)
    (hopen : (reg.appeals (appealKey msg.sender round' p)).resolved = false) :
    CanFile msg.sender round' p (afterUphold (appealKey msg.sender round p) reg)
      ∧ CanUphold m.sender (appealKey msg.sender round' p)
        (afterFile msg round' p (afterUphold (appealKey msg.sender round p) reg)) := by
  have hsnap := hcan.snapshot
  rw [hproof] at hsnap
  constructor
  · refine ⟨?_, hroom, hwindow, ?_⟩
    · -- the restored record is a registered one
      rw [states_afterUphold, hcommitter, hproof, update_self]
      exact hsnap
    · rw [appeals_afterUphold_of_ne reg hkeys]
      exact hopen
  · refine ⟨hcan.authorized, ?_, ?_⟩
    · rw [appeals_afterFile]
    · rw [appeals_afterFile]
      exact hsnap

theorem rounds_apart : appealKey genesis 2 7 ≠ appealKey genesis 1 7 := by
  decide +kernel

/-- The storage after the first filing. -/
def genesisFiled : ReputationRegistry := afterFile genesisMsg 1 7 genesisFaulted

theorem exec_genesisFiles : exec ⟨genesisMsg, .fileAppeal 1 7⟩ genesisFaulted = .ok genesisFiled := by
  obtain ⟨-, -, hround, hregistered, -⟩ := genesisFaulted_facts
  refine fileAppeal_eq_ok.mpr ⟨⟨hregistered, ?_, ?_, ?_⟩, rfl⟩
  · norm_num [APPEAL_WINDOW]
  · rw [hround]
    omega
  · rw [genesisFaulted, appeals_commit_fault]
    rfl

theorem genesisFiled_upholds : CanUphold genesis (appealKey genesis 1 7) genesisFiled := by
  obtain ⟨-, hauth, -, -, hsnap⟩ := genesisFaulted_facts
  have hstored : genesisFiled.appeals (appealKey genesis 1 7)
      = ⟨genesis, 1, 7, genesisFaulted.currentRound, false, false⟩ :=
    appeals_afterFile genesisMsg 1 7 genesisFaulted
  refine ⟨hauth, ?_, ?_⟩
  · rw [hstored]
  · rw [hstored]
    exact hsnap

/-- The calls of the genesis account after its fault. -/
def genesisFiles (round : Nat) : Tx := ⟨genesisMsg, .fileAppeal round 7⟩

/-- The appeal of a round upheld. -/
def genesisUpholds (round : Nat) : Tx := ⟨genesisMsg, .resolveAppeal (appealKey genesis round 7) true⟩

theorem run_genesisFiles (ts : List Tx) :
    run exec (deploy genesis) (faultTx genesisMsg genesis 7 :: genesisFiles 1 :: ts)
      = run exec genesisFiled ts := by
  rw [run_cons, run_cons]
  show run exec (commit exec genesisFaulted (genesisFiles 1)) ts = _
  rw [genesisFiles, commit_of_ok exec_genesisFiles]

/-- The fault of the genesis account is undone through round `1`, then through round `2`. -/
theorem genesis_undone_twice :
    Undone genesis [faultTx genesisMsg genesis 7, genesisFiles 1, genesisUpholds 1, genesisFiles 2,
        genesisUpholds 2] [] genesisMsg genesis 7 [genesisFiles 1] genesisMsg (appealKey genesis 1 7)
      ∧ Undone genesis [faultTx genesisMsg genesis 7, genesisFiles 1, genesisUpholds 1,
        genesisFiles 2, genesisUpholds 2] [] genesisMsg genesis 7
        [genesisFiles 1, genesisUpholds 1, genesisFiles 2] genesisMsg (appealKey genesis 2 7) := by
  have hstored : genesisFiled.appeals (appealKey genesis 1 7)
      = ⟨genesis, 1, 7, genesisFaulted.currentRound, false, false⟩ :=
    appeals_afterFile genesisMsg 1 7 genesisFaulted
  have hopen : (genesisFiled.appeals (appealKey genesis 2 7)).resolved = false := by
    rw [show genesisFiled.appeals (appealKey genesis 2 7) = _ from
      appeals_afterFile_of_ne genesisMsg genesisFaulted rounds_apart, genesisFaulted,
      appeals_commit_fault]
    rfl
  obtain ⟨-, -, hround, -, -⟩ := genesisFaulted_facts
  have hkept : genesisFiled.currentRound = genesisFaulted.currentRound :=
    round_afterFile genesisMsg 1 7 genesisFaulted
  have hroom : 2 + APPEAL_WINDOW < 2 ^ 256 := by norm_num [APPEAL_WINDOW]
  have hwindow : genesisFiled.currentRound ≤ 2 + APPEAL_WINDOW := by
    rw [hkept, hround]
    omega
  have hcommitter : (genesisFiled.appeals (appealKey genesis 1 7)).committer = genesis := by
    rw [hstored]
  have hproof : (genesisFiled.appeals (appealKey genesis 1 7)).proofHash = 7 := by rw [hstored]
  have hagain := @refile genesisMsg genesisMsg 1 2 7 genesisFiled genesisFiled_upholds hcommitter
    hproof hroom hwindow rounds_apart hopen
  obtain ⟨hfile, huphold⟩ := hagain
  have hfirst : run exec (deploy genesis) ([] ++ faultTx genesisMsg genesis 7 :: [genesisFiles 1])
      = genesisFiled := run_genesisFiles []
  have hsecond : run exec (deploy genesis) ([] ++ faultTx genesisMsg genesis 7
      :: [genesisFiles 1, genesisUpholds 1, genesisFiles 2])
      = afterFile genesisMsg 2 7 (afterUphold (appealKey genesis 1 7) genesisFiled) := by
    have hexec : exec (genesisFiles 2) (afterUphold (appealKey genesis 1 7) genesisFiled)
        = .ok (afterFile genesisMsg 2 7 (afterUphold (appealKey genesis 1 7) genesisFiled)) :=
      fileAppeal_eq_ok.mpr ⟨hfile, rfl⟩
    rw [List.nil_append, run_genesisFiles, run_cons, genesisUpholds,
      commit_of_ok (exec_uphold genesisFiled_upholds), run_cons, commit_of_ok hexec, run_nil]
  have hstored' := appeals_afterFile genesisMsg 2 7 (afterUphold (appealKey genesis 1 7) genesisFiled)
  constructor
  · refine ⟨⟨[genesisFiles 2, genesisUpholds 2], rfl⟩, genesis_recorded, ?_, ?_, ?_, ?_⟩
    · exact stepsMeet_of_forall (by simp [genesisFiles, KeepsSnapshot]) _
    · rw [hfirst]
      exact genesisFiled_upholds
    · rw [hfirst, hstored]
    · rw [hfirst, hstored]
  · refine ⟨⟨[], rfl⟩, genesis_recorded, ?_, ?_, ?_, ?_⟩
    · exact stepsMeet_of_forall (by simp [genesisFiles, genesisUpholds, KeepsSnapshot]) _
    · rw [hsecond]
      exact huphold
    · rw [hsecond]
      exact congrArg Appeal.committer hstored'
    · rw [hsecond]
      exact congrArg Appeal.proofHash hstored'

/-- **Neither law holds along every run.** -/
theorem appeals_unsound :
    (¬ ∀ (deployer : Address) (ts : List Tx), AppealsRecent deployer ts)
      ∧ ¬ ∀ (deployer : Address) (ts : List Tx), UndoneOnce deployer ts := by
  constructor
  · -- an appeal against nothing
    intro hall
    have hcan : CanFile genesis 1 7 (deploy genesis) := by
      refine ⟨?_, ?_, ?_, rfl⟩
      · rw [deploy_states_self]
        rfl
      · norm_num [APPEAL_WINDOW]
      · show 1 ≤ 1 + APPEAL_WINDOW
        omega
    have hok : exec (genesisFiles 1) (deploy genesis) = .ok _ := fileAppeal_eq_ok.mpr ⟨hcan, rfl⟩
    obtain ⟨q, ⟨before, msg, after, hnil, -⟩, -⟩ :=
      hall genesis [genesisFiles 1] [] genesisMsg 1 7 [] rfl (isOk_of_eq hok)
    exact absurd hnil.symm (by simp)
  · intro hall
    obtain ⟨hfirst, hsecond⟩ := genesis_undone_twice
    have hsame := hall genesis _ [] genesisMsg genesis 7 _ genesisMsg _ _ genesisMsg _ (by decide)
      hfirst hsecond
    exact absurd (congrArg List.length hsame) (by decide)

end HZKA.ReputationRegistry
