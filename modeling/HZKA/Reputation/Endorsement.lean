/-
  HZKA.Reputation.Endorsement
  ────────────
  **WHO VOUCHED FOR WHOM.**

  A registration names two endorsers, and the record keeps them.  `Sponsored` says that every
  record except the genesis one carries the endorsers of its own registration, two different
  accounts that were registered and well reputed at that time.

    • `endorsement_graph_iff` — the records stay sponsored along a run EXACTLY when each
      registration names two different endorsers and each upheld appeal gives back the
      endorsers the appellant already has;
    • `rooted_of_sponsored` — sponsored records have no cycle: whoever follows endorsers
      arrives at the genesis account, since each step leads to an EARLIER registration;
    • `endorsement_graph_broken` — the contract checks neither condition.
-/
import HZKA.Reputation.Appeals

namespace HZKA.ReputationRegistry

open Function
open HZKA.Lib HZKA.EVM

/-! ## §1. Registered once. -/

/-- The deployer stays registered. -/
theorem genesis_registered (deployer : Address) (ts : List Tx) :
    ((run exec (deploy deployer) ts).states deployer).isRegistered = true := by
  apply registered_run
  rw [deploy_states_self]
  rfl

/-! ## §2. The endorsement graph. -/

/-- `e` may endorse: it is registered, with an effective reputation of at least `0.7`. -/
def Endorses (e : Address) (reg : ReputationRegistry) : Prop :=
  (reg.states e).isRegistered = true
    ∧ ∃ r, getEffectiveReputation e reg = .ok r ∧ R_ENDORSE_MIN ≤ r

/-- In the course of `ts`, right after `before`, `c` is registered with these endorsers, who
both may endorse at that time. -/
structure EndorsedAt (deployer : Address) (ts before : List Tx) (c : Address)
    (endorsers : Address × Address) : Prop where
  registration : ∃ msg value nonce after, msg.sender = c
    ∧ ts = before ++ ⟨msg, .registerCommitter value nonce endorsers⟩ :: after
    ∧ (exec ⟨msg, .registerCommitter value nonce endorsers⟩
        (run exec (deploy deployer) before)).isOk = true
  endorser₀ : Endorses endorsers.1 (run exec (deploy deployer) before)
  endorser₁ : Endorses endorsers.2 (run exec (deploy deployer) before)

/-- **Sponsored records**: each registered committer but the genesis account has two distinct
endorsers on record, the ones of its registration. -/
def Sponsored (deployer : Address) (ts : List Tx) (reg : ReputationRegistry) : Prop :=
  ∀ c, c ≠ deployer → (reg.states c).isRegistered = true →
    (reg.states c).endorsedBy.1 ≠ (reg.states c).endorsedBy.2
      ∧ ∃ before, EndorsedAt deployer ts before c (reg.states c).endorsedBy

/-- A walk goes from an account to one of its endorsers, for ever. -/
def Walk (reg : ReputationRegistry) (w : Nat → Address) : Prop :=
  ∀ n, w (n + 1) = (reg.states (w n)).endorsedBy.1 ∨ w (n + 1) = (reg.states (w n)).endorsedBy.2

/-- **Rooted records**: whoever follows endorsers from a committer meets the genesis account. -/
def Rooted (deployer : Address) (reg : ReputationRegistry) : Prop :=
  ∀ w, Walk reg w → (reg.states (w 0)).isRegistered = true → ∃ n, w n = deployer

theorem EndorsedAt.append {deployer : Address} {ts before : List Tx} {c : Address}
    {endorsers : Address × Address} (h : EndorsedAt deployer ts before c endorsers)
    (us : List Tx) : EndorsedAt deployer (ts ++ us) before c endorsers := by
  obtain ⟨⟨msg, value, nonce, after, hsender, rfl, hok⟩, h₀, h₁⟩ := h
  refine ⟨⟨msg, value, nonce, after ++ us, hsender, ?_, hok⟩, h₀, h₁⟩
  rw [List.append_assoc, List.cons_append]

/-- Nobody registered is registered again. -/
theorem EndorsedAt.fresh {deployer : Address} {ts before : List Tx} {c : Address}
    {endorsers : Address × Address} (h : EndorsedAt deployer ts before c endorsers) :
    ((run exec (deploy deployer) before).states c).isRegistered = false := by
  obtain ⟨msg, value, nonce, after, rfl, -, hok⟩ := h.registration
  exact (registerCommitter_eq_ok_iff.mp (exec_eq_ok_commit hok)).1.fresh

theorem afterRegister_states (sender : Address) (value : Nat) (endorsers : Address × Address)
    (reg : ReputationRegistry) : (afterRegister sender value endorsers reg).states sender
      = registrationState value reg.currentRound endorsers :=
  update_self ..

/-- A registration leaves its sender registered. -/
theorem registered_after {msg : Msg} {value nonce : Nat} {endorsers : Address × Address}
    {reg : ReputationRegistry}
    (hok : (exec ⟨msg, .registerCommitter value nonce endorsers⟩ reg).isOk = true)
    (more : List Tx) :
    ((run exec reg (⟨msg, .registerCommitter value nonce endorsers⟩ :: more)).states
      msg.sender).isRegistered = true := by
  rw [run_cons]
  apply registered_run
  have hexec := exec_eq_ok_commit hok
  obtain ⟨-, hafter⟩ := registerCommitter_eq_ok_iff.mp (show registerCommitter msg value nonce
    endorsers reg = .ok (commit exec reg ⟨msg, .registerCommitter value nonce endorsers⟩) from hexec)
  rw [hafter, afterRegister_states]
  rfl

/-- Whoever is registered somewhere in a run is registered at the end. -/
theorem EndorsedAt.registered {deployer : Address} {ts before : List Tx} {c : Address}
    {endorsers : Address × Address} (h : EndorsedAt deployer ts before c endorsers) :
    ((run exec (deploy deployer) ts).states c).isRegistered = true := by
  obtain ⟨msg, value, nonce, after, rfl, rfl, hok⟩ := h.registration
  rw [run_append]
  exact registered_after hok after

/-- **One registration each.** -/
theorem EndorsedAt.unique {deployer : Address} {ts before before' : List Tx} {c : Address}
    {endorsers endorsers' : Address × Address} (h : EndorsedAt deployer ts before c endorsers)
    (h' : EndorsedAt deployer ts before' c endorsers') : endorsers = endorsers' := by
  obtain ⟨msg, value, nonce, after, hsender, hts, hok⟩ := h.registration
  obtain ⟨msg', value', nonce', after', hsender', hts', hok'⟩ := h'.registration
  rcases split_cases hts hts' with ⟨-, htx⟩ | ⟨mid, hmid⟩ | ⟨mid, hmid⟩
  · cases htx
    rfl
  · have hdone := registered_after hok mid
    rw [← run_append, ← hmid, hsender, h'.fresh] at hdone
    exact absurd hdone (by decide)
  · have hdone := registered_after hok' mid
    rw [← run_append, ← hmid, hsender', h.fresh] at hdone
    exact absurd hdone (by decide)

/-- Someone registered by then was registered before. -/
theorem EndorsedAt.earlier {deployer : Address} {ts before before' : List Tx} {c e : Address}
    {endorsers endorsers' : Address × Address} (h : EndorsedAt deployer ts before c endorsers)
    (h' : EndorsedAt deployer ts before' e endorsers')
    (he : ((run exec (deploy deployer) before).states e).isRegistered = true) :
    before'.length < before.length := by
  obtain ⟨msg, value, nonce, after, -, hts, -⟩ := h.registration
  obtain ⟨msg', value', nonce', after', -, hts', -⟩ := h'.registration
  have hfresh := h'.fresh
  rcases split_cases hts hts' with ⟨hsame, -⟩ | ⟨mid, hmid⟩ | ⟨mid, hmid⟩
  · rw [← hsame, he] at hfresh
    exact absurd hfresh (by decide)
  · rw [hmid, run_append, registered_run he] at hfresh
    exact absurd hfresh (by decide)
  · rw [hmid, List.length_append, List.length_cons]
    omega

/-- A walk from a committer registered after `before` meets the genesis account. -/
theorem walk_meets {deployer : Address} {ts : List Tx}
    (h : Sponsored deployer ts (run exec (deploy deployer) ts)) (m : Nat) :
    ∀ w before endorsers, Walk (run exec (deploy deployer) ts) w → before.length = m →
      EndorsedAt deployer ts before (w 0) endorsers → ∃ n, w n = deployer := by
  -- on the time of registration: an endorser was registered earlier
  induction m using Nat.strong_induction_on with
  | _ m ih =>
    intro w before endorsers hwalk hlength hat
    by_cases hgenesis : w 0 = deployer
    · exact ⟨0, hgenesis⟩
    by_cases hnext : w 1 = deployer
    · exact ⟨1, hnext⟩
    obtain ⟨-, before₀, hat₀⟩ := h (w 0) hgenesis hat.registered
    have hthen : ((run exec (deploy deployer) before).states (w 1)).isRegistered = true := by
      rcases hwalk 0 with hw | hw
      · rw [hw, hat₀.unique hat]
        exact hat.endorser₀.1
      · rw [hw, hat₀.unique hat]
        exact hat.endorser₁.1
    have hnow : ((run exec (deploy deployer) ts).states (w 1)).isRegistered = true := by
      obtain ⟨msg, value, nonce, after, -, hts, -⟩ := hat.registration
      rw [hts, run_append]
      exact registered_run hthen _
    obtain ⟨-, before₁, hat₁⟩ := h (w 1) hnext hnow
    have hearlier := hat.earlier hat₁ hthen
    obtain ⟨n, hn⟩ := ih before₁.length (by omega) (fun n => w (n + 1)) before₁ _
      (fun n => hwalk (n + 1)) rfl hat₁
    exact ⟨n + 1, hn⟩

/-- **Sponsored records are rooted.** -/
theorem rooted_of_sponsored {deployer : Address} {ts : List Tx}
    (h : Sponsored deployer ts (run exec (deploy deployer) ts)) :
    Rooted deployer (run exec (deploy deployer) ts) := by
  intro w hwalk hregistered
  by_cases hgenesis : w 0 = deployer
  · exact ⟨0, hgenesis⟩
  · obtain ⟨-, before, hat⟩ := h (w 0) hgenesis hregistered
    exact walk_meets h before.length w before _ hwalk rfl hat

/-! ## §3. When the records stay sponsored. -/

/-- The condition on a transaction that succeeds: a registration names two different
endorsers, and an upheld appeal leaves the appellant, a committer, with the endorsers it has.
The genesis account may get any record. -/
structure KeepsEndorsers (deployer : Address) (reg : ReputationRegistry) (tx : Tx) : Prop where
  distinct : ∀ value nonce endorsers, tx.call = .registerCommitter value nonce endorsers →
    (exec tx reg).isOk = true → endorsers.1 ≠ endorsers.2
  own : ∀ appealId, tx.call = .resolveAppeal appealId true → (exec tx reg).isOk = true →
    (reg.appeals appealId).committer = deployer
      ∨ (reg.states (reg.appeals appealId).committer).isRegistered = true
        ∧ (reg.appealSnapshots (reg.appeals appealId).proofHash).endorsedBy
          = (reg.states (reg.appeals appealId).committer).endorsedBy

theorem keepsEndorsers_of_error {deployer : Address} {tx : Tx} {reg : ReputationRegistry}
    {e : Revert} (h : exec tx reg = .error e) : KeepsEndorsers deployer reg tx := by
  constructor
  · intro value nonce endorsers _ hok
    rw [h] at hok
    exact absurd hok Bool.false_ne_true
  · intro appealId _ hok
    rw [h] at hok
    exact absurd hok Bool.false_ne_true

/-- A step that registers nobody and leaves all endorsers in place. -/
theorem Sponsored.congr {deployer : Address} {ts us : List Tx} {reg reg' : ReputationRegistry}
    (h : Sponsored deployer ts reg)
    (hsame : ∀ c, c ≠ deployer → (reg'.states c).isRegistered = true →
      (reg.states c).isRegistered = true
        ∧ (reg'.states c).endorsedBy = (reg.states c).endorsedBy) :
    Sponsored deployer (ts ++ us) reg' := by
  intro c hc hregistered
  obtain ⟨hbefore, hendorsers⟩ := hsame c hc hregistered
  obtain ⟨hdistinct, before, hat⟩ := h c hc hbefore
  rw [hendorsers]
  exact ⟨hdistinct, before, hat.append us⟩

theorem endorses_of_valid {e : Address} {reg : ReputationRegistry}
    (h : endorserValid (reg.states e) = .ok true) : Endorses e reg := by
  unfold endorserValid at h
  split at h
  next hreg =>
    rw [bind_eq_ok] at h
    obtain ⟨r, hr, hmin⟩ := h
    refine ⟨hreg, r, hr, ?_⟩
    exact of_decide_eq_true (pure_eq_ok.mp hmin)
  next => exact absurd (pure_eq_ok.mp h) (by decide)

/-- A registration has its sponsors. -/
theorem sponsored_register {deployer : Address} {ts : List Tx} {msg : Msg} {value nonce : Nat}
    {endorsers : Address × Address} {reg' : ReputationRegistry}
    (hQ : Sponsored deployer ts (run exec (deploy deployer) ts))
    (h : exec ⟨msg, .registerCommitter value nonce endorsers⟩ (run exec (deploy deployer) ts)
      = .ok reg') :
    Sponsored deployer (ts ++ [⟨msg, .registerCommitter value nonce endorsers⟩]) reg'
      ↔ endorsers.1 ≠ endorsers.2 := by
  obtain ⟨hcan, rfl⟩ := registerCommitter_eq_ok_iff.mp h
  have hrecord := afterRegister_states msg.sender value endorsers (run exec (deploy deployer) ts)
  constructor
  · intro hnext
    have hne : msg.sender ≠ deployer := by
      intro heq
      have hfresh := hcan.fresh
      rw [heq, genesis_registered] at hfresh
      exact absurd hfresh (by decide)
    obtain ⟨hdistinct, -⟩ := hnext msg.sender hne (by rw [hrecord]; rfl)
    rwa [hrecord] at hdistinct
  · intro hdistinct c hc hregistered
    by_cases hsender : c = msg.sender
    · rw [hsender, hrecord]
      refine ⟨hdistinct, ts, ?_, ?_, ?_⟩
      · exact ⟨msg, value, nonce, [], rfl, rfl, isOk_of_eq h⟩
      · exact endorses_of_valid hcan.endorser₀
      · exact endorses_of_valid hcan.endorser₁
    · have hframe : (afterRegister msg.sender value endorsers
          (run exec (deploy deployer) ts)).states c = (run exec (deploy deployer) ts).states c :=
        update_of_ne hsender ..
      rw [hframe] at hregistered ⊢
      obtain ⟨hold, before, hat⟩ := hQ c hc hregistered
      exact ⟨hold, before, hat.append _⟩

/-- A restored record has its sponsors. -/
theorem sponsored_restore {deployer : Address} {ts : List Tx} {tx : Tx} {appealId : Bytes32}
    (hQ : Sponsored deployer ts (run exec (deploy deployer) ts))
    (hsnap : ((run exec (deploy deployer) ts).appealSnapshots
      ((run exec (deploy deployer) ts).appeals appealId).proofHash).isRegistered = true)
    (hcall : tx.call = .resolveAppeal appealId true) :
    Sponsored deployer (ts ++ [tx]) (afterUphold appealId (run exec (deploy deployer) ts))
      ↔ ((run exec (deploy deployer) ts).appeals appealId).committer = deployer
        ∨ ((run exec (deploy deployer) ts).states
            ((run exec (deploy deployer) ts).appeals appealId).committer).isRegistered = true
          ∧ ((run exec (deploy deployer) ts).appealSnapshots
              ((run exec (deploy deployer) ts).appeals appealId).proofHash).endorsedBy
            = ((run exec (deploy deployer) ts).states
              ((run exec (deploy deployer) ts).appeals appealId).committer).endorsedBy := by
  generalize hreg : run exec (deploy deployer) ts = reg at *
  generalize hc : (reg.appeals appealId).committer = c
  generalize hp : (reg.appeals appealId).proofHash = p at hsnap ⊢
  have hself : (afterUphold appealId reg).states c = reg.appealSnapshots p := by
    rw [states_afterUphold, hc, hp, update_self]
  have hother : ∀ a, a ≠ c → (afterUphold appealId reg).states a = reg.states a := by
    intro a ha
    rw [states_afterUphold, hc, update_of_ne ha]
  constructor
  · intro hnext
    by_cases hgenesis : c = deployer
    · exact .inl hgenesis
    right
    obtain ⟨-, before, hat⟩ := hnext c hgenesis (by rw [hself]; exact hsnap)
    -- the registration behind the restored record lies in `ts`
    obtain ⟨msg, value, nonce, after, hsender, hts, hok⟩ := hat.registration
    have hold : EndorsedAt deployer ts before c ((afterUphold appealId reg).states c).endorsedBy := by
      rcases split_cases rfl hts with ⟨-, htx⟩ | ⟨mid, hmid⟩ | ⟨mid, hmid⟩
      · rw [htx] at hcall
        exact nomatch hcall
      · have hlength := congrArg List.length hts
        rw [hmid] at hlength
        simp only [List.length_append, List.length_cons, List.length_nil] at hlength
        omega
      · exact ⟨⟨msg, value, nonce, mid, hsender, hmid, hok⟩, hat.endorser₀, hat.endorser₁⟩
    have hregistered : (reg.states c).isRegistered = true := hreg ▸ hold.registered
    obtain ⟨-, before', hat'⟩ := hQ c hgenesis hregistered
    refine ⟨hregistered, ?_⟩
    rw [← hself]
    exact hold.unique hat'
  · rintro hown
    refine hQ.congr ?_
    intro a ha hregistered
    by_cases hac : a = c
    · obtain hgenesis | ⟨hcommitter, hendorsers⟩ := hown
      · exact absurd (hac.trans hgenesis) ha
      · rw [hac, hself]
        exact ⟨hcommitter, hendorsers⟩
    · rw [hother a hac] at hregistered ⊢
      exact ⟨hregistered, rfl⟩

/-- **One transaction keeps the records sponsored exactly when it meets the condition.** -/
theorem sponsored_step {deployer : Address} {ts : List Tx} {tx : Tx} {reg' : ReputationRegistry}
    (hQ : Sponsored deployer ts (run exec (deploy deployer) ts))
    (h : exec tx (run exec (deploy deployer) ts) = .ok reg') :
    Sponsored deployer (ts ++ [tx]) reg' ↔ KeepsEndorsers deployer (run exec (deploy deployer) ts) tx := by
  have hok := isOk_of_eq h
  cases exec_effect h with
  | @register msg value nonce endorsers reg hnew =>
    rw [sponsored_register hQ h]
    constructor
    · intro hdistinct
      refine ⟨?_, fun _ hc => nomatch hc⟩
      intro value' nonce' endorsers' hcall _
      cases hcall
      exact hdistinct
    · intro hkeeps
      exact hkeeps.distinct value nonce endorsers rfl hok
  | @event msg ct e p reg hreg hfree =>
    refine iff_of_true (hQ.congr ?_) ⟨(fun _ _ _ hc => nomatch hc), (fun _ hc => nomatch hc)⟩
    intro c _ hregistered
    dsimp only at hregistered ⊢
    by_cases hct : c = ct
    · rw [hct, update_self, nextState_endorsedBy]
      exact ⟨hreg, rfl⟩
    · rw [update_of_ne hct] at hregistered ⊢
      exact ⟨hregistered, rfl⟩
  | @restore msg appealId reg hcan =>
    rw [sponsored_restore hQ hcan.snapshot rfl]
    constructor
    · intro hown
      refine ⟨(fun _ _ _ hc => nomatch hc), ?_⟩
      intro id hcall _
      cases hcall
      exact hown
    · intro hkeeps
      exact hkeeps.own appealId rfl hok
  | frame hstates hpool hsnaps hregister hevent hresolve =>
    refine iff_of_true (hQ.congr ?_) ⟨?_, ?_⟩
    · intro c _ hregistered
      rw [hstates] at hregistered ⊢
      exact ⟨hregistered, rfl⟩
    · intro value nonce endorsers hcall
      exact absurd hcall (hregister value nonce endorsers)
    · intro appealId hcall
      exact absurd hcall (hresolve appealId)

/-- The deployer needs none. -/
theorem sponsored_deploy (deployer : Address) : Sponsored deployer [] (deploy deployer) := by
  intro c hc hregistered
  rw [deploy_states_of_ne hc] at hregistered
  exact absurd hregistered (by decide)

/-- **The endorsement graph stands along a run exactly when every transaction meets the
condition.** -/
theorem endorsement_graph_iff (deployer : Address) (ts : List Tx) :
    (∀ k, Sponsored deployer (ts.take k) (run exec (deploy deployer) (ts.take k))
        ∧ Rooted deployer (run exec (deploy deployer) (ts.take k)))
      ↔ StepsMeet exec (KeepsEndorsers deployer) (deploy deployer) ts := by
  rw [← run_history_iff (Q := Sponsored deployer) (sponsored_deploy deployer)
    (fun _ _ _ hQ h => sponsored_step hQ h)
    (fun _ _ hQ => hQ.congr (fun _ _ hregistered => ⟨hregistered, rfl⟩))
    (fun _ _ _ h => keepsEndorsers_of_error h)]
  constructor
  · intro hgraph k
    exact (hgraph k).1
  · intro hsponsored k
    exact ⟨hsponsored k, rooted_of_sponsored (hsponsored k)⟩

/-! ## §4. Without the condition. -/

/-- The calls that give `bob` the genesis record: both are faulted under one hash. -/
def bobOverwritten : List Tx :=
  bobRegisters :: faultTx genesisMsg bob 7
    :: (crossFault ++ [⟨genesisMsg, .resolveAppeal bobAppealId true⟩])

/-- The genesis record has no endorsers. -/
theorem crossFaulted_endorsers :
    (crossFaulted.appealSnapshots 7).endorsedBy = (0, 0)
      ∧ (crossFaulted.states 0).endorsedBy = (0, 0) := by
  decide +kernel

theorem run_bobOverwritten :
    run exec (deploy genesis) bobOverwritten = afterUphold bobAppealId crossFaulted := by
  obtain ⟨-, hp, hopen⟩ := crossFaulted_appeal
  obtain ⟨-, -, hauth, hsnap, -⟩ := crossFaulted_facts
  have hcan : CanUphold genesisMsg.sender bobAppealId crossFaulted := by
    refine ⟨hauth, hopen, ?_⟩
    rw [hp]
    exact hsnap
  rw [bobOverwritten, run_bobRegisters, run_cons, run_snoc]
  exact commit_of_ok (exec_uphold hcan)

/-- From `bob` to account zero, and there for ever. -/
def outOfBob : Nat → Address
  | 0 => bob
  | _ + 1 => 0

/-- **Neither part holds along every run**: `bob` registers with one endorser named twice, and
an upheld appeal leaves `bob` with endorsers that lead nowhere. -/
theorem endorsement_graph_broken :
    (¬ ∀ (deployer : Address) (ts : List Tx),
        Sponsored deployer ts (run exec (deploy deployer) ts))
      ∧ ¬ ∀ (deployer : Address) (ts : List Tx),
        Rooted deployer (run exec (deploy deployer) ts) := by
  constructor
  · intro hall
    have hbob := hall genesis [bobRegisters] bob (by decide)
    rw [run_bobRegisters, run_nil, bobRegistered, afterRegister_states] at hbob
    exact (hbob rfl).1 rfl
  · intro hall
    have hroot := hall genesis bobOverwritten
    obtain ⟨hc, hp, -⟩ := crossFaulted_appeal
    obtain ⟨-, -, -, hsnap, -⟩ := crossFaulted_facts
    obtain ⟨hnone, hzero⟩ := crossFaulted_endorsers
    rw [run_bobOverwritten] at hroot
    have hbob : (afterUphold bobAppealId crossFaulted).states bob
        = crossFaulted.appealSnapshots 7 := by
      rw [states_afterUphold, hc, hp]
      exact update_self ..
    have hnobody : (afterUphold bobAppealId crossFaulted).states 0 = crossFaulted.states 0 := by
      rw [states_afterUphold, hc]
      exact update_of_ne (by decide) ..
    have hwalk : Walk (afterUphold bobAppealId crossFaulted) outOfBob := by
      intro n
      left
      cases n with
      | zero =>
        show (0 : Address) = ((afterUphold bobAppealId crossFaulted).states bob).endorsedBy.1
        rw [hbob, hnone]
      | succ n =>
        show (0 : Address) = ((afterUphold bobAppealId crossFaulted).states 0).endorsedBy.1
        rw [hnobody, hzero]
    have hstart : ((afterUphold bobAppealId crossFaulted).states bob).isRegistered = true := by
      rw [hbob]
      exact hsnap
    obtain ⟨n, hn⟩ := hroot outOfBob hwalk hstart
    cases n with
    | zero => exact absurd hn (by decide)
    | succ n => exact absurd hn (show (0 : Address) ≠ genesis by decide)

end HZKA.ReputationRegistry
