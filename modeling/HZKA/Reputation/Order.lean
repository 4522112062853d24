/-
  HZKA.Reputation.Order
  ────────────
  **REPUTATION KEEPS THE ORDER OF COMMITTERS.**

  The record of a committer depends on the events applied to it and on nothing else, as long
  as no appeal of it is upheld: not on the other committers of the registry, nor on who
  reports.  So two committers, of one registry or of two, can be compared event by event.

  Scores and multiplier in order stay in order while both are free.  A jail freezes one of the
  records and the scores of the other may fall below the frozen ones; what is kept then is
  that a jailed record reads as the floor and weighs nothing.

    • `record_run` — the record after a run, from the events applied to it;
    • `ahead_afterEvents` — two records in order, any common sequence of events;
    • `order_preserved` — effective reputation, election weight and jail along two runs.
-/
import HZKA.Reputation.Honesty

namespace HZKA.ReputationRegistry

open Function
open HZKA.Lib HZKA.EVM

/-! ## §1. The record along a run. -/

/-- The event a transaction reports of `ct`. -/
def eventOf (ct : Address) (tx : Tx) : Option EventType :=
  match tx.call with
  | .updateState ct' e _ => if ct' = ct then some e else none
  | _ => none

/-- The events applied to `ct` along a run: those of the transactions that go through. -/
def appliedEvents (ct : Address) : ReputationRegistry → List Tx → List EventType
  | _, [] => []
  | reg, tx :: ts =>
    (if (exec tx reg).isOk = true then (eventOf ct tx).toList else [])
      ++ appliedEvents ct (commit exec reg tx) ts

/-- One event on a record; a jailed record is frozen. -/
def recordStep (s : StateSnapshot) (e : EventType) : StateSnapshot :=
  if s.isJailed then s else nextState e s

/-- The record after events. -/
def afterEvents (es : List EventType) (s : StateSnapshot) : StateSnapshot := es.foldl recordStep s

/-- **One transaction moves the record of `ct` by the event it reports of it.** -/
theorem record_step {ct : Address} {tx : Tx} {reg reg' : ReputationRegistry}
    (hreg : (reg.states ct).isRegistered = true) (hno : NoUpheldAppeal ct reg tx)
    (h : exec tx reg = .ok reg') :
    reg'.states ct = afterEvents (eventOf ct tx).toList (reg.states ct) := by
  cases exec_effect h with
  | @register msg value nonce endorsers _ hnew =>
    -- the new committer is not `ct`, which is registered already
    have hne : ct ≠ msg.sender := by
      intro hct
      rw [hct, hnew] at hreg
      exact absurd hreg (by decide)
    exact update_of_ne hne _ _
  | @event msg ct' e p _ _ hfree =>
    show update reg.states ct' (nextState e (reg.states ct')) ct
      = afterEvents (if ct' = ct then some e else none).toList (reg.states ct)
    by_cases hct : ct' = ct
    · subst hct
      rw [if_pos rfl, update_self]
      show nextState e (reg.states ct') = recordStep (reg.states ct') e
      unfold recordStep
      rw [hfree, if_neg (by decide)]
    · rw [if_neg hct, update_of_ne (fun hc => hct hc.symm)]
      rfl
  | @restore msg appealId _ hcan =>
    have hne : ct ≠ (reg.appeals appealId).committer := fun hc => hno appealId rfl hc.symm
    exact update_of_ne hne _ _
  | frame hstates _ _ _ hevent _ =>
    rw [hstates]
    obtain ⟨msg, call⟩ := tx
    cases call with
    | updateState ct' e p =>
      show reg.states ct = afterEvents (if ct' = ct then some e else none).toList (reg.states ct)
      by_cases hct : ct' = ct
      · -- an event that changes nothing hit a jailed record
        subst hct
        rw [if_pos rfl]
        show reg.states ct' = recordStep (reg.states ct') e
        unfold recordStep
        rw [if_pos (hevent ct' e p rfl).2]
      · rw [if_neg hct]
        rfl
    | _ => rfl

/-- **The record after a run.** -/
theorem record_run {ct : Address} (ts : List Tx) : ∀ {reg : ReputationRegistry},
    (reg.states ct).isRegistered = true → StepsMeet exec (NoUpheldAppeal ct) reg ts →
    (run exec reg ts).states ct = afterEvents (appliedEvents ct reg ts) (reg.states ct) := by
  induction ts with
  | nil => exact fun _ _ => rfl
  | cons tx ts ih =>
    intro reg hreg hmeet
    obtain ⟨hno, hrest⟩ := hmeet
    rw [run_cons]
    unfold appliedEvents
    cases hx : exec tx reg with
    | error err =>
      rw [commit_of_error hx] at hrest ⊢
      have hskip : (Except.error err : Except Revert ReputationRegistry).isOk = false := rfl
      rw [hskip, if_neg (by decide), List.nil_append]
      exact ih hreg hrest
    | ok reg' =>
      have htaken : (Except.ok reg' : Except Revert ReputationRegistry).isOk = true := rfl
      rw [commit_of_ok hx] at hrest ⊢
      rw [htaken, if_pos rfl, ih (registered_step hreg hx) hrest, record_step hreg hno hx]
      unfold afterEvents
      rw [List.foldl_append]

/-- Reports that are taken apply their events. -/
theorem appliedEvents_reports {ct : Address} (rs : List Report) : ∀ {reg : ReputationRegistry},
    Taken exec reg (reports ct rs) →
    appliedEvents ct reg (reports ct rs) = rs.map Report.event := by
  induction rs with
  | nil => exact fun _ => rfl
  | cons r rs ih =>
    intro reg htaken
    obtain ⟨hok, hrest⟩ := htaken
    show (if _ then _ else _) ++ appliedEvents ct _ (reports ct rs) = _
    rw [if_pos hok, ih hrest]
    show (if ct = ct then some r.event else none).toList ++ _ = _
    rw [if_pos rfl]
    rfl

theorem reports_noUpheldAppeal (ct : Address) (rs : List Report) (reg : ReputationRegistry) :
    StepsMeet exec (NoUpheldAppeal ct) reg (reports ct rs) := by
  apply stepsMeet_of_forall
  intro tx htx reg appealId hcall
  obtain ⟨r, -, rfl⟩ := List.mem_map.mp htx
  cases hcall

/-! ## §2. Two records in order. -/

/-- `s₀` is at most `s₁` in both scores and the multiplier. -/
structure Below (s₀ s₁ : StateSnapshot) : Prop where
  base : s₀.baseReputation ≤ s₁.baseReputation
  history : s₀.historyScore ≤ s₁.historyScore
  mult : s₀.safetyMult ≤ s₁.safetyMult

/-- Within the invariant a larger multiplier means fewer faults. -/
theorem faults_of_mult {s₀ s₁ : StateSnapshot} (h₀ : RecordInv s₀) (h₁ : RecordInv s₁)
    (h : s₀.safetyMult ≤ s₁.safetyMult) : s₁.cumulativeV ≤ s₀.cumulativeV := by
  by_contra hlt
  have htwice := mult_antitone h₁ h₀ (k := 1) (by omega)
  have hzero : s₁.safetyMult = 0 := by omega
  have hone := h₁.mult_eq
  rw [hzero, Nat.zero_mul, PRECISION] at hone
  exact absurd hone (by norm_num)

theorem leads_of_below {s₀ s₁ : StateSnapshot} (h₀ : RecordInv s₀) (h₁ : RecordInv s₁)
    (h : Below s₀ s₁) : Leads s₀ s₁ :=
  ⟨h.history, Or.inl ⟨h.base, faults_of_mult h₀ h₁ h.mult⟩⟩

theorem recordInv_recordStep {s : StateSnapshot} (h : RecordInv s) (e : EventType) :
    RecordInv (recordStep s e) := by
  unfold recordStep
  split
  next => exact h
  next hfree => exact recordInv_nextState e h (Bool.eq_false_iff.mpr hfree)

/-- Events keep the record sound. -/
theorem recordInv_afterEvents (es : List EventType) : ∀ {s : StateSnapshot}, RecordInv s →
    RecordInv (afterEvents es s) := by
  induction es with
  | nil => exact fun h => h
  | cons e es ih => exact fun h => ih (recordInv_recordStep h e)

/-- **One common event keeps the order**: the trailing record is jailed, or both are free and
in order. -/
theorem ahead_recordStep (e : EventType) {s₀ s₁ : StateSnapshot} (h₀ : RecordInv s₀)
    (h₁ : RecordInv s₁) (h : Ahead s₀ s₁) : Ahead (recordStep s₀ e) (recordStep s₁ e) := by
  by_cases hj : s₀.isJailed = true
  · left
    unfold recordStep
    rw [if_pos hj]
    exact hj
  · rcases h with hj₀ | ⟨hfree, hleads⟩
    · exact absurd hj₀ hj
    · unfold recordStep
      rw [if_neg hj, if_neg (by rw [hfree]; decide)]
      exact ahead_of_leads h₀ h₁ (Bool.eq_false_iff.mpr hj) hfree (fun he => he)
        (leads_next e hleads)

/-- **Events keep the order**. -/
theorem ahead_afterEvents (es : List EventType) : ∀ {s₀ s₁ : StateSnapshot}, RecordInv s₀ →
    RecordInv s₁ → Ahead s₀ s₁ → Ahead (afterEvents es s₀) (afterEvents es s₁) := by
  induction es with
  | nil => exact fun _ _ h => h
  | cons e es ih =>
    intro s₀ s₁ h₀ h₁ h
    exact ih (recordInv_recordStep h₀ e) (recordInv_recordStep h₁ e) (ahead_recordStep e h₀ h₁ h)

/-! ## §3. Two committers. -/

theorem Ahead.weight_le {s₀ s₁ : StateSnapshot} (h₀ : RecordInv s₀) (h₁ : RecordInv s₁)
    (h : Ahead s₀ s₁) : weight s₀ ≤ weight s₁ := by
  have heff := h.effective_le h₀ h₁
  unfold weight
  by_cases hj₀ : s₀.isJailed = true
  · rw [if_pos hj₀]
    exact Nat.zero_le _
  · have hj₁ : ¬ s₁.isJailed = true := fun hj => hj₀ (h.jailed hj)
    rw [if_neg hj₀, if_neg hj₁]
    omega

/-- `ct₀` in `reg₀` is no better off than `ct₁` in `reg₁`. -/
def NoBetter (reg₀ : ReputationRegistry) (ct₀ : Address) (reg₁ : ReputationRegistry)
    (ct₁ : Address) : Prop :=
  (∃ R₀ R₁, getEffectiveReputation ct₀ reg₀ = .ok R₀ ∧ getEffectiveReputation ct₁ reg₁ = .ok R₁
      ∧ R₀ ≤ R₁)
  ∧ (∃ w₀ w₁, getElectionWeight ct₀ reg₀ = .ok w₀ ∧ getElectionWeight ct₁ reg₁ = .ok w₁ ∧ w₀ ≤ w₁)
  ∧ ((reg₁.states ct₁).isJailed = true → (reg₀.states ct₀).isJailed = true)

/-- **The update preserves the order.**  Two committers within the state invariant, the second
unjailed, the first at most the second in both scores and the multiplier: after any runs that
apply the same events to them, the first is no better off. -/
theorem order_preserved (reg₀ reg₁ : ReputationRegistry) (ct₀ ct₁ : Address)
    (hinv₀ : RegistryInv reg₀) (hinv₁ : RegistryInv reg₁)
    (hreg₀ : (reg₀.states ct₀).isRegistered = true) (hreg₁ : (reg₁.states ct₁).isRegistered = true)
    (hfree₁ : (reg₁.states ct₁).isJailed = false)
    (hbelow : Below (reg₀.states ct₀) (reg₁.states ct₁)) (ts₀ ts₁ : List Tx)
    (hno₀ : StepsMeet exec (NoUpheldAppeal ct₀) reg₀ ts₀)
    (hno₁ : StepsMeet exec (NoUpheldAppeal ct₁) reg₁ ts₁)
    (hevents : appliedEvents ct₀ reg₀ ts₀ = appliedEvents ct₁ reg₁ ts₁) :
    NoBetter (run exec reg₀ ts₀) ct₀ (run exec reg₁ ts₁) ct₁ := by
  have h₀ := hinv₀.records ct₀ hreg₀
  have h₁ := hinv₁.records ct₁ hreg₁
  have hend₀ : RegistryInv (run exec reg₀ ts₀) :=
    run_invariant (fun _ _ _ hinv h => registryInv_step hinv h) ts₀ hinv₀
  have hend₁ : RegistryInv (run exec reg₁ ts₁) :=
    run_invariant (fun _ _ _ hinv h => registryInv_step hinv h) ts₁ hinv₁
  have hahead : Ahead ((run exec reg₀ ts₀).states ct₀) ((run exec reg₁ ts₁).states ct₁) := by
    rw [record_run ts₀ hreg₀ hno₀, record_run ts₁ hreg₁ hno₁, hevents]
    exact ahead_afterEvents _ h₀ h₁ (Or.inr ⟨hfree₁, leads_of_below h₀ h₁ hbelow⟩)
  have hrec₀ : RecordInv ((run exec reg₀ ts₀).states ct₀) := by
    rw [record_run ts₀ hreg₀ hno₀]
    exact recordInv_afterEvents _ h₀
  have hrec₁ : RecordInv ((run exec reg₁ ts₁).states ct₁) := by
    rw [record_run ts₁ hreg₁ hno₁]
    exact recordInv_afterEvents _ h₁
  refine ⟨⟨_, _, getEffectiveReputation_ok hend₀ ct₀, getEffectiveReputation_ok hend₁ ct₁,
    hahead.effective_le hrec₀ hrec₁⟩, ⟨_, _, getElectionWeight_eq hend₀ ct₀,
    getElectionWeight_eq hend₁ ct₁, hahead.weight_le hrec₀ hrec₁⟩, hahead.jailed⟩

/-! ### The genesis committer, with and without a missed round. -/

/-- The deployer reports events of itself. -/
def genesisReports (es : List EventType) : List Tx := reports 1 (es.map genesisReport)

theorem genesis_covered : Covered 1 (deploy 1) := by
  have hgenesis := deploy_states_self 1
  refine ⟨?_, ?_, ?_⟩
  · rw [hgenesis]
    rfl
  · rw [hgenesis]
    norm_num [genesisState]
  · rw [hgenesis]
    norm_num [deploy, genesisState]

theorem genesisReports_taken (es : List EventType) : Taken exec (deploy 1) (genesisReports es) := by
  apply reports_taken _ (registryInv_deploy 1) genesis_covered
  intro r hr
  obtain ⟨e, -, rfl⟩ := List.mem_map.mp hr
  show (deploy 1).authorizedAuditors 1 = true
  decide

/-- All of them are applied. -/
theorem appliedEvents_genesis (es es' : List EventType) :
    appliedEvents 1 (run exec (deploy 1) (genesisReports es)) (genesisReports es') = es' := by
  have htaken := genesisReports_taken (es ++ es')
  unfold genesisReports reports at htaken ⊢
  rw [List.map_append, List.map_append] at htaken
  have happlied := appliedEvents_reports (es'.map genesisReport)
    ((stepsMeet_append (deploy 1) _ _).mp htaken).2
  have hevents : (es'.map genesisReport).map Report.event = es' := by
    rw [List.map_map]
    exact List.map_id es'
  exact happlied.trans hevents

theorem record_genesis (es : List EventType) :
    (run exec (deploy 1) (genesisReports es)).states 1 = afterEvents es genesisState := by
  have happlied := appliedEvents_genesis [] es
  rw [genesisReports] at happlied
  have hrecord := record_run (genesisReports es) genesis_covered.registered
    (reports_noUpheldAppeal 1 _ _)
  rw [deploy_states_self] at hrecord
  rw [hrecord]
  exact congrArg (afterEvents · genesisState) happlied

/-- After a missed round an honest and a faulty one leave the genesis committer no better off
than without it. -/
theorem genesis_order :
    NoBetter (run exec (run exec (deploy 1) (genesisReports [.MISSING]))
        (genesisReports [.VALID, .INVALID])) 1
      (run exec (run exec (deploy 1) (genesisReports [])) (genesisReports [.VALID, .INVALID])) 1 := by
  have hstart : ∀ es, ((run exec (deploy 1) (genesisReports es)).states 1).isRegistered = true :=
    fun es => registered_run genesis_covered.registered _
  apply order_preserved _ _ 1 1 (registryInv_run 1 _) (registryInv_run 1 _) (hstart _) (hstart _)
  · rw [record_genesis]
    rfl
  · rw [record_genesis, record_genesis]
    show Below (nextState .MISSING genesisState) genesisState
    rw [nextState_of_ne (by decide)]
    refine ⟨?_, Nat.le_refl _, Nat.le_refl _⟩
    norm_num [movedState, nextBase, genesisState, Q_L, R_MAX, PRECISION]
  · exact reports_noUpheldAppeal 1 _ _
  · exact reports_noUpheldAppeal 1 _ _
  · rw [appliedEvents_genesis, appliedEvents_genesis]

end HZKA.ReputationRegistry
