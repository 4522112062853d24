/-
  HZKA.Psi.Groups
  ────────────
  **COMMIT GROUPS: how they fill and what the weighted audit reads off them.**

  A group is an append-only list of entries `(committer, root, weight)`.  The loops of
  `weightedAuditAccept` are sums over that list:

    • `acceptedRoot_eq_ok` — an accepted root carries two thirds of the weight of the
      ENTRIES;
    • `updates_ok`, `updateGroup_ok` — reputation loops go through for registered
      committers;
    • `run_submits` — the run lemma for submissions to one block range, by induction;
    • `openChain` — two committers, genesis and bob, ready to submit for a chain.
-/
import HZKA.Clusters.Partition
import HZKA.Reputation.Registration

namespace HZKA.Psi

open Function
open HZKA.Lib HZKA.EVM HZKA.Groth16Verifier HZKA.AuditContractV2
open HZKA.ReputationRegistry (RegistryInv StakeInv genesis bob genesisMsg bobMsg bobRegisters
  bobRegistered)
open HZKA.Clusters (setting)

/-! ## §1. The weight loops. -/

/-- The weight of a group. -/
def weightOf (group : List WeightedSubmission) : Nat := (group.map (·.weight)).sum

/-- The entries with a given root. -/
def votesFor (group : List WeightedSubmission) (root : Bytes32) : List WeightedSubmission :=
  group.filter (fun e => e.submittedRoot = root)

theorem votesFor_sublist (group : List WeightedSubmission) (root : Bytes32) :
    (votesFor group root).Sublist group :=
  List.filter_sublist

/-- The weight, if it does not overflow. -/
theorem groupWeight_iff {group : List WeightedSubmission} {total : Nat} :
    groupWeight group = .ok total ↔ weightOf group < 2 ^ 256 ∧ weightOf group = total := by
  unfold groupWeight weightOf
  rw [foldlM_sum_iff (w := WeightedSubmission.weight) group (fun _ _ _ _ => rfl) (by omega), Nat.zero_add]

/-- Entries with another root add nothing. -/
theorem sum_votes (group : List WeightedSubmission) (root : Bytes32) :
    (group.map (fun e => if e.submittedRoot = root then e.weight else 0)).sum
      = weightOf (votesFor group root) := by
  unfold weightOf votesFor
  induction group with
  | nil => rfl
  | cons e rest ih =>
    rw [List.map_cons, List.sum_cons, ih, List.filter_cons]
    by_cases he : e.submittedRoot = root
    · simp [he]
    · simp [he]

/-- The votes, if they do not overflow. -/
theorem candidateWeight_iff {group : List WeightedSubmission} {root : Bytes32} {weight : Nat} :
    candidateWeight group root = .ok weight
      ↔ weightOf (votesFor group root) < 2 ^ 256 ∧ weightOf (votesFor group root) = weight := by
  have hstep : ∀ acc, ∀ e ∈ group, acc < 2 ^ 256 →
      (if e.submittedRoot = root then addU256 acc e.weight else .ok acc)
        = addU256 acc (if e.submittedRoot = root then e.weight else 0) := by
    intro acc e _ hacc
    split
    · rfl
    · have hzero : addU256 acc 0 = .ok acc := addU256_eq_ok.mpr ⟨hacc, rfl⟩
      exact hzero.symm
  unfold candidateWeight
  rw [foldlM_sum_iff group hstep (by omega), Nat.zero_add, sum_votes]

/-- The best root so far, if any, has two thirds. -/
def BestSoFar (group : List WeightedSubmission) (total : Nat) (best : Bytes32 × Nat) : Prop :=
  best = (0, 0) ∨ best.2 = weightOf (votesFor group best.1) ∧ 0 < best.2 ∧ 2 * total ≤ 3 * best.2

/-- What the selection returns. -/
theorem selectRoot_eq_ok {group : List WeightedSubmission} {total : Nat} {best : Bytes32 × Nat}
    (h : selectRoot group total = .ok best) : BestSoFar group total best := by
  refine foldlM_invariant (BestSoFar group total) ?_ group (0, 0) best (Or.inl rfl) h
  intro best e best' hbest hstep
  obtain ⟨weight, hweight, hstep⟩ := bind_eq_ok.mp hstep
  obtain ⟨lhs, hlhs, hstep⟩ := bind_eq_ok.mp hstep
  obtain ⟨rhs, hrhs, hstep⟩ := bind_eq_ok.mp hstep
  obtain ⟨-, rfl⟩ := mulU256_eq_ok.mp hlhs
  obtain ⟨-, rfl⟩ := mulU256_eq_ok.mp hrhs
  rw [← pure_eq_ok.mp hstep]
  split
  next hbetter =>
    right
    refine ⟨(candidateWeight_iff.mp hweight).2.symm, ?_, ?_⟩
    · show 0 < weight
      omega
    · show 2 * total ≤ 3 * weight
      omega
  next => exact hbest

/-- **What the accepted root carries**, counted by entries. -/
theorem acceptedRoot_eq_ok {group : List WeightedSubmission} {root : Bytes32}
    (h : acceptedRoot group = .ok root) :
    0 < weightOf (votesFor group root)
      ∧ 2 * weightOf group ≤ 3 * weightOf (votesFor group root) := by
  obtain ⟨_, -, h⟩ := bind_eq_ok.mp h
  obtain ⟨total, htotal, h⟩ := bind_eq_ok.mp h
  obtain ⟨_, -, h⟩ := bind_eq_ok.mp h
  obtain ⟨best, hbest, h⟩ := bind_eq_ok.mp h
  obtain ⟨_, hfound, h⟩ := bind_eq_ok.mp h
  obtain rfl := pure_eq_ok.mp h
  rw [require_eq_ok] at hfound
  rcases selectRoot_eq_ok hbest with hnone | ⟨hweight, hpos, htwo⟩
  · rw [hnone] at hfound
    exact absurd rfl hfound
  · rw [(groupWeight_iff.mp htotal).2, ← hweight]
    exact ⟨hpos, htwo⟩

/-- Some entry has the accepted root. -/
theorem exists_vote {group : List WeightedSubmission} {root : Bytes32}
    (h : acceptedRoot group = .ok root) : ∃ e ∈ group, e.submittedRoot = root := by
  have hpos := (acceptedRoot_eq_ok h).1
  cases hvotes : votesFor group root with
  | nil =>
    rw [hvotes] at hpos
    exact absurd hpos (by simp [weightOf])
  | cons e rest =>
    have he : e ∈ votesFor group root := by rw [hvotes]; exact List.mem_cons_self
    obtain ⟨hmem, hroot⟩ := List.mem_filter.mp he
    exact ⟨e, hmem, of_decide_eq_true hroot⟩

/-- The root a weighted audit leaves. -/
theorem root_afterAccept (msg : Msg) (groupId : Bytes32) (chainId : ChainId) (root : Bytes32)
    (reg' : ReputationRegistry) (s : System) :
    ((afterAccept msg groupId chainId root reg' s).audit.chains chainId).latestStateRoot = root := by
  have h := chains_setRoot_self msg.number chainId root (noteUpdates groupId s.audit)
  show ((setRoot msg.number chainId root (noteUpdates groupId s.audit)).chains
    chainId).latestStateRoot = root
  rw [h]

/-! ## §2. The reputation loop. -/

/-- An event keeps authorizations and registrations, and slashes at most the stake. -/
theorem afterUpdate_frame (ct : Address) (e : EventType) (p : Bytes32) (reg : ReputationRegistry) :
    (reg.afterUpdate ct e p).authorizedAuditors = reg.authorizedAuditors
      ∧ (∀ a, ((reg.afterUpdate ct e p).states a).isRegistered = (reg.states a).isRegistered)
      ∧ (reg.afterUpdate ct e p).totalSlashedPool
        ≤ reg.totalSlashedPool + (reg.states ct).stakedAmount := by
  unfold ReputationRegistry.afterUpdate
  split
  next => exact ⟨rfl, fun _ => rfl, Nat.le_add_right _ _⟩
  next =>
    refine ⟨rfl, ?_, ?_⟩
    · intro a
      by_cases ha : a = ct
      · show (update reg.states ct _ a).isRegistered = _
        rw [ha, update_self, ReputationRegistry.nextState_isRegistered]
      · show (update reg.states ct _ a).isRegistered = _
        rw [update_of_ne ha]
    · have hle := ReputationRegistry.slashed_le e (reg.states ct)
      show reg.totalSlashedPool + _ ≤ _
      omega

/-- Events for registered committers go through while the pool has room. -/
theorem updates_ok (msg : Msg) (calls : List (Address × EventType × Bytes32)) :
    ∀ {reg : ReputationRegistry}, RegistryInv reg → StakeInv reg →
      reg.authorizedAuditors msg.sender = true →
      (∀ call ∈ calls, (reg.states call.1).isRegistered = true) →
      reg.totalSlashedPool + calls.length * 2 ^ 128 ≤ 2 ^ 256 →
      ∃ reg', calls.foldlM (fun reg call => reg.updateState msg call.1 call.2.1 call.2.2) reg
          = .ok reg'
        ∧ RegistryInv reg' ∧ StakeInv reg' ∧ reg'.authorizedAuditors = reg.authorizedAuditors
        ∧ (∀ a, (reg'.states a).isRegistered = (reg.states a).isRegistered)
        ∧ reg'.totalSlashedPool ≤ reg.totalSlashedPool + calls.length * 2 ^ 128 := by
  induction calls with
  | nil =>
    intro reg hinv hstakes _ _ _
    exact ⟨reg, rfl, hinv, hstakes, rfl, fun _ => rfl, Nat.le_add_right _ _⟩
  | cons call rest ih =>
    intro reg hinv hstakes hauth hregistered hroom
    obtain ⟨ct, e, p⟩ := call
    have hlt := hstakes.records ct
    have hreg : (reg.states ct).isRegistered = true := hregistered _ List.mem_cons_self
    rw [List.length_cons] at hroom
    have hone : ∃ reg₁, reg.updateState msg ct e p = .ok reg₁ :=
      ReputationRegistry.updateState_ok e p hauth hreg (hinv.records _ hreg) (fun _ => hlt)
        (fun _ => by omega)
    obtain ⟨reg₁, hone⟩ := hone
    have hexec : ReputationRegistry.exec ⟨msg, .updateState ct e p⟩ reg = .ok reg₁ := hone
    have hinv₁ := ReputationRegistry.registryInv_step hinv hexec
    have hstakes₁ := ReputationRegistry.stakeInv_step (by intro _ _ _ hcall; cases hcall)
      hstakes hexec
    -- the call moved the record of one committer; the others are as they were
    obtain ⟨-, hafter⟩ := ReputationRegistry.updateState_eq_ok hone
    obtain ⟨hauth₁, hregistered₁, hpool₁⟩ := afterUpdate_frame ct e p reg
    rw [← hafter] at hauth₁ hregistered₁ hpool₁
    have hrest := ih hinv₁ hstakes₁ (by rw [hauth₁]; exact hauth)
      (fun call hcall => by
        rw [hregistered₁]
        exact hregistered call (List.mem_cons_of_mem _ hcall))
      (by omega)
    obtain ⟨reg', hloop, hinv', hstakes', hauth', hregistered', hpool'⟩ := hrest
    refine ⟨reg', bind_eq_ok.mpr ⟨reg₁, hone, hloop⟩, hinv', hstakes', hauth'.trans hauth₁, ?_, ?_⟩
    · intro a
      rw [hregistered', hregistered₁]
    · rw [List.length_cons]
      omega

/-- A registry in order that admits the audit contract. -/
structure Serves (S : Setting) (reg : ReputationRegistry) : Prop where
  inv : RegistryInv reg
  stakes : StakeInv reg
  authorized : reg.authorizedAuditors S.auditContract = true

/-- The loop over a group of registered committers goes through while the pool has room. -/
theorem updateGroup_ok {S : Setting} (msg : Msg) (root : Bytes32) (group : List WeightedSubmission)
    {reg : ReputationRegistry} (hserves : Serves S reg)
    (hregistered : ∀ e ∈ group, (reg.states e.committer).isRegistered = true)
    (hroom : reg.totalSlashedPool + group.length * 2 ^ 128 ≤ 2 ^ 256) :
    ∃ reg', updateGroup S msg root group reg = .ok reg' ∧ Serves S reg'
      ∧ (∀ a, (reg'.states a).isRegistered = (reg.states a).isRegistered)
      ∧ reg'.totalSlashedPool ≤ reg.totalSlashedPool + group.length * 2 ^ 128 := by
  obtain ⟨reg', hloop, hinv, hstakes, hauth, hsame, hpool⟩ := updates_ok (asAudit S msg)
    (group.map (fun e =>
      (e.committer, if e.submittedRoot = root then EventType.VALID else .INVALID, root)))
    hserves.inv hserves.stakes hserves.authorized
    (by
      intro call hcall
      obtain ⟨e, he, rfl⟩ := List.mem_map.mp hcall
      exact hregistered e he)
    (by rw [List.length_map]; exact hroom)
  rw [List.foldlM_map] at hloop
  rw [List.length_map] at hpool
  refine ⟨reg', hloop, ⟨hinv, hstakes, ?_⟩, hsame, hpool⟩
  rw [hauth]
  exact hserves.authorized

/-! ## §3. Submissions to one block range. -/

/-- `s'` is `s` after some submissions for `range` with the entries `added`. -/
structure Grown (range : BlockRange) (added : List WeightedSubmission) (s s' : System) : Prop where
  shape : s' = { s with
    audit := { s.audit with
      commits := s'.audit.commits
      commitIds := s'.audit.commitIds
      commitGroups := s'.audit.commitGroups
      ranges := s'.audit.ranges
      chains := s'.audit.chains } }
  group : s'.audit.commitGroups (groupKey range) = s.audit.commitGroups (groupKey range) ++ added
  ranges : s'.audit.ranges (groupKey range)
    = s.audit.ranges (groupKey range) ++ List.replicate added.length range
  root : ∀ c, (s'.audit.chains c).latestStateRoot = (s.audit.chains c).latestStateRoot
  active : ∀ c, (s'.audit.chains c).isActive = (s.audit.chains c).isActive
  count : (s'.audit.chains range.chainId).totalCommits
    = (s.audit.chains range.chainId).totalCommits + added.length

theorem Grown.refl (range : BlockRange) (s : System) : Grown range [] s s where
  shape := rfl
  group := (List.append_nil _).symm
  ranges := (List.append_nil _).symm
  root := fun _ => rfl
  active := fun _ => rfl
  count := rfl

/-- What a chain record keeps through a submission. -/
theorem chains_addCommit (msg : Msg) (range : BlockRange) (oldRoot newRoot : Bytes32)
    (weight reputation clusterId : Nat) (a : AuditContractV2) (c : ChainId) :
    ((addCommit msg range oldRoot newRoot weight reputation clusterId a).chains c).latestStateRoot
        = (a.chains c).latestStateRoot
      ∧ ((addCommit msg range oldRoot newRoot weight reputation clusterId a).chains c).isActive
        = (a.chains c).isActive := by
  by_cases hc : c = range.chainId
  · have hself : (addCommit msg range oldRoot newRoot weight reputation clusterId a).chains c
        = { a.chains c with totalCommits := (a.chains c).totalCommits + 1 } := by
      rw [hc]
      exact update_self ..
    rw [hself]
    exact ⟨rfl, rfl⟩
  · have hother : (addCommit msg range oldRoot newRoot weight reputation clusterId a).chains c
        = a.chains c := update_of_ne hc ..
    rw [hother]
    exact ⟨rfl, rfl⟩

/-- A commit is appended to its group. -/
theorem commitGroups_addCommit (msg : Msg) (range : BlockRange) (oldRoot newRoot : Bytes32)
    (weight reputation clusterId : Nat) (a : AuditContractV2) :
    (addCommit msg range oldRoot newRoot weight reputation clusterId a).commitGroups (groupKey range)
      = a.commitGroups (groupKey range) ++ [⟨msg.sender, newRoot, weight⟩] :=
  update_self ..

theorem ranges_addCommit (msg : Msg) (range : BlockRange) (oldRoot newRoot : Bytes32)
    (weight reputation clusterId : Nat) (a : AuditContractV2) :
    (addCommit msg range oldRoot newRoot weight reputation clusterId a).ranges (groupKey range)
      = a.ranges (groupKey range) ++ [range] :=
  update_self ..

/-- Submissions compose. -/
theorem Grown.cons {range : BlockRange} {oldRoot newRoot : Bytes32} {msg : Msg}
    {weight reputation : Nat} {added : List WeightedSubmission} {s s' : System}
    (h : Grown range added (afterCommit msg range oldRoot newRoot weight reputation s) s') :
    Grown range (⟨msg.sender, newRoot, weight⟩ :: added) s s' := by
  have hchains := chains_addCommit msg range oldRoot newRoot weight reputation
    (s.manager.chainToCluster range.chainId) s.audit
  refine ⟨h.shape, ?_, ?_, ?_, ?_, ?_⟩
  · rw [h.group]
    show (addCommit ..).commitGroups _ ++ _ = _
    rw [commitGroups_addCommit, List.append_assoc]
    rfl
  · rw [h.ranges]
    show (addCommit ..).ranges _ ++ _ = _
    rw [ranges_addCommit, List.append_assoc, List.length_cons, List.replicate_succ]
    rfl
  · intro c
    rw [h.root]
    exact (hchains c).1
  · intro c
    rw [h.active]
    exact (hchains c).2
  · rw [h.count]
    have hself : ((afterCommit msg range oldRoot newRoot weight reputation s).audit.chains
        range.chainId).totalCommits = (s.audit.chains range.chainId).totalCommits + 1 := by
      show (update s.audit.chains range.chainId _ range.chainId).totalCommits = _
      rw [update_self]
    rw [hself, List.length_cons]
    omega

/-- The transaction that submits `p.2` from the account of `p.1`. -/
def submit (range : BlockRange) (oldRoot : Bytes32) (p : Msg × Bytes32) : System.Tx :=
  .audit p.1 (.submitCommit range oldRoot p.2)

/-- An account that may submit, with the weight of its entries. -/
structure MaySubmit (S : Setting) (weight : Nat) (sender : Address) (s : System) : Prop where
  external : System.External S sender
  staked : AuditContractV2.MIN_STAKE ≤ s.audit.committerStakes sender
  registered : s.registry.isCommitterRegistered sender = true
  weight : s.registry.getElectionWeight sender = .ok weight

/-- Only a submission touches the groups. -/
theorem groups_step {pairing : PairingCheck} {S : Setting} {tx : System.Tx} {s s' : System}
    (h : System.exec pairing S tx s = .ok s') :
    (∃ msg range oldRoot newRoot weight,
        tx = .audit msg (.submitCommit range oldRoot newRoot)
        ∧ s'.audit.commitGroups = update s.audit.commitGroups (groupKey range)
          (s.audit.commitGroups (groupKey range) ++ [⟨msg.sender, newRoot, weight⟩])
        ∧ s'.audit.ranges = update s.audit.ranges (groupKey range)
          (s.audit.ranges (groupKey range) ++ [range]))
      ∨ s'.audit.commitGroups = s.audit.commitGroups ∧ s'.audit.ranges = s.audit.ranges := by
  cases System.exec_effect h with
  | submitCommit _ => exact Or.inl ⟨_, _, _, _, _, rfl, rfl, rfl⟩
  | legacyAudit guards _ =>
    right
    have hshape := setRoots_shape guards.loop
    exact ⟨by rw [hshape], by rw [hshape]⟩
  | admin frame => exact Or.inr ⟨frame.commitGroups, frame.ranges⟩
  | registry _ => exact Or.inr ⟨rfl, rfl⟩
  | manager _ => exact Or.inr ⟨rfl, rfl⟩
  | registerChain _ _ => exact Or.inr ⟨rfl, rfl⟩
  | weightedAudit _ => exact Or.inr ⟨rfl, rfl⟩
  | singleAudit _ => exact Or.inr ⟨rfl, rfl⟩
  | clusterAudit _ _ => exact Or.inr ⟨rfl, rfl⟩

/-- **A run of submissions.** -/
theorem run_submits (pairing : PairingCheck) {S : Setting} {w : Address → Nat}
    (range : BlockRange) (oldRoot : Bytes32) (subs : List (Msg × Bytes32)) (s : System)
    (hinv : RegistryInv s.registry) (hactive : (s.audit.chains range.chainId).isActive = true)
    (hmay : ∀ p ∈ subs, MaySubmit S (w p.1.sender) p.1.sender s)
    (hroom : (s.audit.chains range.chainId).totalCommits + subs.length < 2 ^ 256) :
    Grown range (subs.map (fun p => ⟨p.1.sender, p.2, w p.1.sender⟩)) s
      (run (System.exec pairing S) s (subs.map (submit range oldRoot))) := by
  induction subs generalizing s with
  | nil => exact Grown.refl range s
  | cons p rest ih =>
    rw [List.length_cons] at hroom
    have hp := hmay p List.mem_cons_self
    have hrep := ReputationRegistry.getEffectiveReputation_ok hinv p.1.sender
    have hcan : CanCommit p.1 range (w p.1.sender)
        (ReputationRegistry.effective (s.registry.states p.1.sender)) s :=
      ⟨hactive, hp.staked, hp.registered, hp.weight, hrep, by omega⟩
    have hstep : System.exec pairing S (submit range oldRoot p) s
        = .ok (afterCommit p.1 range oldRoot p.2 (w p.1.sender) _ s) :=
      System.exec_eq_ok.mpr ⟨hp.external, submitCommit_eq_ok.mpr ⟨_, _, hcan, rfl⟩⟩
    rw [List.map_cons, List.map_cons, run_cons, commit_of_ok hstep]
    have hgrown : Grown range [⟨p.1.sender, p.2, w p.1.sender⟩] s
        (afterCommit p.1 range oldRoot p.2 (w p.1.sender)
          (ReputationRegistry.effective (s.registry.states p.1.sender)) s) :=
      (Grown.refl range _).cons
    -- the hypotheses carry over to the state after one submission
    refine (ih (afterCommit p.1 range oldRoot p.2 (w p.1.sender) _ s) hinv ?_ ?_ ?_).cons
    · rw [hgrown.active]
      exact hactive
    · intro q hq
      have hq := hmay q (List.mem_cons_of_mem _ hq)
      exact ⟨hq.external, hq.staked, hq.registered, hq.weight⟩
    · rw [hgrown.count, List.length_singleton]
      omega

/-! ## §4. A chain with two committers.

Genesis (account 1) deploys the three contracts, authorizes the manager (2) and the audit
contract (3) in the registry, sets a key and registers a chain; genesis and bob stake. -/

/-- A call on the audit alone. -/
theorem exec_audit_ok {pairing : PairingCheck} {S : Setting} {msg : Msg} {call : Call}
    {s : System} {a' : AuditContractV2} {f : AuditContractV2 → Except Revert AuditContractV2}
    (hext : System.External S msg.sender) (hcall : exec pairing S msg call s = onAudit f s)
    (h : f s.audit = .ok a') :
    System.exec pairing S (.audit msg call) s = .ok { s with audit := a' } :=
  System.exec_eq_ok.mpr ⟨hext, hcall.trans (System.onAudit_eq_ok.mpr ⟨a', h, rfl⟩)⟩

/-- The state a stake leaves. -/
def afterStake (sender : Address) (value : Nat) (a : AuditContractV2) : AuditContractV2 :=
  { a with
    committerStakes :=
      update a.committerStakes sender (a.committerStakes sender + value)
    balance := a.balance + value }

theorem stake_ok {msg : Msg} {value : Nat} {a : AuditContractV2}
    (hvalue : AuditContractV2.MIN_STAKE ≤ value)
    (hroom : a.committerStakes msg.sender + value < 2 ^ 256) :
    stake msg value a = .ok (afterStake msg.sender value a) := by
  rw [stake, require_bind hvalue, addU256_eq_ok.mpr ⟨hroom, rfl⟩]
  rfl

/-- The contract may report. -/
def authorize (contract : Address) (reg : ReputationRegistry) : ReputationRegistry :=
  { reg with authorizedAuditors := update reg.authorizedAuditors contract true }

/-- Two committers, two reporting contracts, one chain. -/
def setup (chain : ChainId) (root : Bytes32) : List System.Tx :=
  [.registry bobRegisters,
    .registry ⟨genesisMsg, .setAuthorizedAuditor 2 true⟩,
    .registry ⟨genesisMsg, .setAuthorizedAuditor 3 true⟩,
    .audit genesisMsg (.setVerifyingKey ⟨0, 0⟩ ⟨(0, 0), (0, 0)⟩ ⟨(0, 0), (0, 0)⟩
      ⟨(0, 0), (0, 0)⟩ [[0, 0], [0, 0], [0, 0]]),
    .audit genesisMsg (.registerChain chain root),
    .audit genesisMsg (.stake ether),
    .audit bobMsg (.stake ether)]

/-- The registry after that. -/
def openRegistry : ReputationRegistry := authorize 3 (authorize 2 bobRegistered)

/-- The audit contract with a key for two public inputs. -/
def keyedAudit : AuditContractV2 := { AuditContractV2.deploy genesis with vk_psi := emptyKey 2 }

/-- The system after that. -/
def openChain (chain : ChainId) (root : Bytes32) : System :=
  ⟨openRegistry, ClusterManager.deploy genesis,
    afterStake bob ether (afterStake genesis ether (afterRegister genesisMsg chain root keyedAudit))⟩

theorem chains_openChain (chain : ChainId) (root : Bytes32) :
    (openChain chain root).audit.chains chain = ⟨chain, root, 1, 0, true⟩ :=
  update_self ..

theorem minStake_le_ether : AuditContractV2.MIN_STAKE ≤ ether := by
  rw [AuditContractV2.MIN_STAKE]

theorem run_setup (pairing : PairingCheck) {S : Setting}
    (hS : ∀ a, System.External setting a → System.External S a) (chain : ChainId)
    (root : Bytes32) :
    run (System.exec pairing S) (System.deploy (.all genesis)) (setup chain root)
      = openChain chain root := by
  have hgenesis : System.External S genesis := hS genesis (by decide)
  have hbob : System.External S bob := hS bob (by decide)
  have hkey : setVerifyingKey genesisMsg ⟨0, 0⟩ ⟨(0, 0), (0, 0)⟩ ⟨(0, 0), (0, 0)⟩
      ⟨(0, 0), (0, 0)⟩ [[0, 0], [0, 0], [0, 0]] (AuditContractV2.deploy genesis)
      = .ok keyedAudit := by
    rw [setVerifyingKey,
      require_bind (show genesisMsg.sender = (AuditContractV2.deploy genesis).owner from rfl)]
    rfl
  have hchain : registerChain genesisMsg chain root keyedAudit
      = .ok (afterRegister genesisMsg chain root keyedAudit) :=
    registerChain_eq_ok.mpr ⟨rfl, rfl, rfl⟩
  have hroom : ether < 2 ^ 256 := by
    norm_num [ether]
  have h₁ : System.exec pairing S (.registry bobRegisters) (System.deploy (.all genesis))
      = .ok ⟨bobRegistered, ClusterManager.deploy genesis, AuditContractV2.deploy genesis⟩ :=
    System.exec_registry_ok hbob ReputationRegistry.exec_bobRegisters
  have h₂ : System.exec pairing S (.registry ⟨genesisMsg, .setAuthorizedAuditor 2 true⟩)
      ⟨bobRegistered, ClusterManager.deploy genesis, AuditContractV2.deploy genesis⟩
      = .ok ⟨authorize 2 bobRegistered, _, _⟩ :=
    System.exec_registry_ok hgenesis (ReputationRegistry.setAuthorizedAuditor_ok 2 true rfl)
  have h₃ : System.exec pairing S (.registry ⟨genesisMsg, .setAuthorizedAuditor 3 true⟩)
      ⟨authorize 2 bobRegistered, ClusterManager.deploy genesis, AuditContractV2.deploy genesis⟩
      = .ok ⟨openRegistry, _, _⟩ :=
    System.exec_registry_ok hgenesis (ReputationRegistry.setAuthorizedAuditor_ok 3 true rfl)
  have h₄ : System.exec pairing S (.audit genesisMsg (.setVerifyingKey ⟨0, 0⟩
        ⟨(0, 0), (0, 0)⟩ ⟨(0, 0), (0, 0)⟩ ⟨(0, 0), (0, 0)⟩ [[0, 0], [0, 0], [0, 0]]))
      ⟨openRegistry, ClusterManager.deploy genesis, AuditContractV2.deploy genesis⟩
      = .ok ⟨_, _, keyedAudit⟩ :=
    exec_audit_ok hgenesis rfl hkey
  have h₅ : System.exec pairing S (.audit genesisMsg (.registerChain chain root))
      ⟨openRegistry, ClusterManager.deploy genesis, keyedAudit⟩
      = .ok ⟨_, _, afterRegister genesisMsg chain root keyedAudit⟩ :=
    exec_audit_ok hgenesis rfl hchain
  have h₆ : System.exec pairing S (.audit genesisMsg (.stake ether))
      ⟨openRegistry, ClusterManager.deploy genesis, afterRegister genesisMsg chain root keyedAudit⟩
      = .ok ⟨_, _, afterStake genesis ether (afterRegister genesisMsg chain root keyedAudit)⟩ :=
    exec_audit_ok hgenesis rfl
      (stake_ok minStake_le_ether (by show 0 + ether < 2 ^ 256; omega))
  have h₇ : System.exec pairing S (.audit bobMsg (.stake ether))
      ⟨openRegistry, ClusterManager.deploy genesis,
        afterStake genesis ether (afterRegister genesisMsg chain root keyedAudit)⟩
      = .ok (openChain chain root) :=
    exec_audit_ok hbob rfl
      (stake_ok minStake_le_ether (by show 0 + ether < 2 ^ 256; omega))
  rw [setup, run_cons, commit_of_ok h₁, run_cons, commit_of_ok h₂, run_cons, commit_of_ok h₃,
    run_cons, commit_of_ok h₄, run_cons, commit_of_ok h₅, run_cons, commit_of_ok h₆, run_cons,
    commit_of_ok h₇, run_nil]

theorem openRegistry_serves : Serves setting openRegistry := by
  have hbob := ReputationRegistry.registryInv_step (ReputationRegistry.registryInv_deploy genesis)
    ReputationRegistry.exec_bobRegisters
  have hstakes := ReputationRegistry.stakeInv_step (by
      intro value _ _ hcall
      cases hcall
      norm_num [ether])
    (ReputationRegistry.stakeInv_deploy genesis) ReputationRegistry.exec_bobRegisters
  exact ⟨⟨hbob.records, hbob.blank, hbob.snapshots⟩, ⟨hstakes.records, hstakes.snapshots⟩, rfl⟩

theorem openRegistry_genesis : openRegistry.states genesis = ReputationRegistry.genesisState := by
  show update (ReputationRegistry.deploy genesis).states bob
    (ReputationRegistry.registrationState ether 1 (genesis, genesis)) genesis = _
  rw [update_of_ne (by decide), ReputationRegistry.deploy_states_self]

theorem openRegistry_bob : openRegistry.states bob
    = ReputationRegistry.registrationState ether 1 (genesis, genesis) := by
  show update (ReputationRegistry.deploy genesis).states bob
    (ReputationRegistry.registrationState ether 1 (genesis, genesis)) bob = _
  rw [update_self]

/-- The election weights on the open chain. -/
def openWeight (a : Address) : Nat :=
  if a = bob then ReputationRegistry.R_INITIAL else ReputationRegistry.R_MAX

theorem maySubmit_of {chain : ChainId} {root : Bytes32} {a : Address} {state : StateSnapshot}
    (hstate : openRegistry.states a = state) (hext : System.External setting a)
    (hstake : (openChain chain root).audit.committerStakes a = ether)
    (hreg : state.isRegistered = true) (hfree : state.isJailed = false)
    (hmult : state.safetyMult = ReputationRegistry.PRECISION)
    (hlow : ReputationRegistry.R_MIN ≤ state.baseReputation)
    (hcap : state.baseReputation ≤ ReputationRegistry.W_MAX) :
    MaySubmit setting state.baseReputation a (openChain chain root) := by
  subst hstate
  refine ⟨hext, ?_, hreg, ?_⟩
  · rw [hstake]
    exact minStake_le_ether
  · exact ReputationRegistry.electionWeight_of_faultless openRegistry_serves.inv a hfree
      hmult hlow hcap

/-- Both accounts may submit. -/
theorem maySubmit_open (chain : ChainId) (root : Bytes32) {a : Address} (ha : a = genesis ∨ a = bob) :
    MaySubmit setting (openWeight a) a (openChain chain root) := by
  have hether : 0 + ether = ether := Nat.zero_add ether
  rcases ha with rfl | rfl
  · exact maySubmit_of openRegistry_genesis (by decide) hether rfl rfl rfl
      (by norm_num [ReputationRegistry.genesisState, ReputationRegistry.R_MIN,
        ReputationRegistry.R_MAX])
      (by norm_num [ReputationRegistry.genesisState, ReputationRegistry.W_MAX,
        ReputationRegistry.R_MAX])
  · exact maySubmit_of openRegistry_bob (by decide) hether rfl rfl rfl
      (by norm_num [ReputationRegistry.registrationState, ReputationRegistry.R_MIN,
        ReputationRegistry.R_INITIAL])
      (by norm_num [ReputationRegistry.registrationState, ReputationRegistry.W_MAX,
        ReputationRegistry.R_INITIAL])

/-- The entry of a submission on the open chain. -/
def openEntry (p : Msg × Bytes32) : WeightedSubmission := ⟨p.1.sender, p.2, openWeight p.1.sender⟩

/-- Any submissions of the two go through. -/
theorem run_openChain (pairing : PairingCheck) (range : BlockRange) (root : Bytes32)
    {subs : List (Msg × Bytes32)} (hsubs : ∀ p ∈ subs, p.1.sender = genesis ∨ p.1.sender = bob)
    (hlen : subs.length < 2 ^ 256) :
    Grown range (subs.map openEntry) (openChain range.chainId root)
      (run (System.exec pairing setting) (openChain range.chainId root)
        (subs.map (submit range root))) := by
  refine run_submits pairing range root subs _ openRegistry_serves.inv ?_ ?_ ?_
  · rw [chains_openChain]
  · intro p hp
    exact maySubmit_open range.chainId root (hsubs p hp)
  · rw [chains_openChain]
    show 0 + subs.length < 2 ^ 256
    omega

/-! ## §5. An audit of the group. -/

/-- A verifier whose pairing equation always holds. -/
def acceptAll : PairingCheck := fun _ _ _ => .ok true

/-- The auditor's transaction. -/
def accept (groupId : Bytes32) (chainId : ChainId) : System.Tx :=
  .audit genesisMsg (.weightedAuditAccept groupId chainId emptyProof)

/-- What an audit by genesis needs. -/
structure Auditable (groupId : Bytes32) (chainId : ChainId) (root : Bytes32) (s : System) :
    Prop where
  serves : Serves setting s.registry
  registered : ∀ e ∈ s.audit.commitGroups groupId, (s.registry.states e.committer).isRegistered = true
  room : s.registry.totalSlashedPool + (s.audit.commitGroups groupId).length * 2 ^ 128 ≤ 2 ^ 256
  auditor : s.audit.auditors genesis = true
  active : (s.audit.chains chainId).isActive = true
  key : s.audit.vk_psi = emptyKey 2
  real : s.audit.useMockVerifier = false
  selected : acceptedRoot (s.audit.commitGroups groupId) = .ok root
  oldRange : (s.audit.chains chainId).latestStateRoot.toNat < SCALAR_MODULUS
  newRange : root.toNat < SCALAR_MODULUS

/-- The acceptance goes through. -/
theorem exec_accept {groupId : Bytes32} {chainId : ChainId} {root : Bytes32} {s : System}
    (h : Auditable groupId chainId root s) :
    ∃ reg', System.exec acceptAll setting (accept groupId chainId) s
        = .ok (afterAccept genesisMsg groupId chainId root reg' s)
      ∧ Serves setting reg'
      ∧ (∀ a, (reg'.states a).isRegistered = (s.registry.states a).isRegistered)
      ∧ reg'.totalSlashedPool
        ≤ s.registry.totalSlashedPool + (s.audit.commitGroups groupId).length * 2 ^ 128 := by
  obtain ⟨reg', hupdate, hserves, hregistered, hpool⟩ :=
    updateGroup_ok genesisMsg root _ h.serves h.registered h.room
  have hproof : proofAccepted acceptAll emptyProof (s.audit.chains chainId).latestStateRoot root
      s.audit = .ok true := by
    unfold proofAccepted
    rw [h.real, if_neg (by decide), h.key]
    refine verify_eq_true.mpr ⟨rfl, ?_, rfl⟩
    intro x hx
    rcases List.mem_cons.mp hx with rfl | hx
    · exact h.oldRange
    · rw [List.mem_singleton.mp hx]
      exact h.newRange
  refine ⟨reg', ?_, hserves, hregistered, hpool⟩
  refine System.exec_eq_ok.mpr ⟨by show System.External setting 1; decide, ?_⟩
  exact weightedAuditAccept_eq_ok.mpr ⟨root, reg', ⟨h.auditor, h.active, h.selected, hproof,
    hupdate⟩, rfl⟩

end HZKA.Psi
