/-
  HZKA.Psi.Quorum
  ────────────
  **TWO THIRDS OF WHAT?**

  `weightedAuditAccept` sums the weights of the ENTRIES of a group.  A committer appends
  as many entries as it likes, each with its full weight, so two thirds of the entries
  can be a minority of the committers (`minority_accepted`).  If nobody submits twice to
  a group, entries and committers are the same thing:

    • `Distinct` — the invariant: the entries of the group have distinct committers;
    • `sum_held` — under it, counting committers is counting entries;
    • `quorum_of_distinct` — the accepted root then has two thirds of the committers.
-/
import HZKA.Psi.Groups

namespace HZKA.Psi

open HZKA.Lib HZKA.EVM HZKA.Groth16Verifier HZKA.AuditContractV2
open HZKA.ReputationRegistry (genesis bob genesisMsg bobMsg)
open HZKA.Clusters (setting)

/-! ## §1. Counting committers. -/

/-- The committers of a group, each once. -/
def committers (group : List WeightedSubmission) : List Address :=
  (group.map (·.committer)).dedup

/-- The largest weight recorded for a committer. -/
def heldBy (group : List WeightedSubmission) (c : Address) : Nat :=
  ((group.filter (fun e => e.committer = c)).map (·.weight)).foldr max 0

/-- The committers that submitted `root` hold two thirds of the weight of all. -/
def Quorum (group : List WeightedSubmission) (root : Bytes32) : Prop :=
  2 * ((committers group).map (heldBy group)).sum
    ≤ 3 * ((committers (votesFor group root)).map (heldBy group)).sum

instance (group : List WeightedSubmission) (root : Bytes32) : Decidable (Quorum group root) :=
  inferInstanceAs (Decidable (_ ≤ _))

/-- One entry each, one weight each. -/
theorem heldBy_of_mem {group : List WeightedSubmission} (hnodup : (group.map (·.committer)).Nodup)
    {e : WeightedSubmission} (he : e ∈ group) : heldBy group e.committer = e.weight := by
  have honly : group.filter (fun x => x.committer = e.committer) = [e] := by
    induction group with
    | nil => exact absurd he List.not_mem_nil
    | cons x rest ih =>
      rw [List.map_cons, List.nodup_cons] at hnodup
      rcases List.mem_cons.mp he with rfl | hrest
      · -- nobody else in the group is this committer
        have hnone : rest.filter (fun x => x.committer = e.committer) = [] := by
          refine List.filter_eq_nil_iff.mpr ?_
          intro x hx hsame
          exact hnodup.1 (List.mem_map.mpr ⟨x, hx, of_decide_eq_true hsame⟩)
        rw [List.filter_cons, if_pos (by simp), hnone]
      · have hne : x.committer ≠ e.committer := by
          intro hsame
          exact hnodup.1 (List.mem_map.mpr ⟨e, hrest, hsame.symm⟩)
        rw [List.filter_cons, if_neg (by simpa using hne)]
        exact ih hnodup.2 hrest
  rw [heldBy, honly]
  exact Nat.max_zero e.weight

/-- **Counting committers is counting entries**, of any part of the group. -/
theorem sum_held {group part : List WeightedSubmission}
    (hnodup : (group.map (·.committer)).Nodup) (hpart : part.Sublist group) :
    ((committers part).map (heldBy group)).sum = weightOf part := by
  have hpartNodup : (part.map (·.committer)).Nodup := hnodup.sublist (hpart.map _)
  rw [committers, hpartNodup.dedup, List.map_map, weightOf]
  congr 1
  refine List.map_congr_left ?_
  intro e he
  exact heldBy_of_mem hnodup (hpart.subset he)

/-! ## §2. Runs without a second entry. -/

/-- The group has distinct committers. -/
def Distinct (groupId : Bytes32) (s : System) : Prop :=
  ((s.audit.commitGroups groupId).map (·.committer)).Nodup

/-- A submission to the group that succeeds is the committer's first. -/
def FirstEntry (pairing : PairingCheck) (S : Setting) (groupId : Bytes32) (s : System)
    (tx : System.Tx) : Prop :=
  ∀ msg range oldRoot newRoot, tx = .audit msg (.submitCommit range oldRoot newRoot) →
    (System.exec pairing S tx s).isOk = true → groupKey range = groupId →
    msg.sender ∉ (s.audit.commitGroups groupId).map (·.committer)

variable {pairing : PairingCheck} {S : Setting}

/-- **One transaction** keeps voters distinct. -/
theorem distinct_step {groupId : Bytes32} {s s' : System} {tx : System.Tx}
    (hfirst : FirstEntry pairing S groupId s tx) (hs : Distinct groupId s)
    (h : System.exec pairing S tx s = .ok s') : Distinct groupId s' := by
  unfold Distinct
  rcases groups_step h with ⟨msg, range, oldRoot, newRoot, weight, rfl, hgroups, -⟩ | ⟨hgroups, -⟩
  · rw [hgroups]
    by_cases hg : groupId = groupKey range
    · subst hg
      rw [Function.update_self, List.map_append]
      refine List.Nodup.append hs (List.nodup_singleton _) ?_
      intro c hc hsender
      rw [List.mem_singleton.mp hsender] at hc
      exact hfirst msg range oldRoot newRoot rfl (isOk_of_eq h) rfl hc
    · rw [Function.update_of_ne hg]
      exact hs
  · rw [hgroups]
    exact hs

/-! ## §3. Submissions of genesis and bob. -/

/-- A block range of chain 5. -/
def range : BlockRange := ⟨5, 0, 9⟩

/-- Set-up and submissions for `range`. -/
def submissions (subs : List (Msg × Bytes32)) : List System.Tx :=
  setup 5 7 ++ subs.map (submit range 7)

theorem submissions_snoc (subs : List (Msg × Bytes32)) (p : Msg × Bytes32) :
    submissions (subs ++ [p]) = submissions subs ++ [submit range 7 p] := by
  unfold submissions
  rw [List.map_append, List.append_assoc]
  rfl

/-- A condition on submissions is met by the set-up, which makes none. -/
theorem stepsMeet_setup {pairing : PairingCheck} {S : Setting} {C : System → System.Tx → Prop}
    (hC : ∀ s tx, (∀ msg range oldRoot newRoot,
      tx ≠ .audit msg (.submitCommit range oldRoot newRoot)) → C s tx) (s : System) :
    StepsMeet (System.exec pairing S) C s (setup 5 7) := by
  refine stepsMeet_of_forall ?_ s
  intro tx htx s
  apply hC
  intro msg range oldRoot newRoot hsubmit
  rw [hsubmit] at htx
  simp [setup] at htx

/-- The run that submits all. -/
theorem run_submissions (pairing : PairingCheck) (subs : List (Msg × Bytes32))
    (hsubs : ∀ p ∈ subs, p.1.sender = genesis ∨ p.1.sender = bob) (hlen : subs.length < 2 ^ 256) :
    Grown range (subs.map openEntry) (openChain 5 7)
      (run (System.exec pairing setting) (System.deploy (.all genesis)) (submissions subs)) := by
  rw [submissions, run_append, run_setup pairing (fun _ h => h)]
  exact run_openChain pairing range 7 hsubs hlen

theorem group_submissions {subs : List (Msg × Bytes32)} {s : System}
    (h : Grown range (subs.map openEntry) (openChain 5 7) s) :
    s.audit.commitGroups (groupKey range) = subs.map openEntry := by
  rw [h.group]
  rfl

/-- A root of two thirds of the entries can be accepted. -/
theorem auditable_submissions {subs : List (Msg × Bytes32)} {s : System} {root : Bytes32}
    (h : Grown range (subs.map openEntry) (openChain 5 7) s)
    (hsubs : ∀ p ∈ subs, p.1.sender = genesis ∨ p.1.sender = bob) (hlen : subs.length ≤ 100)
    (hroot : acceptedRoot (subs.map openEntry) = .ok root) (hrange : root.toNat < 1000) :
    Auditable (groupKey range) 5 root s := by
  have hgroup := group_submissions h
  have hregistry : s.registry = openRegistry := by rw [h.shape]; rfl
  have hchain : (s.audit.chains 5).latestStateRoot = 7 := by
    rw [h.root, chains_openChain]
  have hmodulus : 1000 < SCALAR_MODULUS := by norm_num [SCALAR_MODULUS]
  refine ⟨?_, ?_, ?_, ?_, ?_, ?_, ?_, ?_, ?_, ?_⟩
  · rw [hregistry]
    exact openRegistry_serves
  · intro e he
    rw [hgroup] at he
    obtain ⟨p, hp, rfl⟩ := List.mem_map.mp he
    rw [hregistry]
    exact (maySubmit_open 5 7 (hsubs p hp)).registered
  · rw [hgroup, hregistry, List.length_map]
    show 0 + subs.length * 2 ^ 128 ≤ 2 ^ 256
    omega
  · rw [h.shape]
    rfl
  · rw [h.active, chains_openChain]
  · rw [h.shape]
    rfl
  · rw [h.shape]
    rfl
  · rw [hgroup]
    exact hroot
  · rw [hchain]
    show 7 < SCALAR_MODULUS
    omega
  · omega

/-- Bob submits root 11 four times, genesis submits root 12. -/
def bobFourTimes : List (Msg × Bytes32) :=
  [(bobMsg, 11), (bobMsg, 11), (bobMsg, 11), (bobMsg, 11), (genesisMsg, 12)]

/-- Both submit root 11. -/
def bothAgree : List (Msg × Bytes32) := [(bobMsg, 11), (genesisMsg, 11)]

theorem selected : acceptedRoot (bobFourTimes.map openEntry) = .ok 11
    ∧ acceptedRoot (bothAgree.map openEntry) = .ok 11 := by
  decide +kernel

theorem bobFourTimes_selected : acceptedRoot (bobFourTimes.map openEntry) = .ok 11 := selected.1

theorem bothAgree_selected : acceptedRoot (bothAgree.map openEntry) = .ok 11 := selected.2

/-! ## §4. The law. -/

/-- **A quorum of distinct committers** stands behind the accepted root, if nobody submitted to
the group twice. -/
theorem quorum_of_distinct (pairing : PairingCheck) (S : Setting)
    (deployers : Deployers) (txs : List System.Tx) (groupId : Bytes32)
    (hfirst : StepsMeet (System.exec pairing S) (FirstEntry pairing S groupId)
      (System.deploy deployers) txs)
    (msg : Msg) (chainId : ChainId) (proof : Proof) (s' : System)
    (h : System.exec pairing S (.audit msg (.weightedAuditAccept groupId chainId proof))
      (run (System.exec pairing S) (System.deploy deployers) txs) = .ok s') :
    Quorum ((run (System.exec pairing S) (System.deploy deployers)
      txs).audit.commitGroups groupId) (s'.audit.chains chainId).latestStateRoot := by
  have hnodup : Distinct groupId (run (System.exec pairing S) (System.deploy deployers) txs) :=
    run_invariant_of (fun _ _ _ hfirst hs h => distinct_step hfirst hs h) txs _
      List.nodup_nil hfirst
  obtain ⟨-, h⟩ := System.exec_eq_ok.mp h
  obtain ⟨root, reg', hguards, rfl⟩ := weightedAuditAccept_eq_ok.mp h
  unfold Quorum
  rw [root_afterAccept, sum_held hnodup (List.Sublist.refl _),
    sum_held hnodup (votesFor_sublist _ root)]
  exact (acceptedRoot_eq_ok hguards.selected).2

/-- Bob and genesis submit once each. -/
theorem bothAgree_quorum : ∃ s', System.exec acceptAll setting (accept (groupKey range) 5)
      (run (System.exec acceptAll setting) (System.deploy (.all genesis)) (submissions bothAgree))
      = .ok s'
    ∧ Quorum ((run (System.exec acceptAll setting) (System.deploy (.all genesis))
        (submissions bothAgree)).audit.commitGroups (groupKey range))
      (s'.audit.chains 5).latestStateRoot := by
  have hgrown := run_submissions acceptAll bothAgree (by decide) (by decide)
  obtain ⟨reg', haccept, -⟩ := exec_accept
    (auditable_submissions hgrown (by decide) (by decide) bothAgree_selected (by decide))
  refine ⟨_, haccept, quorum_of_distinct acceptAll setting (.all genesis) (submissions bothAgree)
    (groupKey range) ?_ genesisMsg 5 emptyProof _ haccept⟩
  have hsplit : submissions bothAgree
      = submissions [(bobMsg, 11)] ++ [submit range 7 (genesisMsg, 11)] :=
    submissions_snoc [(bobMsg, 11)] (genesisMsg, 11)
  rw [hsplit, stepsMeet_append]
  refine ⟨(stepsMeet_append _ (setup 5 7) _).mpr ⟨?_, ?_, trivial⟩, ?_, trivial⟩
  · exact stepsMeet_setup (fun s tx hnone msg range oldRoot newRoot hsubmit =>
      absurd hsubmit (hnone msg range oldRoot newRoot)) _
  · intro msg range' oldRoot newRoot hsubmit _ _
    obtain ⟨rfl, hcall⟩ := System.Tx.audit.inj hsubmit
    obtain ⟨rfl, -, -⟩ := Call.submitCommit.inj hcall
    rw [run_setup acceptAll (fun _ h => h)]
    exact List.not_mem_nil
  · intro msg range' oldRoot newRoot hsubmit _ _
    obtain ⟨rfl, hcall⟩ := System.Tx.audit.inj hsubmit
    obtain ⟨rfl, -, -⟩ := Call.submitCommit.inj hcall
    rw [group_submissions (run_submissions acceptAll [(bobMsg, 11)] (by decide) (by decide))]
    decide

theorem minority_accepted : ¬ ∀ (pairing : PairingCheck) (S : Setting)
    (deployers : Deployers) (txs : List System.Tx) (msg : Msg) (groupId : Bytes32)
    (chainId : ChainId) (proof : Proof) (s' : System),
    System.exec pairing S (.audit msg (.weightedAuditAccept groupId chainId proof))
      (run (System.exec pairing S) (System.deploy deployers) txs) = .ok s' →
    Quorum ((run (System.exec pairing S) (System.deploy deployers)
      txs).audit.commitGroups groupId) (s'.audit.chains chainId).latestStateRoot := by
  intro hall
  have hgrown := run_submissions acceptAll bobFourTimes (by decide) (by decide)
  obtain ⟨reg', haccept, -⟩ := exec_accept
    (auditable_submissions hgrown (by decide) (by decide) bobFourTimes_selected (by decide))
  have hquorum := hall acceptAll setting (.all genesis) (submissions bobFourTimes) genesisMsg
    (groupKey range) 5 emptyProof _ haccept
  rw [group_submissions hgrown, root_afterAccept] at hquorum
  exact absurd hquorum (by decide +kernel)

end HZKA.Psi
