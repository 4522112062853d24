/-
  HZKA.Clusters.Reshuffle
  ────────────
  **A RESHUFFLE LOSES NOTHING AND BALANCES THE CLUSTERS.**

  `reshuffleClusters` permutes the chain ids in place, by draws it takes from a hash, and
  deals the permuted list to the clusters in turn.  Which permutation the hash draws does
  not matter: the hash is a parameter below.

    • `length_dealtTo`     — every cluster gets `k / M` chains, and some one more;
    • `reshuffle_balanced` — after the call the clusters' lists make up the chain ids, their
      sizes differ by at most one, and the reverse map names the list a chain is in.
-/
import HZKA.Clusters.Membership

namespace HZKA.Clusters

open HZKA.Lib HZKA.EVM HZKA.ClusterManager

/-! ## §1. The dealt lists. -/

/-- A cluster listed once is served at every `M`-th position. -/
theorem roundRobin_eq_iff {ids : List Nat} (hnodup : ids.Nodup) {k : Nat} (hk : k < ids.length)
    (i : Nat) : roundRobin ids i = ids[k] ↔ i % ids.length = k := by
  have hlt : i % ids.length < ids.length := Nat.mod_lt i (by omega)
  unfold roundRobin
  rw [List.getD_eq_getElem?_getD, List.getElem?_eq_getElem hlt, Option.getD_some]
  exact hnodup.getElem_inj_iff

/-- Shares differ by at most one. -/
theorem length_dealtTo {ids : List Nat} (hnodup : ids.Nodup) {c : Nat} (hc : c ∈ ids)
    (l : List ChainId) :
    (dealtTo ids c 0 l).length = l.length / ids.length
      ∨ (dealtTo ids c 0 l).length = l.length / ids.length + 1 ∧ 0 < l.length % ids.length := by
  obtain ⟨k, hk, rfl⟩ := List.getElem_of_mem hc
  rw [dealtTo, length_roundRobin hk (roundRobin_eq_iff hnodup hk)]
  split
  next hfirst =>
    right
    omega
  next =>
    left
    omega

/-- The ceiling, where the division leaves a remainder. -/
theorem ceil_of_mod_pos {n M : Nat} (hM : 0 < M) (hmod : 0 < n % M) :
    (n + M - 1) / M = n / M + 1 := by
  have hdiv := Nat.div_add_mod n M
  have hlt := Nat.mod_lt n hM
  have hsum : n + M - 1 = n % M - 1 + M * (n / M + 1) := by
    rw [Nat.mul_add]
    omega
  rw [hsum, Nat.add_mul_div_left _ _ hM, Nat.div_eq_of_lt (by omega), Nat.zero_add]

/-- After the dealing a listed cluster has what was dealt to it. -/
theorem assigned_afterDeal_mem {cm : ClusterManager} {c : Nat} (hc : c ∈ cm.clusterIds)
    (shuffled : List ChainId) :
    assigned (afterDeal shuffled cm) c = dealtTo cm.clusterIds c 0 shuffled := by
  show assigned (deal cm.clusterIds 0 shuffled (clearAssignments cm)) c = _
  rw [assigned_deal, assigned_clear, if_pos hc, List.nil_append]

/-! ## §2. The whole call. -/

/-- **Nothing lost, nothing duplicated, balanced**, for distinct chains, distinct clusters
and any hash. -/
theorem reshuffle_balanced :
    reshuffleWith keccak256 = reshuffleClusters
    ∧ ∀ {hash : List Byte → Bytes32} {ctx : Ctx} {allChainIds : List ChainId}
        {reg : ReputationRegistry} {cm cm' : ClusterManager},
      allChainIds.Nodup → cm.clusterIds.Nodup →
      reshuffleWith hash ctx allChainIds reg cm = .ok cm' →
      cm'.clusterIds = cm.clusterIds
      ∧ (cm.clusterIds.flatMap (assigned cm')).Perm allChainIds
      ∧ (∀ c ∈ cm.clusterIds,
          (assigned cm' c).length = allChainIds.length / cm.clusterIds.length
          ∨ (assigned cm' c).length
            = (allChainIds.length + cm.clusterIds.length - 1) / cm.clusterIds.length)
      ∧ (∀ c ∈ cm.clusterIds, ∀ d ∈ cm.clusterIds,
          (assigned cm' c).length ≤ (assigned cm' d).length + 1)
      ∧ (∀ x ∈ allChainIds, cm'.chainToCluster x ∈ cm.clusterIds
          ∧ ∀ c ∈ cm.clusterIds, cm'.chainToCluster x = c ↔ x ∈ assigned cm' c) := by
  refine ⟨rfl, ?_⟩
  intro hash ctx allChainIds reg cm cm' hchains hclusters h
  obtain ⟨-, hexist, shuffled, hperm, helect⟩ := reshuffleWith_ok h
  have hsame : SameAssignment (afterDeal shuffled cm) cm' :=
    reelected_same (electAll_reelected helect)
  have hlists : ∀ c ∈ cm.clusterIds, assigned cm' c = dealtTo cm.clusterIds c 0 shuffled := by
    intro c hc
    rw [hsame.lists, assigned_afterDeal_mem hc]
  have hsizes : ∀ c ∈ cm.clusterIds,
      (assigned cm' c).length = allChainIds.length / cm.clusterIds.length
      ∨ (assigned cm' c).length = allChainIds.length / cm.clusterIds.length + 1
        ∧ 0 < allChainIds.length % cm.clusterIds.length := by
    intro c hc
    rw [hlists c hc, ← hperm.length_eq]
    exact length_dealtTo hclusters hc shuffled
  refine ⟨?_, ?_, ?_, ?_, ?_⟩
  · rw [hsame.ids, afterDeal, deal_shape]
    rfl
  · have hshares : cm.clusterIds.flatMap (assigned cm')
        = cm.clusterIds.flatMap (fun c => share (roundRobin cm.clusterIds) c 0 shuffled) := by
      apply List.flatMap_congr
      intro c hc
      rw [hlists c hc, dealtTo]
    rw [hshares]
    exact (share_perm hclusters (roundRobin_mem hexist) shuffled 0).trans hperm
  · intro c hc
    rcases hsizes c hc with hfloor | ⟨hceil, hmod⟩
    · exact Or.inl hfloor
    · exact Or.inr (by rw [ceil_of_mod_pos hexist hmod, hceil])
  · intro c hc d hd
    have hsizec := hsizes c hc
    have hsized := hsizes d hd
    omega
  · intro x hx
    have hx' : x ∈ shuffled := hperm.mem_iff.mpr hx
    have hmap : ∀ c, cm'.chainToCluster x = c ↔ x ∈ dealtTo cm.clusterIds c 0 shuffled := by
      intro c
      rw [hsame.map]
      exact deal_chainToCluster cm.clusterIds (hperm.nodup_iff.mpr hchains) hx' c 0 _
    refine ⟨?_, ?_⟩
    · by_contra hout
      have hin := (hmap _).mp rfl
      rw [dealtTo_eq_nil hexist hout] at hin
      exact List.not_mem_nil hin
    · intro c hc
      rw [hlists c hc]
      exact hmap c

/-! ## §3. Five chains in two clusters. -/

/-- Elections over clusters with one member each go through. -/
theorem exists_electAll {ctx : Ctx} {reg : ReputationRegistry} {m : Address} {w : Nat}
    (hw : reg.getElectionWeight m = .ok w) (hrange : w < 2 ^ 256) (hblock : 1 ≤ ctx.msg.number)
    (ids : List Nat) :
    ∀ cm : ClusterManager, (∀ c ∈ ids, (cm.clusters c).members = [m]) →
      ∃ cm', electAll ctx ids reg cm = .ok cm' := by
  unfold electAll
  induction ids with
  | nil =>
    intro cm _
    exact ⟨cm, rfl⟩
  | cons cid ids ih =>
    intro cm hmembers
    have hdraw := drawHead_singleton (hmembers cid List.mem_cons_self) hw hrange hblock
    obtain ⟨cm', hrest⟩ := ih (setHead cid m cm) (by
      intro c hc
      rw [(sameMembers_setHead (drawHead_mem hdraw) c).members]
      exact hmembers c (List.mem_cons_of_mem cid hc))
    refine ⟨cm', ?_⟩
    rw [List.foldlM_cons, electHead_eq_ok.mpr ⟨m, hdraw, rfl⟩, ok_bind]
    exact hrest

/-- Two clusters with account 1 as member, at the end of the first epoch. -/
def twoClusters : ClusterManager :=
  { withCluster [5, 6] (withCluster [7, 8, 9] (deploy 1)) with currentRound := 100 }

theorem members_twoClusters {c : Nat} (hc : c ∈ twoClusters.clusterIds)
    (shuffled : List ChainId) : ((afterDeal shuffled twoClusters).clusters c).members = [1] := by
  have hids : c ∈ [1, 2] := hc
  rw [List.mem_pair] at hids
  rw [(sameMembers_afterDeal shuffled twoClusters c).members]
  rcases hids with rfl | rfl
  · rfl
  · rfl

/-- The reshuffle goes through. -/
theorem exists_reshuffled :
    ∃ cm', reshuffleClusters owner [5, 6, 7, 8, 9] (ReputationRegistry.deploy 1) twoClusters
      = .ok cm' := by
  obtain ⟨w, hle, hw⟩ := ReputationRegistry.getElectionWeight_ok
    (ReputationRegistry.registryInv_deploy 1) 1
  have hrange : w < 2 ^ 256 := lt_of_le_of_lt hle (by simp [ReputationRegistry.W_MAX])
  have howner : owner.msg.sender = twoClusters.owner := rfl
  have hnext : addU256 twoClusters.currentEpoch 1 = .ok 1 := by decide
  have hend : mulU256 1 EPOCH_LENGTH = .ok 100 := by decide
  unfold reshuffleClusters reshuffleWith
  rw [require_bind howner, hnext, ok_bind, hend, ok_bind, require_bind (by decide),
    require_bind (by decide), previousBlockhash_ok (by decide), ok_bind, require_bind (by decide)]
  exact exists_electAll hw hrange (by decide) twoClusters.clusterIds (afterDeal _ twoClusters)
    (fun c hc => members_twoClusters hc _)

/-- The two clusters get three and two of the five chains. -/
theorem five_chains_reshuffled :
    ∃ cm', reshuffleClusters owner [5, 6, 7, 8, 9] (ReputationRegistry.deploy 1) twoClusters
        = .ok cm'
      ∧ (assigned cm' 1 ++ assigned cm' 2).Perm [5, 6, 7, 8, 9]
      ∧ (assigned cm' 1).length ≤ (assigned cm' 2).length + 1
      ∧ (assigned cm' 2).length ≤ (assigned cm' 1).length + 1 := by
  obtain ⟨cm', h⟩ := exists_reshuffled
  obtain ⟨-, hperm, -, hbalance, -⟩ := reshuffle_balanced.2 (by simp) (by decide) h
  refine ⟨cm', h, ?_, hbalance 1 (by decide) 2 (by decide), hbalance 2 (by decide) 1 (by decide)⟩
  have hids : twoClusters.clusterIds.flatMap (assigned cm') = assigned cm' 1 ++ assigned cm' 2 := by
    show [1, 2].flatMap (assigned cm') = _
    rw [List.flatMap_cons, List.flatMap_cons, List.flatMap_nil, List.append_nil]
  rw [← hids]
  exact hperm

end HZKA.Clusters
