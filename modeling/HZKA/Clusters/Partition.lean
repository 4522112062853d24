/-
  HZKA.Clusters.Partition
  ────────────
  **IS THE CLUSTER ASSIGNMENT A PARTITION?**

  The assignment is stored twice: a list per cluster, and the reverse map
  `chainToCluster`.  `createCluster` and `reshuffleClusters` write both from an array the
  caller supplies, and check nothing about it.

    • `mapChains_apply`, `assigned_deal`, `deal_chainToCluster` — what the two loops do;
    • `partition_create_iff`, `partition_reshuffle_iff` — each keeps the partition exactly
      when its array is right;
    • `partition_iff` — so does a whole run;
    • `not_partition` — one chain put into two clusters.
-/
import HZKA.Lib.RecordStore
import HZKA.Lib.RoundRobin
import HZKA.Psi.Transition

namespace HZKA.Clusters

open Function
open HZKA.Lib HZKA.EVM HZKA.Groth16Verifier HZKA.ClusterManager

/-! ## §1. The property. -/

/-- The chains of a cluster. -/
abbrev assigned (cm : ClusterManager) (c : Nat) : List ChainId := (cm.clusters c).assignedChainIds

/-- Every chain at most once over all lists, and the two representations agree. -/
structure Partition (cm : ClusterManager) : Prop where
  once : ∀ c, (assigned cm c).Nodup
  apart : ∀ x c c', x ∈ assigned cm c → x ∈ assigned cm c' → c = c'
  reverse : ∀ x c, 0 < c → (cm.chainToCluster x = c ↔ x ∈ assigned cm c)

/-- What always holds: cluster ids are positive and below the next one, and only they have
chains. -/
structure Numbered (cm : ClusterManager) : Prop where
  next : 0 < cm.nextClusterId
  ids : ∀ c ∈ cm.clusterIds, 0 < c ∧ c < cm.nextClusterId
  unused : ∀ c, c ∉ cm.clusterIds → assigned cm c = []

theorem Numbered.zero {cm : ClusterManager} (h : Numbered cm) : assigned cm 0 = [] :=
  h.unused 0 (fun hmem => absurd (h.ids 0 hmem).1 (lt_irrefl 0))

/-- The next number is free. -/
theorem Numbered.fresh {cm : ClusterManager} (h : Numbered cm) :
    cm.nextClusterId ∉ cm.clusterIds :=
  fun hmem => absurd (h.ids _ hmem).2 (lt_irrefl _)

/-- Agreement with the reverse map already keeps the lists apart. -/
theorem partition_of_reverse {cm : ClusterManager} (hzero : assigned cm 0 = [])
    (honce : ∀ c, (assigned cm c).Nodup)
    (hrev : ∀ x c, 0 < c → (cm.chainToCluster x = c ↔ x ∈ assigned cm c)) : Partition cm := by
  refine ⟨honce, ?_, hrev⟩
  have hpos : ∀ x c, x ∈ assigned cm c → 0 < c := by
    intro x c hx
    rcases Nat.eq_zero_or_pos c with rfl | h
    · rw [hzero] at hx
      exact absurd hx List.not_mem_nil
    · exact h
  intro x c c' hx hx'
  rw [← (hrev x c (hpos x c hx)).mpr hx, ← (hrev x c' (hpos x c' hx')).mpr hx']

/-- Both representations unchanged. -/
structure SameAssignment (cm cm' : ClusterManager) : Prop where
  lists : ∀ c, assigned cm' c = assigned cm c
  map : cm'.chainToCluster = cm.chainToCluster
  ids : cm'.clusterIds = cm.clusterIds
  next : cm'.nextClusterId = cm.nextClusterId

/-- The same assignment, the same partition. -/
theorem SameAssignment.partitioned {cm cm' : ClusterManager} (h : SameAssignment cm cm') :
    Partition cm' ↔ Partition cm := by
  constructor
  · rintro ⟨h₁, h₂, h₃⟩
    simp only [h.lists, h.map] at h₁ h₂ h₃
    exact ⟨h₁, h₂, h₃⟩
  · rintro ⟨h₁, h₂, h₃⟩
    refine ⟨?_, ?_, ?_⟩
    · simpa only [h.lists] using h₁
    · simpa only [h.lists] using h₂
    · simpa only [h.lists, h.map] using h₃

theorem SameAssignment.numbered {cm cm' : ClusterManager} (h : SameAssignment cm cm')
    (hcm : Numbered cm) : Numbered cm' := by
  refine ⟨by rw [h.next]; exact hcm.next, ?_, ?_⟩
  · intro c hc
    rw [h.ids] at hc
    rw [h.next]
    exact hcm.ids c hc
  · intro c hc
    rw [h.ids] at hc
    rw [h.lists, hcm.unused c hc]

/-- An update of a cluster that keeps its chain list. -/
theorem assigned_update {clusters : Nat → Cluster} {c : Nat} {cluster : Cluster}
    (h : cluster.assignedChainIds = (clusters c).assignedChainIds) (d : Nat) :
    (update clusters c cluster d).assignedChainIds = (clusters d).assignedChainIds :=
  rel_update (R := fun a b : Cluster => b.assignedChainIds = a.assignedChainIds) (fun _ => rfl) h d

/-! ## §2. The loops. -/

/-- Listed chains map to the cluster. -/
theorem mapChains_apply (cid : Nat) (l : List ChainId) (f : ChainId → Nat) (x : ChainId) :
    mapChains cid l f x = if x ∈ l then cid else f x := by
  unfold mapChains
  induction l generalizing f with
  | nil => rfl
  | cons y l ih =>
    rw [List.foldl_cons, ih]
    by_cases hx : x ∈ l
    · rw [if_pos hx, if_pos (List.mem_cons_of_mem _ hx)]
    · rw [if_neg hx]
      by_cases hxy : x = y
      · rw [hxy, update_self, if_pos (List.mem_cons_self ..)]
      · rw [update_of_ne hxy, if_neg]
        rw [List.mem_cons, not_or]
        exact ⟨hxy, hx⟩

/-- After the clearing loop no listed cluster has a chain. -/
theorem assigned_clear (cm : ClusterManager) (c : Nat) :
    assigned (clearAssignments cm) c = if c ∈ cm.clusterIds then [] else assigned cm c := by
  show ((cm.clusterIds.foldl _ cm.clusters) c).assignedChainIds = _
  generalize cm.clusterIds = ids
  generalize hclusters : cm.clusters = clusters
  show _ = if c ∈ ids then [] else (cm.clusters c).assignedChainIds
  rw [hclusters]
  clear hclusters
  induction ids generalizing clusters with
  | nil => rfl
  | cons cid ids ih =>
    rw [List.foldl_cons, ih]
    by_cases hc : c ∈ ids
    · rw [if_pos hc, if_pos (List.mem_cons_of_mem _ hc)]
    · rw [if_neg hc]
      by_cases hcid : c = cid
      · rw [hcid, update_self, if_pos (List.mem_cons_self ..)]
      · rw [update_of_ne hcid, if_neg]
        rw [List.mem_cons, not_or]
        exact ⟨hcid, hc⟩

/-- The chains of `l`, dealt from position `i` on, that go to cluster `c`. -/
def dealtTo (ids : List Nat) (c i : Nat) (l : List ChainId) : List ChainId :=
  share (roundRobin ids) c i l

theorem dealtTo_cons (ids : List Nat) (c i : Nat) (x : ChainId) (rest : List ChainId) :
    dealtTo ids c i (x :: rest) = if roundRobin ids i = c then x :: dealtTo ids c (i + 1) rest
      else dealtTo ids c (i + 1) rest :=
  rfl

theorem dealtTo_sublist (ids : List Nat) (c i : Nat) (l : List ChainId) :
    (dealtTo ids c i l).Sublist l :=
  share_sublist _ c l i

/-- Dealing appends the share. -/
theorem assigned_deal (ids : List Nat) (i : Nat) (l : List ChainId) (cm : ClusterManager) (c : Nat) :
    assigned (deal ids i l cm) c = assigned cm c ++ dealtTo ids c i l := by
  induction l generalizing i cm with
  | nil => exact (List.append_nil _).symm
  | cons x rest ih =>
    show assigned (deal ids (i + 1) rest (assignChain (roundRobin ids i) x cm)) c = _
    rw [ih]
    by_cases hc : roundRobin ids i = c
    · have hpush : assigned (assignChain (roundRobin ids i) x cm) c = assigned cm c ++ [x] := by
        rw [hc]
        show (update cm.clusters c _ c).assignedChainIds = _
        rw [update_self]
      rw [hpush, dealtTo_cons, if_pos hc, List.append_assoc, List.singleton_append]
    · have hkeep : assigned (assignChain (roundRobin ids i) x cm) c = assigned cm c := by
        show (update cm.clusters (roundRobin ids i) _ c).assignedChainIds = _
        rw [update_of_ne (fun h => hc h.symm)]
      rw [hkeep, dealtTo_cons, if_neg hc]

/-- The dealt cluster exists. -/
theorem roundRobin_mem {ids : List Nat} (h : ids.length > 0) (i : Nat) : roundRobin ids i ∈ ids := by
  have hlt : i % ids.length < ids.length := Nat.mod_lt i h
  unfold roundRobin
  rw [List.getD_eq_getElem?_getD, List.getElem?_eq_getElem hlt, Option.getD_some]
  exact List.getElem_mem hlt

theorem dealtTo_eq_nil {ids : List Nat} (h : ids.length > 0) {c : Nat} (hc : c ∉ ids) (i : Nat)
    (l : List ChainId) : dealtTo ids c i l = [] := by
  apply share_eq_nil
  intro j hj
  exact hc (hj ▸ roundRobin_mem h j)

/-- A chain that is not dealt keeps its entry of the reverse map. -/
theorem deal_chainToCluster_of_not_mem (ids : List Nat) {x : ChainId} {l : List ChainId}
    (hx : x ∉ l) (i : Nat) (cm : ClusterManager) :
    (deal ids i l cm).chainToCluster x = cm.chainToCluster x := by
  induction l generalizing i cm with
  | nil => rfl
  | cons y rest ih =>
    rw [List.mem_cons, not_or] at hx
    show (deal ids (i + 1) rest (assignChain (roundRobin ids i) y cm)).chainToCluster x = _
    rw [ih hx.2]
    exact update_of_ne hx.1 _ _

/-- A chain dealt once is mapped to the cluster whose list it is in. -/
theorem deal_chainToCluster (ids : List Nat) {x : ChainId} {l : List ChainId} (hnodup : l.Nodup)
    (hx : x ∈ l) (c i : Nat) (cm : ClusterManager) :
    (deal ids i l cm).chainToCluster x = c ↔ x ∈ dealtTo ids c i l := by
  induction l generalizing i cm with
  | nil => exact absurd hx List.not_mem_nil
  | cons y rest ih =>
    rw [List.nodup_cons] at hnodup
    show (deal ids (i + 1) rest (assignChain (roundRobin ids i) y cm)).chainToCluster x = c ↔ _
    rcases List.mem_cons.mp hx with rfl | hin
    · -- the head: its entry is written now and not again
      have hrest : x ∉ dealtTo ids c (i + 1) rest :=
        fun h => hnodup.1 ((dealtTo_sublist ids c (i + 1) rest).subset h)
      rw [deal_chainToCluster_of_not_mem ids hnodup.1]
      have hself : (assignChain (roundRobin ids i) x cm).chainToCluster x = roundRobin ids i :=
        update_self ..
      rw [hself]
      by_cases hc : roundRobin ids i = c
      · rw [dealtTo_cons, if_pos hc]
        exact iff_of_true hc (List.mem_cons_self ..)
      · rw [dealtTo_cons, if_neg hc]
        exact iff_of_false hc hrest
    · have hne : x ≠ y := fun he => hnodup.1 (he ▸ hin)
      rw [ih hnodup.2 hin]
      by_cases hc : roundRobin ids i = c
      · have hcons : dealtTo ids c i (y :: rest) = y :: dealtTo ids c (i + 1) rest := by
          rw [dealtTo_cons, if_pos hc]
        rw [hcons, List.mem_cons, or_iff_right hne]
      · have hskip : dealtTo ids c i (y :: rest) = dealtTo ids c (i + 1) rest := by
          rw [dealtTo_cons, if_neg hc]
        rw [hskip]

/-- If no list repeats and no two lists share, nothing was dealt twice. -/
theorem nodup_of_dealtTo (ids : List Nat) {l : List ChainId} (i : Nat)
    (honce : ∀ c, (dealtTo ids c i l).Nodup)
    (hapart : ∀ x c c', x ∈ dealtTo ids c i l → x ∈ dealtTo ids c' i l → c = c') : l.Nodup :=
  nodup_of_share (roundRobin ids) i honce hapart

/-! ## §3. A new cluster. -/

/-- The ids are distinct and unassigned. -/
def FreshChains (cm : ClusterManager) (chainIds : List ChainId) : Prop :=
  chainIds.Nodup ∧ ∀ x ∈ chainIds, cm.chainToCluster x = 0

theorem assigned_addCluster_self (chainIds : List ChainId) (members : List Address)
    (cm : ClusterManager) :
    assigned (addCluster chainIds members cm) cm.nextClusterId = chainIds := by
  show (update cm.clusters cm.nextClusterId _ cm.nextClusterId).assignedChainIds = _
  rw [update_self]

theorem assigned_addCluster_of_ne {c : Nat} {cm : ClusterManager} (h : c ≠ cm.nextClusterId)
    (chainIds : List ChainId) (members : List Address) :
    assigned (addCluster chainIds members cm) c = assigned cm c := by
  show (update cm.clusters cm.nextClusterId _ c).assignedChainIds = _
  rw [update_of_ne h]

theorem setHead_same (clusterId : Nat) (head : Address) (cm : ClusterManager) :
    SameAssignment cm (setHead clusterId head cm) :=
  ⟨fun c => assigned_setHead clusterId head cm c, rfl, rfl, rfl⟩

/-- A new cluster keeps the numbering. -/
theorem numbered_create {cm : ClusterManager} (hcm : Numbered cm) (chainIds : List ChainId)
    (members : List Address) : Numbered (addCluster chainIds members cm) := by
  refine ⟨Nat.succ_pos _, ?_, ?_⟩
  · intro c hc
    show 0 < c ∧ c < cm.nextClusterId + 1
    rcases List.mem_append.mp hc with h | h
    · have hids := hcm.ids c h
      exact ⟨hids.1, by omega⟩
    · rw [List.mem_singleton.mp h]
      exact ⟨hcm.next, Nat.lt_succ_self _⟩
  · intro c hc
    have hnot : c ∉ cm.clusterIds ∧ c ≠ cm.nextClusterId := by
      constructor
      · exact fun h => hc (List.mem_append_left _ h)
      · exact fun h => hc (List.mem_append_right _ (List.mem_singleton.mpr h))
    rw [assigned_addCluster_of_ne hnot.2, hcm.unused c hnot.1]

theorem partition_create_iff {cm : ClusterManager} (hcm : Numbered cm) (hpart : Partition cm)
    (chainIds : List ChainId) (members : List Address) :
    Partition (addCluster chainIds members cm) ↔ FreshChains cm chainIds := by
  have hself := assigned_addCluster_self chainIds members cm
  have hother : ∀ c, c ≠ cm.nextClusterId →
      assigned (addCluster chainIds members cm) c = assigned cm c :=
    fun c hc => assigned_addCluster_of_ne hc chainIds members
  constructor
  · intro h
    refine ⟨by rw [← hself]; exact h.once _, ?_⟩
    intro x hx
    by_contra hne
    -- the chain would be in its old cluster and in the new one
    have hold : x ∈ assigned cm (cm.chainToCluster x) :=
      (hpart.reverse x _ (Nat.pos_of_ne_zero hne)).mp rfl
    have hdiff : cm.chainToCluster x ≠ cm.nextClusterId := by
      intro he
      rw [he, hcm.unused _ hcm.fresh] at hold
      exact List.not_mem_nil hold
    refine hdiff (h.apart x _ _ ?_ ?_)
    · rw [hother _ hdiff]
      exact hold
    · rw [hself]
      exact hx
  · rintro ⟨hnodup, hunassigned⟩
    refine partition_of_reverse (numbered_create hcm chainIds members).zero ?_ ?_
    · intro c
      by_cases hc : c = cm.nextClusterId
      · rw [hc, hself]
        exact hnodup
      · rw [hother c hc]
        exact hpart.once c
    · intro x c hpos
      show mapChains cm.nextClusterId chainIds cm.chainToCluster x = c ↔ _
      rw [mapChains_apply]
      by_cases hx : x ∈ chainIds
      · rw [if_pos hx]
        by_cases hc : c = cm.nextClusterId
        · rw [hc, hself]
          exact iff_of_true rfl hx
        · rw [hother c hc, ← hpart.reverse x c hpos, hunassigned x hx]
          exact iff_of_false (fun h => hc h.symm) (by omega)
      · rw [if_neg hx]
        by_cases hc : c = cm.nextClusterId
        · rw [hc, hself, hpart.reverse x _ hcm.next, hcm.unused _ hcm.fresh]
          exact iff_of_false List.not_mem_nil hx
        · rw [hother c hc]
          exact hpart.reverse x c hpos

/-! ## §4. A reshuffle. -/

/-- The ids are distinct and leave out no assigned chain. -/
def FullList (cm : ClusterManager) (allChainIds : List ChainId) : Prop :=
  allChainIds.Nodup ∧ ∀ x, cm.chainToCluster x ≠ 0 → x ∈ allChainIds

/-- After the deal a cluster has its share. -/
theorem assigned_afterDeal {cm : ClusterManager} (hcm : Numbered cm) (shuffled : List ChainId)
    (c : Nat) : assigned (afterDeal shuffled cm) c = dealtTo cm.clusterIds c 0 shuffled := by
  have hclear : assigned (clearAssignments cm) c = [] := by
    rw [assigned_clear]
    split
    next => rfl
    next hc => exact hcm.unused c hc
  show assigned (deal cm.clusterIds 0 shuffled (clearAssignments cm)) c = _
  rw [assigned_deal, hclear, List.nil_append]

theorem numbered_afterDeal {cm : ClusterManager} (hcm : Numbered cm)
    (hexist : cm.clusterIds.length > 0) (shuffled : List ChainId) :
    Numbered (afterDeal shuffled cm) := by
  have hdeal := deal_shape cm.clusterIds 0 shuffled (clearAssignments cm)
  have hids' : (afterDeal shuffled cm).clusterIds = cm.clusterIds := by
    rw [afterDeal, hdeal]
    rfl
  have hnext' : (afterDeal shuffled cm).nextClusterId = cm.nextClusterId := by
    rw [afterDeal, hdeal]
    rfl
  refine ⟨by rw [hnext']; exact hcm.next, ?_, ?_⟩
  · intro c hc
    rw [hids'] at hc
    rw [hnext']
    exact hcm.ids c hc
  · intro c hc
    rw [hids'] at hc
    rw [assigned_afterDeal hcm, dealtTo_eq_nil hexist hc]

/-- Whatever the assignment was before. -/
theorem partition_reshuffle_iff {cm : ClusterManager} (hcm : Numbered cm)
    (hexist : cm.clusterIds.length > 0) {shuffled allChainIds : List ChainId}
    (hperm : shuffled.Perm allChainIds) :
    Partition (afterDeal shuffled cm) ↔ FullList cm allChainIds := by
  have hlists := assigned_afterDeal hcm shuffled
  have hkeep : ∀ x, x ∉ shuffled →
      (afterDeal shuffled cm).chainToCluster x = cm.chainToCluster x := fun x hx =>
    deal_chainToCluster_of_not_mem cm.clusterIds hx 0 (clearAssignments cm)
  constructor
  · intro h
    have hnodup : shuffled.Nodup := by
      refine nodup_of_dealtTo cm.clusterIds 0 ?_ ?_
      · intro c
        rw [← hlists]
        exact h.once c
      · intro x c c'
        rw [← hlists, ← hlists]
        exact h.apart x c c'
    refine ⟨hperm.nodup_iff.mp hnodup, ?_⟩
    intro x hx
    by_contra hout
    have hnot : x ∉ shuffled := fun hin => hout (hperm.mem_iff.mp hin)
    -- an omitted chain keeps its entry but is in no list
    have hin := (h.reverse x _ (Nat.pos_of_ne_zero hx)).mp (hkeep x hnot)
    rw [hlists] at hin
    exact hnot ((dealtTo_sublist _ _ _ _).subset hin)
  · rintro ⟨hnodup, hfull⟩
    have hnodup' : shuffled.Nodup := hperm.nodup_iff.mpr hnodup
    refine partition_of_reverse (numbered_afterDeal hcm hexist shuffled).zero ?_ ?_
    · intro c
      rw [hlists]
      exact (dealtTo_sublist _ _ _ _).nodup hnodup'
    · intro x c hpos
      rw [hlists]
      by_cases hx : x ∈ shuffled
      · exact deal_chainToCluster cm.clusterIds hnodup' hx c 0 (clearAssignments cm)
      · have hzero : cm.chainToCluster x = 0 := by
          by_contra hne
          exact hx (hperm.mem_iff.mpr (hfull x hne))
        rw [hkeep x hx, hzero]
        exact iff_of_false (by omega) (fun h => hx ((dealtTo_sublist _ _ _ _).subset h))

/-- Elections keep the assignment. -/
theorem reelected_same {ids : List Nat} {cm cm' : ClusterManager} (h : Reelected ids cm cm') :
    SameAssignment cm cm' := by
  refine ⟨?_, ?_, ?_, ?_⟩
  · intro c
    show (cm'.clusters c).assignedChainIds = _
    rw [h.kept c]
  · rw [h.shape]
  · rw [h.shape]
  · rw [h.shape]

/-! ## §5. One call. -/

/-- What the two calls ask of their array. -/
def RightArray (cm : ClusterManager) : Call → Prop
  | .createCluster chainIds _ => FreshChains cm chainIds
  | .reshuffleClusters allChainIds => FullList cm allChainIds
  | _ => True

/-- The calls that do not assign. -/
theorem other_same {S : Setting} {ctx : Ctx} {reg reg' : ReputationRegistry}
    {cm cm' : ClusterManager} {call : Call} (h : Effect S ctx reg cm call reg' cm')
    (hcreate : ∀ chainIds members, call ≠ .createCluster chainIds members)
    (hshuffle : ∀ allChainIds, call ≠ .reshuffleClusters allChainIds) : SameAssignment cm cm' := by
  cases h with
  | createCluster _ _ _ _ => exact absurd rfl (hcreate _ _)
  | reshuffle _ _ _ _ => exact absurd rfl (hshuffle _)
  | addMember _ _ => exact ⟨assigned_update rfl, rfl, rfl, rfl⟩
  | elect _ _ => exact setHead_same _ _ cm
  | submit _ => exact ⟨assigned_update rfl, rfl, rfl, rfl⟩
  | verify _ _ _ => exact ⟨fun _ => rfl, rfl, rfl, rfl⟩
  | crossReference _ => exact ⟨fun _ => rfl, rfl, rfl, rfl⟩
  | file _ => exact ⟨fun _ => rfl, rfl, rfl, rfl⟩
  | @uphold challengeId _ head _ =>
    have h := setHead_same (cm.challenges challengeId).clusterId head
      (markResolved challengeId true cm)
    exact ⟨h.lists, h.map, h.ids, h.next⟩
  | dismiss _ _ => exact ⟨fun _ => rfl, rfl, rfl, rfl⟩
  | advance _ _ => exact ⟨fun _ => rfl, rfl, rfl, rfl⟩

/-- A call keeps the numbering. -/
theorem numbered_call {S : Setting} {ctx : Ctx} {reg reg' : ReputationRegistry}
    {cm cm' : ClusterManager} {call : Call} (hcm : Numbered cm)
    (h : Effect S ctx reg cm call reg' cm') : Numbered cm' := by
  cases call with
  | createCluster chainIds members =>
    cases h with
    | createCluster _ _ _ _ => exact (setHead_same _ _ _).numbered (numbered_create hcm _ _)
  | reshuffleClusters allChainIds =>
    cases h with
    | reshuffle _ perm exist elections =>
      exact (reelected_same elections).numbered (numbered_afterDeal hcm exist _)
  | addMember _ _ => exact (other_same h (by simp) (by simp)).numbered hcm
  | electClusterHead _ => exact (other_same h (by simp) (by simp)).numbered hcm
  | submitClusterCommit _ _ => exact (other_same h (by simp) (by simp)).numbered hcm
  | verifyClusterCommit _ => exact (other_same h (by simp) (by simp)).numbered hcm
  | crossReferenceAndUpdate _ _ _ => exact (other_same h (by simp) (by simp)).numbered hcm
  | fileDAChallenge _ _ _ => exact (other_same h (by simp) (by simp)).numbered hcm
  | resolveDAChallenge _ _ => exact (other_same h (by simp) (by simp)).numbered hcm
  | advanceRound => exact (other_same h (by simp) (by simp)).numbered hcm

/-- **A call keeps the partition exactly when its array is right.** -/
theorem partition_call_iff {S : Setting} {ctx : Ctx} {reg reg' : ReputationRegistry}
    {cm cm' : ClusterManager} {call : Call} (hcm : Numbered cm) (hpart : Partition cm)
    (h : Effect S ctx reg cm call reg' cm') : Partition cm' ↔ RightArray cm call := by
  have hother : SameAssignment cm cm' → (Partition cm' ↔ True) := fun hsame =>
    hsame.partitioned.trans (iff_of_true hpart trivial)
  cases call with
  | createCluster chainIds members =>
    cases h with
    | createCluster _ _ _ _ =>
      exact (setHead_same _ _ _).partitioned.trans
        (partition_create_iff hcm hpart chainIds members)
  | reshuffleClusters allChainIds =>
    cases h with
    | reshuffle _ perm exist elections =>
      exact (reelected_same elections).partitioned.trans
        (partition_reshuffle_iff hcm exist perm)
  | addMember _ _ => exact hother (other_same h (by simp) (by simp))
  | electClusterHead _ => exact hother (other_same h (by simp) (by simp))
  | submitClusterCommit _ _ => exact hother (other_same h (by simp) (by simp))
  | verifyClusterCommit _ => exact hother (other_same h (by simp) (by simp))
  | crossReferenceAndUpdate _ _ _ => exact hother (other_same h (by simp) (by simp))
  | fileDAChallenge _ _ _ => exact hother (other_same h (by simp) (by simp))
  | resolveDAChallenge _ _ => exact hother (other_same h (by simp) (by simp))
  | advanceRound => exact hother (other_same h (by simp) (by simp))

/-! ## §6. Whole runs. -/

variable (pairing : PairingCheck) (S : Setting)

/-- A call that succeeds was given a right array. -/
def AssignsRightly (s : System) (tx : System.Tx) : Prop :=
  ∀ ctx call, tx = .manager ctx call → (System.exec pairing S tx s).isOk = true →
    RightArray s.manager call

theorem numbered_deploy (deployer : Address) : Numbered (deploy deployer) :=
  ⟨Nat.one_pos, fun _ h => absurd h List.not_mem_nil, fun _ _ => rfl⟩

theorem partition_deploy (deployer : Address) : Partition (deploy deployer) := by
  refine partition_of_reverse rfl (fun _ => List.nodup_nil) ?_
  intro x c hpos
  exact iff_of_false (fun h : 0 = c => by omega) List.not_mem_nil

variable {pairing S}

/-- **One transaction** keeps the numbering. -/
theorem numbered_step (s : System) (tx : System.Tx) (s' : System) (hs : Numbered s.manager)
    (h : System.exec pairing S tx s = .ok s') : Numbered s'.manager :=
  System.manager_step (P := Numbered) (fun _ _ _ _ _ _ hcm heff => numbered_call hcm heff)
    (fun _ _ hcm => ⟨hcm.next, hcm.ids, hcm.unused⟩) hs h

/-- **A transaction keeps the partition exactly when its array is right.** -/
theorem partition_step_iff (s : System) (tx : System.Tx) (s' : System) (hs : Numbered s.manager)
    (hpart : Partition s.manager) (h : System.exec pairing S tx s = .ok s') :
    Partition s'.manager ↔ AssignsRightly pairing S s tx := by
  cases System.exec_effect h with
  | @manager ctx call reg' cm' effect =>
    refine (partition_call_iff hs hpart effect).trans ⟨?_, ?_⟩
    · intro hright ctx' call' htx _
      cases htx
      exact hright
    · intro hassigns
      exact hassigns ctx call rfl (by rw [h]; rfl)
  | clusterAudit _ call =>
    obtain ⟨-, -, -, rfl⟩ := verifyClusterCommit_eq_ok.mp call
    exact iff_of_true ⟨hpart.once, hpart.apart, hpart.reverse⟩ (fun _ _ htx => nomatch htx)
  | legacyAudit _ call =>
    obtain ⟨-, -, -, rfl⟩ := verifyClusterCommit_eq_ok.mp call
    exact iff_of_true ⟨hpart.once, hpart.apart, hpart.reverse⟩ (fun _ _ htx => nomatch htx)
  | registry _ => exact iff_of_true hpart (fun _ _ htx => nomatch htx)
  | registerChain _ _ => exact iff_of_true hpart (fun _ _ htx => nomatch htx)
  | submitCommit _ => exact iff_of_true hpart (fun _ _ htx => nomatch htx)
  | weightedAudit _ => exact iff_of_true hpart (fun _ _ htx => nomatch htx)
  | singleAudit _ => exact iff_of_true hpart (fun _ _ htx => nomatch htx)
  | admin _ => exact iff_of_true hpart (fun _ _ htx => nomatch htx)

theorem assignsRightly_of_error {s : System} {tx : System.Tx} {e : Revert}
    (h : System.exec pairing S tx s = .error e) : AssignsRightly pairing S s tx := by
  intro ctx call _ hok
  rw [h] at hok
  exact absurd hok Bool.false_ne_true

/-- **The assignment is a partition after each transaction exactly when every successful
`createCluster` names distinct unassigned chains and every successful `reshuffleClusters`
distinct chains among which are all assigned ones.** -/
theorem partition_iff (pairing : PairingCheck) (S : Setting) (deployers : Deployers)
    (txs : List System.Tx) :
    (∀ k, Partition (run (System.exec pairing S) (System.deploy deployers)
        (txs.take k)).manager)
      ↔ StepsMeet (System.exec pairing S) (AssignsRightly pairing S)
          (System.deploy deployers) txs :=
  run_invariant_iff (Q := fun s : System => Partition s.manager)
    (P := fun s : System => Numbered s.manager) numbered_step partition_step_iff
    (fun _ _ _ h => assignsRightly_of_error h) txs (numbered_deploy deployers.manager)
    (partition_deploy deployers.manager)

/-! ## §7. One chain in two clusters. -/

/-- Account 1 deploys everything and is the sole committer; the contracts are at 2 and 3. -/
def setting : Setting := .asDeployed 2 3

/-- The owner. -/
def owner : Ctx := ⟨⟨1, 1, 100, true⟩, 0⟩

/-- The owner sets up a cluster, with itself as member. -/
def clusterOf (chains : List ChainId) : System.Tx := .manager owner (.createCluster chains [1])

/-- The manager after `clusterOf chains`. -/
def withCluster (chains : List ChainId) (cm : ClusterManager) : ClusterManager :=
  setHead cm.nextClusterId 1 (addCluster chains [1] cm)

theorem exec_clusterOf (pairing : PairingCheck) {S : Setting} {s : System} {chains : List ChainId}
    (hext : System.External S 1) (hchains : chains.length > 0)
    (hreg : ReputationRegistry.RegistryInv s.registry) (howner : s.manager.owner = 1)
    (hfresh : (s.manager.clusters s.manager.nextClusterId).members = [])
    (hnext : s.manager.nextClusterId + 1 < 2 ^ 256) :
    System.exec pairing S (clusterOf chains) s
      = .ok { s with manager := withCluster chains s.manager } := by
  obtain ⟨w, hle, hw⟩ := ReputationRegistry.getElectionWeight_ok hreg 1
  have hrange : w < 2 ^ 256 := lt_of_le_of_lt hle (by simp [ReputationRegistry.W_MAX])
  have hcreate : createCluster owner chains [1] s.registry s.manager
      = .ok (withCluster chains s.manager) :=
    createCluster_single howner.symm hchains hfresh hnext hw hrange (by decide)
  exact System.exec_manager_ok hext (map_eq_ok.mpr ⟨_, hcreate, rfl⟩)

theorem not_partition : ¬ ∀ (pairing : PairingCheck) (S : Setting)
    (deployers : Deployers) (txs : List System.Tx),
    Partition (run (System.exec pairing S) (System.deploy deployers) txs).manager := by
  intro hall
  let pairing : PairingCheck := fun _ _ _ => .ok true
  have hreg := ReputationRegistry.registryInv_deploy 1
  have hfirst : System.exec pairing setting (clusterOf [5]) (System.deploy (.all 1)) = .ok _ :=
    exec_clusterOf pairing (by decide) (by decide) hreg rfl rfl (by decide)
  have hsecond : System.exec pairing setting (clusterOf [5])
      ⟨(System.deploy (.all 1)).registry, withCluster [5] (deploy 1), (System.deploy (.all 1)).audit⟩ = .ok _ :=
    exec_clusterOf pairing (by decide) (by decide) hreg rfl rfl (by decide)
  have hpart := hall pairing setting (.all 1) [clusterOf [5], clusterOf [5]]
  rw [run_cons, commit_of_ok hfirst, run_cons] at hpart
  rw [show (System.deploy (.all 1)).manager = deploy 1 from rfl, commit_of_ok hsecond, run_nil] at hpart
  have hone : (5 : ChainId) ∈ assigned (withCluster [5] (withCluster [5] (deploy 1))) 1 := by decide
  have htwo : (5 : ChainId) ∈ assigned (withCluster [5] (withCluster [5] (deploy 1))) 2 := by decide
  exact absurd (hpart.apart 5 1 2 hone htwo) (by decide)

end HZKA.Clusters
