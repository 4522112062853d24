/-
  HZKA.Psi.WeightedAudit
  ────────────
  **THE SAME GROUP AGAIN, AND FOR ANOTHER CHAIN.**

  A group stays in storage after its audit, and its id is the only trace of the chain it
  was submitted for.  `weightedAuditAccept` checks neither:

    • an auditor may accept a group any number of times, each time with a reputation
      event for every entry.  `one_update_iff` — each entry gets at most one event
      EXACTLY when no group is accepted twice; `two_updates` accepts one twice;
    • the chain is an argument of the call.  `counted_for_chain_iff` — the entries counted
      were submitted for it EXACTLY when it is the chain hashed into the group id;
      `counted_for_other_chain` audits chain 6 with the group of chain 5.
-/
import HZKA.Psi.Quorum

namespace HZKA.Psi

open Function
open HZKA.Lib HZKA.EVM HZKA.Groth16Verifier HZKA.AuditContractV2
open HZKA.ReputationRegistry (genesis bob genesisMsg bobMsg)
open HZKA.Clusters (setting)

variable {pairing : PairingCheck} {S : Setting}

/-! ## §1. Events per entry. -/

/-- Each group entry got at most one `updateState` call. -/
def OneUpdate (s : System) : Prop := ∀ entry, s.audit.updates.count entry ≤ 1

/-- Entries are updated together with the first of their group. -/
def Together (s : System) : Prop := ∀ g i, (g, i) ∈ s.audit.updates → (g, 0) ∈ s.audit.updates

/-- A group that is accepted was not accepted before. -/
def FirstAudit (pairing : PairingCheck) (S : Setting) (s : System) (tx : System.Tx) : Prop :=
  ∀ msg groupId chainId proof, tx = .audit msg (.weightedAuditAccept groupId chainId proof) →
    (System.exec pairing S tx s).isOk = true → (groupId, 0) ∉ s.audit.updates

/-- The entries of a group. -/
def entriesOf (groupId : Bytes32) (s : System) : List (Bytes32 × Nat) :=
  (List.range (s.audit.commitGroups groupId).length).map (fun i => (groupId, i))

theorem mem_entriesOf {groupId g : Bytes32} {i : Nat} {s : System} :
    (g, i) ∈ entriesOf groupId s ↔ g = groupId ∧ i < (s.audit.commitGroups groupId).length := by
  unfold entriesOf
  simp only [List.mem_map, List.mem_range, Prod.mk.injEq]
  constructor
  · rintro ⟨j, hj, rfl, rfl⟩
    exact ⟨rfl, hj⟩
  · rintro ⟨rfl, hi⟩
    exact ⟨i, hi, rfl, rfl⟩

/-- No entry twice. -/
theorem nodup_entriesOf (groupId : Bytes32) (s : System) : (entriesOf groupId s).Nodup := by
  refine List.Nodup.map ?_ List.nodup_range
  intro i j h
  exact (Prod.mk.inj h).2

/-- Only a weighted audit makes events, one for each entry of its group. -/
theorem updates_step {tx : System.Tx} {s s' : System} (h : System.exec pairing S tx s = .ok s') :
    (∃ msg groupId chainId proof,
        tx = .audit msg (.weightedAuditAccept groupId chainId proof)
        ∧ (groupId, 0) ∈ entriesOf groupId s
        ∧ s'.audit.updates = entriesOf groupId s ++ s.audit.updates)
      ∨ (∀ msg groupId chainId proof,
          tx ≠ .audit msg (.weightedAuditAccept groupId chainId proof))
        ∧ s'.audit.updates = s.audit.updates := by
  by_cases htx : ∃ msg groupId chainId proof,
      tx = .audit msg (.weightedAuditAccept groupId chainId proof)
  · left
    obtain ⟨msg, groupId, chainId, proof, rfl⟩ := htx
    obtain ⟨-, h⟩ := System.exec_eq_ok.mp h
    obtain ⟨root, reg', hguards, rfl⟩ := weightedAuditAccept_eq_ok.mp h
    obtain ⟨e, he, -⟩ := exists_vote hguards.selected
    exact ⟨msg, groupId, chainId, proof, rfl,
      mem_entriesOf.mpr ⟨rfl, List.length_pos_of_mem he⟩, rfl⟩
  · right
    refine ⟨fun msg groupId chainId proof heq => htx ⟨msg, groupId, chainId, proof, heq⟩, ?_⟩
    cases System.exec_effect h with
    | weightedAudit _ => exact absurd ⟨_, _, _, _, rfl⟩ htx
    | legacyAudit guards _ =>
      have hshape := setRoots_shape guards.loop
      rw [hshape]
    | admin frame => exact frame.updates
    | registry _ => rfl
    | manager _ => rfl
    | registerChain _ _ => rfl
    | submitCommit _ => rfl
    | singleAudit _ => rfl
    | clusterAudit _ _ => rfl

/-- **One transaction** keeps groups together. -/
theorem together_step (s : System) (tx : System.Tx) (s' : System) (hs : Together s)
    (h : System.exec pairing S tx s = .ok s') : Together s' := by
  intro g i hi
  rcases updates_step h with ⟨_, groupId, _, _, -, hfirst, hupdates⟩ | ⟨-, hupdates⟩
  · rw [hupdates, List.mem_append] at hi ⊢
    rcases hi with hi | hi
    · left
      rw [(mem_entriesOf.mp hi).1]
      exact hfirst
    · exact Or.inr (hs g i hi)
  · rw [hupdates] at hi ⊢
    exact hs g i hi

/-- **One transaction** keeps the count exactly when it accepts no group again. -/
theorem oneUpdate_step (s : System) (tx : System.Tx) (s' : System) (htogether : Together s)
    (hs : OneUpdate s) (h : System.exec pairing S tx s = .ok s') :
    OneUpdate s' ↔ FirstAudit pairing S s tx := by
  have hnodup : s.audit.updates.Nodup := List.nodup_iff_count_le_one.mpr hs
  have hiff : OneUpdate s' ↔ s'.audit.updates.Nodup := List.nodup_iff_count_le_one.symm
  rw [hiff]
  rcases updates_step h with ⟨msg, groupId, chainId, proof, rfl, hfirst, hupdates⟩ | ⟨hother, hupdates⟩
  · rw [hupdates, List.nodup_append]
    constructor
    · rintro ⟨-, -, hdisjoint⟩ msg' groupId' chainId' proof' heq _ hmem
      obtain ⟨rfl, hcall⟩ := System.Tx.audit.inj heq
      obtain ⟨rfl, -, -⟩ := Call.weightedAuditAccept.inj hcall
      exact hdisjoint (groupId, 0) hfirst (groupId, 0) hmem rfl
    · intro hfresh
      have hzero := hfresh msg groupId chainId proof rfl (by rw [h]; rfl)
      refine ⟨nodup_entriesOf groupId s, hnodup, ?_⟩
      rintro ⟨g, i⟩ hi ⟨g', i'⟩ hi' heq
      rw [← heq, (mem_entriesOf.mp hi).1] at hi'
      exact hzero (htogether groupId i hi')
  · rw [hupdates]
    exact ⟨fun _ msg groupId chainId proof heq => absurd heq (hother msg groupId chainId proof),
      fun _ => hnodup⟩

/-- **At most one event per entry**, along a whole run, exactly when every audit of the run
is the first of its group. -/
theorem one_update_iff (pairing : PairingCheck) (S : Setting) (deployers : Deployers)
    (txs : List System.Tx) :
    (∀ k, OneUpdate (run (System.exec pairing S) (System.deploy deployers)
        (txs.take k)))
      ↔ StepsMeet (System.exec pairing S) (FirstAudit pairing S)
        (System.deploy deployers) txs := by
  refine run_invariant_iff together_step oneUpdate_step ?_ txs ?_ ?_
  · intro s tx e herror msg groupId chainId proof _ hok
    rw [herror] at hok
    exact Bool.noConfusion hok
  · intro g i hi
    exact absurd hi List.not_mem_nil
  · intro entry
    exact Nat.zero_le 1

/-! ## §2. The group of bob and genesis, twice. -/

/-- A group that was accepted can be accepted again. -/
theorem auditable_again {groupId : Bytes32} {chainId : ChainId} {root : Bytes32} {s : System}
    {reg' : ReputationRegistry} (h : Auditable groupId chainId root s) (hserves : Serves setting reg')
    (hregistered : ∀ a, (reg'.states a).isRegistered = (s.registry.states a).isRegistered)
    (hroom : reg'.totalSlashedPool + (s.audit.commitGroups groupId).length * 2 ^ 128 ≤ 2 ^ 256) :
    Auditable groupId chainId root (afterAccept genesisMsg groupId chainId root reg' s) := by
  have hactive : ((afterAccept genesisMsg groupId chainId root reg' s).audit.chains chainId).isActive
      = true := by
    have hself := chains_setRoot_self genesisMsg.number chainId root (noteUpdates groupId s.audit)
    show ((setRoot genesisMsg.number chainId root (noteUpdates groupId s.audit)).chains
      chainId).isActive = true
    rw [hself]
    exact h.active
  refine ⟨hserves, ?_, hroom, h.auditor, hactive, h.key, h.real, h.selected, ?_, h.newRange⟩
  · intro e he
    rw [show (afterAccept genesisMsg groupId chainId root reg' s).registry = reg' from rfl,
      hregistered]
    exact h.registered e he
  · rw [root_afterAccept]
    exact h.newRange

/-- Two acceptances in a row of a group with an entry make two events for it. -/
theorem not_oneUpdate_twice {groupId : Bytes32} {chainId : ChainId} {root root' : Bytes32}
    {reg' reg'' : ReputationRegistry} {s : System} (hentry : (groupId, 0) ∈ entriesOf groupId s) :
    ¬ OneUpdate (afterAccept genesisMsg groupId chainId root' reg''
      (afterAccept genesisMsg groupId chainId root reg' s)) := by
  intro hone
  have hdisjoint := (List.nodup_append.mp (List.nodup_iff_count_le_one.mpr hone)).2.2
  exact hdisjoint (groupId, 0) hentry (groupId, 0) (List.mem_append.mpr (Or.inl hentry)) rfl

theorem two_updates : ¬ ∀ (pairing : PairingCheck) (S : Setting)
    (deployers : Deployers) (txs : List System.Tx),
    OneUpdate (run (System.exec pairing S) (System.deploy deployers) txs) := by
  intro hall
  have hgrown := run_submissions acceptAll bothAgree (by decide) (by decide)
  have haudit := auditable_submissions hgrown (by decide) (by decide) bothAgree_selected (by decide)
  obtain ⟨reg', hfirst, hserves, hregistered, hpool⟩ := exec_accept haudit
  have hgroup := group_submissions hgrown
  have hlength : (bothAgree.map openEntry).length = 2 := rfl
  have hroom := haudit.room
  rw [hgroup, hlength] at hpool hroom
  have hregistry : (run (System.exec acceptAll setting) (System.deploy (.all genesis))
      (submissions bothAgree)).registry.totalSlashedPool = 0 := by
    rw [hgrown.shape]
    rfl
  have hagain := auditable_again haudit hserves hregistered
    (by rw [hgroup, hlength]; omega)
  obtain ⟨reg'', hsecond, -⟩ := exec_accept hagain
  have htwice := hall acceptAll setting (.all genesis)
    (submissions bothAgree ++ [accept (groupKey range) 5, accept (groupKey range) 5])
  rw [run_append, run_cons, commit_of_ok hfirst, run_cons, commit_of_ok hsecond, run_nil] at htwice
  -- both audits made an event for the first entry
  have hentry : (groupKey range, 0) ∈ entriesOf (groupKey range) (run (System.exec acceptAll setting)
      (System.deploy (.all genesis)) (submissions bothAgree)) := by
    rw [mem_entriesOf, hgroup]
    exact ⟨rfl, by decide⟩
  exact not_oneUpdate_twice hentry htwice

/-! ## §3. The chain of a group. -/

/-- Every entry counted for `root` was submitted for the chain `chainId`. -/
def CountedFor (chainId : ChainId) (groupId root : Bytes32) (s : System) : Prop :=
  ∀ (i : Nat) (e : WeightedSubmission), (s.audit.commitGroups groupId)[i]? = some e →
    e.submittedRoot = root →
    ∃ range : BlockRange, (s.audit.ranges groupId)[i]? = some range ∧ range.chainId = chainId

/-- Each entry has its range, which hashes to the group id. -/
def Keyed (s : System) : Prop :=
  ∀ g, (s.audit.ranges g).length = (s.audit.commitGroups g).length
    ∧ ∀ range ∈ s.audit.ranges g, groupKey range = g

/-- **One transaction** keeps the keys. -/
theorem keyed_step (s : System) (tx : System.Tx) (s' : System) (hs : Keyed s)
    (h : System.exec pairing S tx s = .ok s') : Keyed s' := by
  intro g
  rcases groups_step h with ⟨msg, range, _, _, _, -, hgroups, hranges⟩ | ⟨hgroups, hranges⟩
  · rw [hgroups, hranges]
    by_cases hg : g = groupKey range
    · rw [hg, update_self, update_self]
      refine ⟨?_, ?_⟩
      · rw [List.length_append, List.length_append, (hs (groupKey range)).1]
        rfl
      · intro other hother
        rcases List.mem_append.mp hother with hold | hnew
        · exact (hs (groupKey range)).2 other hold
        · rw [List.mem_singleton.mp hnew]
    · rw [update_of_ne hg, update_of_ne hg]
      exact hs g
  · rw [hgroups, hranges]
    exact hs g

/-- **Every run** keeps the keys. -/
theorem keyed_run (pairing : PairingCheck) (S : Setting) (deployers : Deployers)
    (txs : List System.Tx) :
    Keyed (run (System.exec pairing S) (System.deploy deployers) txs) := by
  refine run_invariant keyed_step txs ?_
  intro g
  exact ⟨rfl, fun range hrange => absurd hrange List.not_mem_nil⟩

/-- The range's bytes fix the chain. -/
theorem rangeBytes_chainId {a b : BlockRange} (h : rangeBytes a = rangeBytes b) :
    a.chainId = b.chainId := by
  have hsplit : ∀ r : BlockRange, rangeBytes r
      = Bytes32.toBytes r.chainId ++ abiEncode [.bytes32 r.blockStart, .bytes32 r.blockEnd] :=
    fun r => rfl
  rw [hsplit a, hsplit b] at h
  have hlen : (Bytes32.toBytes a.chainId).length = (Bytes32.toBytes b.chainId).length := by
    rw [Bytes32.toBytes_length, Bytes32.toBytes_length]
  exact Bytes32.toBytes_inj (List.append_inj h hlen).1

/-- keccak256 does not collide on these ranges. -/
def CollisionFree (ranges : List BlockRange) : Prop :=
  ∀ a ∈ ranges, ∀ b ∈ ranges, keccak256 (rangeBytes a) = keccak256 (rangeBytes b) →
    rangeBytes a = rangeBytes b

/-- The group id is the hash of a block range of the chain. -/
def GroupOf (chainId : ChainId) (groupId : Bytes32) (s : System) : Prop :=
  ∃ range, range.chainId = chainId ∧ groupKey range = groupId
    ∧ CollisionFree (range :: s.audit.ranges groupId)

/-! ## §4. A second chain. -/

/-- A second chain. -/
def registerSix : System.Tx := .audit genesisMsg (.registerChain 6 8)

/-- A newly registered chain can be audited with an old group. -/
theorem auditable_registered {groupId : Bytes32} {chainId c : ChainId} {root r : Bytes32}
    {s : System} (h : Auditable groupId chainId root s) (hr : r.toNat < 1000) :
    Auditable groupId c root { s with audit := afterRegister genesisMsg c r s.audit } := by
  have hself := chains_afterRegister_self genesisMsg c r s.audit
  have hmodulus : 1000 < SCALAR_MODULUS := by norm_num [SCALAR_MODULUS]
  refine ⟨h.serves, h.registered, h.room, h.auditor, ?_, h.key, h.real, h.selected, ?_, h.newRange⟩
  · show ((afterRegister genesisMsg c r s.audit).chains c).isActive = true
    rw [hself]
  · show ((afterRegister genesisMsg c r s.audit).chains c).latestStateRoot.toNat < SCALAR_MODULUS
    rw [hself]
    show r.toNat < SCALAR_MODULUS
    omega

theorem ranges_submissions {subs : List (Msg × Bytes32)} {s : System}
    (h : Grown range (subs.map openEntry) (openChain 5 7) s) :
    s.audit.ranges (groupKey range) = List.replicate subs.length range := by
  rw [h.ranges, List.length_map]
  rfl

theorem collisionFree_replicate (n : Nat) (range : BlockRange) :
    CollisionFree (List.replicate n range) := by
  intro a ha b hb _
  rw [List.eq_of_mem_replicate ha, List.eq_of_mem_replicate hb]

theorem afterRegister_groups (msg : Msg) (chainId : ChainId) (initialRoot : Bytes32)
    (a : AuditContractV2) :
    (afterRegister msg chainId initialRoot a).commitGroups = a.commitGroups
      ∧ (afterRegister msg chainId initialRoot a).ranges = a.ranges :=
  ⟨rfl, rfl⟩

/-- Both accounts have submitted for chain 5, then chain 6 is registered. -/
theorem run_registerSix : ∃ s : System,
    run (System.exec acceptAll setting) (System.deploy (.all genesis))
      (submissions bothAgree ++ [registerSix]) = s
    ∧ Auditable (groupKey range) 6 11 s
    ∧ s.audit.commitGroups (groupKey range) = bothAgree.map openEntry
    ∧ s.audit.ranges (groupKey range) = List.replicate bothAgree.length range := by
  have hgrown := run_submissions acceptAll bothAgree (by decide) (by decide)
  rw [run_append]
  generalize run (System.exec acceptAll setting) (System.deploy (.all genesis))
    (submissions bothAgree) = s at *
  have howner : genesisMsg.sender = s.audit.owner := by
    rw [hgrown.shape]
    rfl
  have hinactive : (s.audit.chains 6).isActive = false := by
    rw [hgrown.active]
    rfl
  have hregister : System.exec acceptAll setting registerSix s
      = .ok { s with audit := afterRegister genesisMsg 6 8 s.audit } :=
    exec_audit_ok (by decide) rfl (registerChain_eq_ok.mpr ⟨howner, hinactive, rfl⟩)
  have hgroup := group_submissions hgrown
  have hranges := ranges_submissions hgrown
  refine ⟨_, rfl, ?_⟩
  rw [run_cons, commit_of_ok hregister, run_nil]
  have haudit := auditable_submissions hgrown (by decide) (by decide) bothAgree_selected (by decide)
  obtain ⟨hgroups, hsame⟩ := afterRegister_groups genesisMsg 6 8 s.audit
  refine ⟨auditable_registered haudit (by decide), ?_, ?_⟩
  · rw [hgroups, hgroup]
  · rw [hsame, hranges]

/-! ## §5. The law. -/

/-- **The entries counted were submitted for the audited chain** exactly when the group id
is the hash of a range of it. -/
theorem counted_for_chain_iff (pairing : PairingCheck) (S : Setting)
    (deployers : Deployers) (txs : List System.Tx) (msg : Msg) (groupId : Bytes32)
    (chainId : ChainId) (proof : Proof) (s' : System)
    (h : System.exec pairing S (.audit msg (.weightedAuditAccept groupId chainId proof))
      (run (System.exec pairing S) (System.deploy deployers) txs) = .ok s')
    (hfree : CollisionFree ((run (System.exec pairing S)
      (System.deploy deployers) txs).audit.ranges groupId)) :
    CountedFor chainId groupId (s'.audit.chains chainId).latestStateRoot
        (run (System.exec pairing S) (System.deploy deployers) txs)
      ↔ GroupOf chainId groupId
        (run (System.exec pairing S) (System.deploy deployers) txs) := by
  have hkeyed := keyed_run pairing S deployers txs groupId
  generalize run (System.exec pairing S) (System.deploy deployers) txs = s at *
  obtain ⟨-, h⟩ := System.exec_eq_ok.mp h
  obtain ⟨root, reg', hguards, rfl⟩ := weightedAuditAccept_eq_ok.mp h
  rw [root_afterAccept]
  constructor
  · -- the range of an entry that was counted
    intro hcounted
    obtain ⟨e, he, hroot⟩ := exists_vote hguards.selected
    obtain ⟨i, hi⟩ := List.mem_iff_getElem?.mp he
    obtain ⟨range, hrange, hchain⟩ := hcounted i e hi hroot
    have hmem := List.mem_of_getElem? hrange
    refine ⟨range, hchain, hkeyed.2 range hmem, ?_⟩
    intro a ha b hb
    refine hfree a ?_ b ?_
    · rcases List.mem_cons.mp ha with rfl | ha
      · exact hmem
      · exact ha
    · rcases List.mem_cons.mp hb with rfl | hb
      · exact hmem
      · exact hb
  · rintro ⟨range, hchain, hkey, hfree⟩ i e hi -
    obtain ⟨hlt, -⟩ := List.getElem?_eq_some_iff.mp hi
    rw [← hkeyed.1] at hlt
    refine ⟨_, List.getElem?_eq_getElem hlt, ?_⟩
    have hother := List.getElem_mem hlt
    -- every recorded range hashes like the one named, so it is of the same chain
    have hsame := rangeBytes_chainId (hfree _ (List.mem_cons_of_mem _ hother) range
      List.mem_cons_self ((hkeyed.2 _ hother).trans hkey.symm))
    rw [hsame, hchain]

/-- Chain 5 audited with its own group. -/
theorem counted_for_five : ∃ s', System.exec acceptAll setting (accept (groupKey range) 5)
      (run (System.exec acceptAll setting) (System.deploy (.all genesis)) (submissions bothAgree))
      = .ok s'
    ∧ (CountedFor 5 (groupKey range) (s'.audit.chains 5).latestStateRoot
          (run (System.exec acceptAll setting) (System.deploy (.all genesis))
            (submissions bothAgree))
        ↔ GroupOf 5 (groupKey range) (run (System.exec acceptAll setting)
            (System.deploy (.all genesis)) (submissions bothAgree))) := by
  have hgrown := run_submissions acceptAll bothAgree (by decide) (by decide)
  obtain ⟨reg', haccept, -⟩ := exec_accept
    (auditable_submissions hgrown (by decide) (by decide) bothAgree_selected (by decide))
  refine ⟨_, haccept, counted_for_chain_iff acceptAll setting (.all genesis)
    (submissions bothAgree) genesisMsg (groupKey range) 5 emptyProof _ haccept ?_⟩
  rw [ranges_submissions hgrown]
  exact collisionFree_replicate _ range

theorem counted_for_other_chain : ¬ ∀ (pairing : PairingCheck) (S : Setting)
    (deployers : Deployers) (txs : List System.Tx) (msg : Msg) (groupId : Bytes32)
    (chainId : ChainId) (proof : Proof) (s' : System),
    System.exec pairing S (.audit msg (.weightedAuditAccept groupId chainId proof))
      (run (System.exec pairing S) (System.deploy deployers) txs) = .ok s' →
    CollisionFree ((run (System.exec pairing S)
      (System.deploy deployers) txs).audit.ranges groupId) →
    CountedFor chainId groupId (s'.audit.chains chainId).latestStateRoot
      (run (System.exec pairing S) (System.deploy deployers) txs) := by
  intro hall
  obtain ⟨s, hrun, haudit, hgroup, hranges⟩ := run_registerSix
  obtain ⟨reg', haccept, -⟩ := exec_accept haudit
  have hcounted := hall acceptAll setting (.all genesis) (submissions bothAgree ++ [registerSix])
    genesisMsg (groupKey range) 6 emptyProof
  rw [hrun] at hcounted
  have hcounted := hcounted _ haccept (by rw [hranges]; exact collisionFree_replicate _ range)
  -- the first entry is bob's, for chain 5
  rw [root_afterAccept] at hcounted
  obtain ⟨other, hother, hchain⟩ := hcounted 0 (openEntry (bobMsg, 11)) (by rw [hgroup]; rfl) rfl
  rw [hranges] at hother
  obtain rfl := Option.some.inj hother
  exact absurd hchain (by decide)

end HZKA.Psi
