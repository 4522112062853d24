/-
  HZKA.Psi.RootHistory
  ────────────
  **HOW A STATE ROOT COMES TO BE.**

  Four functions write `latestStateRoot`.  Registration sets the first root; the two
  audits set the next one after `Groth16Verifier.verify` has accepted the pair; the
  legacy cluster path asks for no proof, but it needs `verifyClusterCommit`, which as
  deployed admits nobody but the manager's owner.

    • `root_step` — the step lemma: what one transaction does to the record of a chain;
    • `proof_linked_history` — the run lemma: every root of an active chain is linked to
      the registered one by accepted proofs;
    • `roots_in_field_iff` — all roots are field elements EXACTLY when the registered ones
      are: the verifier's range check guards every later write;
    • `root_out_of_field` — registration has no such check.
-/
import HZKA.Psi.WeightedAudit
import Mathlib.Logic.Relation

namespace HZKA.Psi

open HZKA.Lib HZKA.EVM HZKA.Groth16Verifier HZKA.AuditContractV2
open HZKA.ReputationRegistry (genesis bob genesisMsg bobMsg)
open HZKA.Clusters (setting)

variable {pairing : PairingCheck} {S : Setting}

/-! ## §1. One transaction. -/

/-- The root of a chain. -/
def rootOf (c : ChainId) (s : System) : Bytes32 := (s.audit.chains c).latestStateRoot

/-- The chain is registered. -/
def isActive (c : ChainId) (s : System) : Prop := (s.audit.chains c).isActive = true

/-- The calls that come with a proof. -/
inductive CarriesProof : System.Tx → Proof → Prop
  | weighted {msg : Msg} {groupId : Bytes32} {chainId : ChainId} {proof : Proof} :
      CarriesProof (.audit msg (.weightedAuditAccept groupId chainId proof)) proof
  | single {msg : Msg} {commitId : Bytes32} {proof : Proof} {accepts : Bool} :
      CarriesProof (.audit msg (.verifyCommit commitId proof accepts)) proof

/-- The transaction brings a proof for the public inputs `[a, b]` that `verify` accepts
under the key in storage. -/
def Verifies (pairing : PairingCheck) (s : System) (tx : System.Tx) (a b : Bytes32) : Prop :=
  ∃ proof, CarriesProof tx proof
    ∧ verify pairing s.audit.vk_psi proof [a.toNat, b.toNat] = .ok true

/-- What a transaction does to the record of a chain. -/
inductive RootStep (pairing : PairingCheck) (s : System) (tx : System.Tx) (c : ChainId)
    (s' : System) : Prop
  | keep (active : isActive c s' ↔ isActive c s) (root : rootOf c s' = rootOf c s)
  | audit (before : isActive c s) (after : isActive c s')
      (verified : Verifies pairing s tx (rootOf c s) (rootOf c s'))
  | register {msg : Msg} {root : Bytes32} (call : tx = .audit msg (.registerChain c root))
      (before : ¬ isActive c s) (after : isActive c s') (written : rootOf c s' = root)

/-- Other calls move no root. -/
theorem rootStep_of_chains {s s' : System} {tx : System.Tx} {c : ChainId}
    (h : s'.audit.chains c = s.audit.chains c) : RootStep pairing s tx c s' := by
  refine .keep ?_ ?_
  · rw [isActive, isActive, h]
  · rw [rootOf, rootOf, h]

/-- With the real verifier, a proof accepted is a proof verified. -/
theorem verify_of_proofAccepted {proof : Proof} {a b : Bytes32} {audit : AuditContractV2}
    (hreal : audit.useMockVerifier = false)
    (h : proofAccepted pairing proof a b audit = .ok true) :
    verify pairing audit.vk_psi proof [a.toNat, b.toNat] = .ok true := by
  unfold proofAccepted at h
  rw [hreal, if_neg Bool.false_ne_true] at h
  exact h

/-- The write of an audit. -/
theorem rootStep_setRoot {s s' : System} {tx : System.Tx} {c chainId : ChainId} {root : Bytes32}
    {number : Nat} {a : AuditContractV2} (hchains : a.chains = s.audit.chains)
    (hs' : s'.audit.chains = (setRoot number chainId root a).chains)
    (hactive : isActive chainId s)
    (hverified : Verifies pairing s tx (rootOf chainId s) root) : RootStep pairing s tx c s' := by
  by_cases hc : c = chainId
  · rw [hc]
    have hrecord : s'.audit.chains chainId = { s.audit.chains chainId with
        latestStateRoot := root, lastUpdateBlock := number } := by
      rw [hs', chains_setRoot_self, hchains]
    refine .audit hactive ?_ ?_
    · rw [isActive, hrecord]
      exact hactive
    · rw [show rootOf chainId s' = root by rw [rootOf, hrecord]]
      exact hverified
  · refine rootStep_of_chains ?_
    rw [hs', chains_setRoot_of_ne a hc, hchains]

/-- **One transaction**, with the real verifier and the audit contract not admitted to
`verifyClusterCommit`. -/
theorem root_step {s s' : System} {tx : System.Tx} (hreal : s.audit.useMockVerifier = false)
    (hnot : ¬ ClusterManager.mayVerify S S.auditContract s.manager)
    (h : System.exec pairing S tx s = .ok s') (c : ChainId) : RootStep pairing s tx c s' := by
  cases System.exec_effect h with
  | registry _ => exact rootStep_of_chains rfl
  | manager _ => exact rootStep_of_chains rfl
  | clusterAudit _ _ => exact rootStep_of_chains rfl
  | @registerChain msg chainId initialRoot owner inactive =>
    by_cases hc : c = chainId
    · have hrecord := chains_afterRegister_self msg chainId initialRoot s.audit
      rw [hc]
      refine .register rfl ?_ ?_ ?_
      · rw [isActive, inactive]
        exact Bool.false_ne_true
      · show ((afterRegister msg chainId initialRoot s.audit).chains chainId).isActive = true
        rw [hrecord]
      · show ((afterRegister msg chainId initialRoot s.audit).chains chainId).latestStateRoot = _
        rw [hrecord]
    · exact rootStep_of_chains (Function.update_of_ne hc ..)
  | @submitCommit msg range oldRoot newRoot weight reputation guards =>
    obtain ⟨hroot, hactive⟩ := chains_addCommit msg range oldRoot newRoot weight reputation
      (s.manager.chainToCluster range.chainId) s.audit c
    exact .keep (by rw [isActive, isActive]; exact Eq.congr hactive rfl) hroot
  | @weightedAudit msg groupId chainId proof root reg' guards =>
    refine rootStep_setRoot (a := noteUpdates groupId s.audit) rfl rfl guards.active ?_
    exact ⟨proof, .weighted, verify_of_proofAccepted hreal guards.proven⟩
  | @singleAudit msg commitId proof accepts reg' balance guards =>
    refine rootStep_setRoot (a := { s.audit with
      commits := Function.update s.audit.commits commitId
        { s.audit.commits commitId with isVerified := true } }) rfl rfl guards.active ?_
    refine ⟨proof, .single, ?_⟩
    have hproof := verify_of_proofAccepted hreal guards.proven
    rw [guards.oldRoot] at hproof
    exact hproof
  | legacyAudit _ call =>
    -- the manager turns the audit contract away
    obtain ⟨hadmitted, -⟩ := ClusterManager.verifyClusterCommit_eq_ok.mp call
    exact absurd hadmitted hnot
  | admin frame =>
    refine rootStep_of_chains ?_
    show _ = s.audit.chains c
    rw [← frame.chains]

/-! ## §2. The deployed system. -/

/-- The manager's owner never changes. -/
theorem owner_run (pairing : PairingCheck) (S : Setting) (deployers : Deployers)
    (txs : List System.Tx) :
    (run (System.exec pairing S) (System.deploy deployers) txs).manager.owner
      = deployers.manager := by
  refine run_invariant (P := fun s : System => s.manager.owner = deployers.manager) ?_ txs rfl
  intro s tx s' hs h
  rw [(System.commits_step h).1]
  exact hs

/-- As deployed, nobody but the manager's owner may call `verifyClusterCommit`. -/
theorem not_admitted {clusterManager auditContract : Address} {cm : ClusterManager}
    (hne : cm.owner ≠ auditContract) :
    ¬ ClusterManager.mayVerify (.asDeployed clusterManager auditContract) auditContract cm := by
  rintro (hsender | hgranted)
  · exact hne hsender.symm
  · exact Bool.false_ne_true hgranted

/-- The mock verifier is off in every state of the run. -/
def RealVerifier (pairing : PairingCheck) (S : Setting) (s₀ : System) (txs : List System.Tx) :
    Prop :=
  ∀ before after, txs = before ++ after →
    (run (System.exec pairing S) s₀ before).audit.useMockVerifier = false

theorem RealVerifier.of_append {s₀ : System} {txs more : List System.Tx}
    (h : RealVerifier pairing S s₀ (txs ++ more)) : RealVerifier pairing S s₀ txs := by
  intro before after htxs
  refine h before (after ++ more) ?_
  rw [htxs, List.append_assoc]

/-- A run without the call that enables it. -/
theorem realVerifier_of_not_enabled {s₀ : System} {txs : List System.Tx}
    (hs₀ : s₀.audit.useMockVerifier = false)
    (hnone : ∀ msg, .audit msg .enableMockVerifier ∉ txs) : RealVerifier pairing S s₀ txs := by
  intro before after htxs
  refine run_invariant_of (C := fun _ tx => ∀ msg, tx ≠ .audit msg .enableMockVerifier)
    (P := fun s : System => s.audit.useMockVerifier = false) ?_ before s₀ hs₀ ?_
  · intro s tx s' hother hs h
    cases System.exec_effect h with
    | @admin msg call a' frame =>
      rcases frame.mock with hcall | hsame
      · rw [hcall] at hother
        exact absurd rfl (hother msg)
      · show a'.useMockVerifier = false
        rw [hsame]
        exact hs
    | legacyAudit guards _ =>
      rw [setRoots_shape guards.loop]
      exact hs
    | registry _ => exact hs
    | manager _ => exact hs
    | registerChain _ _ => exact hs
    | submitCommit _ => exact hs
    | weightedAudit _ => exact hs
    | singleAudit _ => exact hs
    | clusterAudit _ _ => exact hs
  · refine stepsMeet_of_forall ?_ s₀
    intro tx htx _ msg heq
    refine hnone msg ?_
    rw [htxs, ← heq]
    exact List.mem_append.mpr (Or.inl htx)

/-! ## §3. The history of a root. -/

/-- `verify` accepts some proof for `[a, b]` under some key. -/
def Accepted (pairing : PairingCheck) (a b : Bytes32) : Prop :=
  ∃ vk proof, verify pairing vk proof [a.toNat, b.toNat] = .ok true

/-- The chain was registered in the run, and accepted proofs lead from the registered root
to the present one. -/
def Linked (pairing : PairingCheck) (S : Setting) (s₀ : System) (txs : List System.Tx)
    (c : ChainId) : Prop :=
  ∃ before msg root after, txs = before ++ .audit msg (.registerChain c root) :: after
    ∧ (System.exec pairing S (.audit msg (.registerChain c root))
        (run (System.exec pairing S) s₀ before)).isOk = true
    ∧ Relation.ReflTransGen (Accepted pairing) root
        (rootOf c (run (System.exec pairing S) s₀ txs))

/-- One root more. -/
theorem Linked.snoc {s₀ : System} {txs : List System.Tx} {c : ChainId} {tx : System.Tx}
    (h : Linked pairing S s₀ txs c)
    (hstep : rootOf c (run (System.exec pairing S) s₀ (txs ++ [tx]))
        = rootOf c (run (System.exec pairing S) s₀ txs)
      ∨ Accepted pairing (rootOf c (run (System.exec pairing S) s₀ txs))
          (rootOf c (run (System.exec pairing S) s₀ (txs ++ [tx])))) :
    Linked pairing S s₀ (txs ++ [tx]) c := by
  obtain ⟨before, msg, root, after, htxs, hok, hlinked⟩ := h
  refine ⟨before, msg, root, after ++ [tx], ?_, hok, ?_⟩
  · rw [htxs, List.append_assoc, List.cons_append]
  · rcases hstep with hsame | haccepted
    · rw [hsame]
      exact hlinked
    · exact hlinked.tail haccepted

/-- **The run lemma**, by induction from the end of the run. -/
theorem linked_run {clusterManager auditContract : Address} {deployers : Deployers}
    (hne : deployers.manager ≠ auditContract) (txs : List System.Tx)
    (hreal : RealVerifier pairing (.asDeployed clusterManager auditContract)
      (System.deploy deployers) txs) (c : ChainId)
    (hactive : isActive c (run (System.exec pairing (.asDeployed clusterManager auditContract))
      (System.deploy deployers) txs)) :
    Linked pairing (.asDeployed clusterManager auditContract)
      (System.deploy deployers) txs c := by
  induction txs using List.reverseRec with
  | nil => exact absurd hactive Bool.false_ne_true
  | append_singleton txs tx ih =>
    have ih := ih hreal.of_append
    have hmock := hreal txs [tx] rfl
    have howner := owner_run pairing (.asDeployed clusterManager auditContract) deployers txs
    have hrun : run (System.exec pairing (.asDeployed clusterManager auditContract))
        (System.deploy deployers) (txs ++ [tx]) = _ := run_snoc _ txs tx
    cases hexec : System.exec pairing (.asDeployed clusterManager auditContract) tx
        (run (System.exec pairing (.asDeployed clusterManager auditContract))
          (System.deploy deployers) txs) with
    | error e =>
      rw [commit_of_error hexec] at hrun
      rw [hrun] at hactive
      exact (ih hactive).snoc (Or.inl (by rw [hrun]))
    | ok s' =>
      rw [commit_of_ok hexec] at hrun
      rw [hrun] at hactive
      cases root_step hmock (not_admitted (howner ▸ hne)) hexec c with
      | keep active root =>
        exact (ih (active.mp hactive)).snoc (Or.inl (by rw [hrun, root]))
      | audit before _ verified =>
        obtain ⟨proof, -, hproof⟩ := verified
        exact (ih before).snoc (Or.inr (by rw [hrun]; exact ⟨_, proof, hproof⟩))
      | @register msg root call _ _ written =>
        subst call
        refine ⟨txs, msg, root, [], rfl, by rw [hexec]; rfl, ?_⟩
        rw [hrun, written]

/-- Every change of a root is verified, and every root is linked to the registered one. -/
structure ProofLinked (pairing : PairingCheck) (S : Setting) (s₀ : System) (txs : List System.Tx) :
    Prop where
  change : ∀ before tx after, txs = before ++ tx :: after → ∀ c,
    isActive c (run (System.exec pairing S) s₀ before) →
    rootOf c (run (System.exec pairing S) s₀ (before ++ [tx]))
      ≠ rootOf c (run (System.exec pairing S) s₀ before) →
    Verifies pairing (run (System.exec pairing S) s₀ before) tx
      (rootOf c (run (System.exec pairing S) s₀ before))
      (rootOf c (run (System.exec pairing S) s₀ (before ++ [tx])))
  linked : ∀ c, isActive c (run (System.exec pairing S) s₀ txs) → Linked pairing S s₀ txs c

/-- **Proof-linked root history.** -/
theorem proof_linked_history (pairing : PairingCheck)
    (clusterManager auditContract : Address) (deployers : Deployers)
    (hne : deployers.manager ≠ auditContract) (txs : List System.Tx)
    (hreal : RealVerifier pairing (.asDeployed clusterManager auditContract)
      (System.deploy deployers) txs) :
    ProofLinked pairing (.asDeployed clusterManager auditContract)
      (System.deploy deployers) txs := by
  refine ⟨?_, fun c hactive => linked_run hne txs hreal c hactive⟩
  intro before tx after htxs c hactive hchange
  have hmock := hreal before (tx :: after) htxs
  have howner := owner_run pairing (.asDeployed clusterManager auditContract) deployers before
  rw [run_snoc] at hchange ⊢
  generalize run (System.exec pairing (.asDeployed clusterManager auditContract))
    (System.deploy deployers) before = s at *
  cases hexec : System.exec pairing (.asDeployed clusterManager auditContract) tx s with
  | error e =>
    rw [commit_of_error hexec] at hchange
    exact absurd rfl hchange
  | ok s' =>
    rw [commit_of_ok hexec] at hchange ⊢
    cases root_step hmock (not_admitted (howner ▸ hne)) hexec c with
    | keep _ root => exact absurd root hchange
    | audit _ _ verified => exact verified
    | register _ inactive => exact absurd hactive inactive

/-- Bob and genesis agree on root 11, and chain 5 goes from 7 to 11. -/
theorem bothAgree_linked :
    ProofLinked acceptAll (.asDeployed 2 3) (System.deploy (.all genesis))
        (submissions bothAgree ++ [accept (groupKey range) 5])
      ∧ rootOf 5 (run (System.exec acceptAll (.asDeployed 2 3)) (System.deploy (.all genesis))
        (submissions bothAgree ++ [accept (groupKey range) 5])) = 11 := by
  refine ⟨proof_linked_history acceptAll 2 3 (.all genesis) (by decide) _ ?_, ?_⟩
  · refine realVerifier_of_not_enabled rfl ?_
    intro msg hmem
    simp [submissions, setup, bothAgree, submit, accept] at hmem
  · have hgrown := run_submissions acceptAll bothAgree (by decide) (by decide)
    obtain ⟨reg', haccept, -⟩ := exec_accept
      (auditable_submissions hgrown (by decide) (by decide) bothAgree_selected (by decide))
    show rootOf 5 (run (System.exec acceptAll setting) _ _) = 11
    rw [run_snoc, commit_of_ok haccept]
    exact root_afterAccept ..

/-! ## §4. Roots and the scalar field. -/

/-- Every active chain has a root the verifier takes. -/
def InField (s : System) : Prop := ∀ c, isActive c s → (rootOf c s).toNat < SCALAR_MODULUS

/-- A chain that is registered has an initial root the verifier takes. -/
def RegistersInField (pairing : PairingCheck) (S : Setting) (s : System) (tx : System.Tx) : Prop :=
  ∀ msg c root, tx = .audit msg (.registerChain c root) →
    (System.exec pairing S tx s).isOk = true → root.toNat < SCALAR_MODULUS

/-- What `verify` accepts is in range. -/
theorem Verifies.new_lt {s : System} {tx : System.Tx} {a b : Bytes32}
    (h : Verifies pairing s tx a b) : b.toNat < SCALAR_MODULUS := by
  obtain ⟨proof, -, hproof⟩ := h
  exact (verify_eq_true.mp hproof).2.1 b.toNat (by simp)

/-- **One transaction** keeps roots in the field. -/
theorem inField_step {s s' : System} {tx : System.Tx} (hreal : s.audit.useMockVerifier = false)
    (hnot : ¬ ClusterManager.mayVerify S S.auditContract s.manager) (hs : InField s)
    (h : System.exec pairing S tx s = .ok s') :
    InField s' ↔ RegistersInField pairing S s tx := by
  constructor
  · intro hs' msg c root htx _
    subst htx
    obtain ⟨-, hcall⟩ := System.exec_eq_ok.mp h
    obtain ⟨a', ha, rfl⟩ := System.onAudit_eq_ok.mp hcall
    obtain ⟨-, -, rfl⟩ := registerChain_eq_ok.mp ha
    have hrecord := chains_afterRegister_self msg c root s.audit
    have hlt := hs' c (by
      show ((afterRegister msg c root s.audit).chains c).isActive = true
      rw [hrecord])
    rw [rootOf, hrecord] at hlt
    exact hlt
  · intro hregister c hactive
    cases root_step hreal hnot h c with
    | keep active root =>
      rw [root]
      exact hs c (active.mp hactive)
    | audit _ _ verified => exact verified.new_lt
    | @register msg root call _ _ written =>
      rw [written]
      exact hregister msg c root call (by rw [h]; rfl)

/-- **All roots are field elements** along a run exactly when the registered ones are. -/
theorem roots_in_field_iff (pairing : PairingCheck)
    (clusterManager auditContract : Address) (deployers : Deployers)
    (hne : deployers.manager ≠ auditContract) (txs : List System.Tx)
    (hreal : RealVerifier pairing (.asDeployed clusterManager auditContract)
      (System.deploy deployers) txs) :
    (∀ k, InField (run (System.exec pairing (.asDeployed clusterManager auditContract))
        (System.deploy deployers) (txs.take k)))
      ↔ StepsMeet (System.exec pairing (.asDeployed clusterManager auditContract))
        (RegistersInField pairing (.asDeployed clusterManager auditContract))
        (System.deploy deployers) txs := by
  refine run_invariant_iff_within (P := fun s : System =>
    s.audit.useMockVerifier = false ∧ s.manager.owner = deployers.manager) ?_ ?_ txs ?_ ?_
  · intro s tx s' hs hfield h
    exact inField_step hs.1 (not_admitted (hs.2 ▸ hne)) hfield h
  · intro s tx e herror msg c root _ hok
    rw [herror] at hok
    exact Bool.noConfusion hok
  · intro k
    exact ⟨hreal (txs.take k) (txs.drop k) (List.take_append_drop k txs).symm,
      owner_run pairing _ deployers (txs.take k)⟩
  · intro c hactive
    exact absurd hactive Bool.false_ne_true

/-- Root 7 is a field element. -/
theorem setup_in_field :
    (∀ k, InField (run (System.exec acceptAll (.asDeployed 2 3)) (System.deploy (.all genesis))
        ((setup 5 7).take k)))
      ↔ StepsMeet (System.exec acceptAll (.asDeployed 2 3))
        (RegistersInField acceptAll (.asDeployed 2 3)) (System.deploy (.all genesis))
        (setup 5 7) := by
  refine roots_in_field_iff acceptAll 2 3 (.all genesis) (by decide) (setup 5 7) ?_
  refine realVerifier_of_not_enabled rfl ?_
  intro msg hmem
  simp [setup] at hmem

/-- A chain registered with the largest word as root. -/
theorem root_out_of_field : ¬ ∀ (pairing : PairingCheck)
    (clusterManager auditContract : Address) (deployers : Deployers) (txs : List System.Tx),
    deployers.manager ≠ auditContract →
    RealVerifier pairing (.asDeployed clusterManager auditContract)
      (System.deploy deployers) txs →
    InField (run (System.exec pairing (.asDeployed clusterManager auditContract))
      (System.deploy deployers) txs) := by
  intro hall
  have hexec : System.exec acceptAll (.asDeployed 2 3)
      (.audit genesisMsg (.registerChain 5 (BitVec.allOnes 256))) (System.deploy (.all genesis))
      = .ok _ :=
    exec_audit_ok (by decide) rfl (registerChain_eq_ok.mpr ⟨rfl, rfl, rfl⟩)
  have hfield := hall acceptAll 2 3 (.all genesis)
    [.audit genesisMsg (.registerChain 5 (BitVec.allOnes 256))] (by decide)
    (realVerifier_of_not_enabled rfl (by intro msg hmem; simp at hmem))
  rw [run_cons, commit_of_ok hexec, run_nil] at hfield
  have hblank : InField (System.deploy (.all genesis)) :=
    fun c hactive => absurd hactive Bool.false_ne_true
  have hlt := (inField_step rfl (not_admitted (by decide)) hblank hexec).mp hfield genesisMsg 5
    (BitVec.allOnes 256) rfl (by rw [hexec]; rfl)
  have hlarge : SCALAR_MODULUS ≤ (BitVec.allOnes 256).toNat := by
    norm_num [SCALAR_MODULUS]
  exact absurd hlt (Nat.not_lt.mpr hlarge)

end HZKA.Psi
