/-
  HZKA.Psi.ClusterCommitment
  ────────────
  **TWO COMMITMENTS TO ONE LIST OF ROOTS.**

  `submitClusterCommit` stores the Keccak Merkle root of the chain roots;
  `acceptClusterCommit` compares it with the commitment of the aggregation proof, which the
  circuit folds with Poseidon.  Both are the root itself for a cluster of one chain; from
  two chains on they are values of two different hash functions.

    • `commitment_agrees_iff` — after every submission of every run: the exposed commitment
      is the stored root EXACTLY for a single root in the field, or when the two hashes
      happen to coincide;
    • `keccak_exceeds_field` — where the Keccak root is not below the field modulus they
      never coincide, whatever the sponge;
    • `commitment_mismatch` — such a submission: two chains with root zero.
-/
import HZKA.Circuits.Aggregation
import HZKA.Psi.ClusterPath

namespace HZKA.Psi

open HZKA.Lib HZKA.EVM HZKA.Groth16Verifier HZKA.AuditContractV2 HZKA.Circuits.Aggregation
open HZKA.ReputationRegistry (genesis genesisMsg)
open HZKA.Clusters (owner clusterOf withCluster)
open HZKA.ClusterManager (newCommitKey newClusterCommit merkleRoot pairHash
  submitClusterCommit_eq_ok commits_afterSubmit_self)

/-! ## §1. Field elements and words. -/

/-- A root as the circuit reads it. -/
def toField (root : Bytes32) : Fr := (root.toNat : Fr)

/-- A public input as the contract reads it. -/
def toWord (x : Fr) : Bytes32 := BitVec.ofNat 256 x.val

theorem toNat_toWord (x : Fr) : (toWord x).toNat = x.val := by
  show x.val % 2 ^ 256 = x.val
  exact Nat.mod_eq_of_lt (x.val_lt.trans modulus_lt_word)

theorem val_toField {root : Bytes32} (h : root.toNat < SCALAR_MODULUS) :
    (toField root).val = root.toNat :=
  ZMod.val_cast_of_lt h

/-- A word is the image of a field element when it is below the modulus. -/
theorem toWord_eq_iff {x : Fr} {root : Bytes32} :
    toWord x = root ↔ root.toNat < SCALAR_MODULUS ∧ x = toField root := by
  constructor
  · intro h
    have hval : x.val = root.toNat := by rw [← toNat_toWord, h]
    refine ⟨hval ▸ x.val_lt, ?_⟩
    show x = (root.toNat : Fr)
    rw [← hval, ZMod.natCast_zmod_val]
  · intro ⟨hlt, hx⟩
    apply BitVec.eq_of_toNat_eq
    rw [toNat_toWord, hx, val_toField hlt]

/-! ## §2. The two commitments. -/

variable (poseidon : Poseidon)

/-- The commitment the circuit exposes for a list of chain roots. -/
def exposed (chainRoots : List Bytes32) : Option Bytes32 :=
  (computeCommitment poseidon (chainRoots.map toField)).map toWord

/-- The Keccak root fits the field and the Poseidon fold hits it. -/
structure Coincides (chainRoots : List Bytes32) : Prop where
  several : 2 ≤ chainRoots.length
  inField : (merkleRoot chainRoots).toNat < SCALAR_MODULUS
  fold : computeCommitment poseidon (chainRoots.map toField)
    = some (toField (merkleRoot chainRoots))

variable {poseidon}

theorem merkleRoot_singleton (root : Bytes32) : merkleRoot [root] = root := by
  rw [merkleRoot, layerRoot]

theorem merkleRoot_pair (l r : Bytes32) : merkleRoot [l, r] = pairHash l r := by
  unfold merkleRoot
  rw [layerRoot]
  show layerRoot pairHash 0 [pairHash l r] = pairHash l r
  rw [layerRoot]

/-- Proofs expose it: whatever else a satisfying assignment for the roots contains. -/
theorem exposed_of_constraints {remaining : Nat} {a : Assignment} {chainRoots : List Bytes32}
    (h : GenerateConstraints poseidon remaining a)
    (hroots : a.newRoots = chainRoots.map toField) :
    exposed poseidon chainRoots = some (toWord a.commitment) := by
  unfold exposed
  rw [← hroots, commitment_of_constraints h]
  rfl

/-- Exposed is in the field and the commitment. -/
theorem exposed_eq_iff {chainRoots : List Bytes32} {word : Bytes32} :
    exposed poseidon chainRoots = some word
      ↔ word.toNat < SCALAR_MODULUS
        ∧ computeCommitment poseidon (chainRoots.map toField) = some (toField word) := by
  unfold exposed
  rw [Option.map_eq_some_iff]
  constructor
  · intro ⟨x, hx, hword⟩
    obtain ⟨hlt, rfl⟩ := toWord_eq_iff.mp hword
    exact ⟨hlt, hx⟩
  · intro ⟨hlt, hx⟩
    exact ⟨_, hx, toWord_eq_iff.mpr ⟨hlt, rfl⟩⟩

/-- No sponge reaches a Keccak root above the modulus. -/
theorem keccak_exceeds_field {chainRoots : List Bytes32}
    (h : SCALAR_MODULUS ≤ (merkleRoot chainRoots).toNat) :
    exposed poseidon chainRoots ≠ some (merkleRoot chainRoots) := by
  intro hsame
  have hlt := (exposed_eq_iff.mp hsame).1
  omega

/-- **When the two agree**, by the length of the list. -/
theorem exposed_eq_merkleRoot_iff (chainRoots : List Bytes32) :
    exposed poseidon chainRoots = some (merkleRoot chainRoots)
      ↔ (∃ root, chainRoots = [root] ∧ root.toNat < SCALAR_MODULUS)
        ∨ Coincides poseidon chainRoots := by
  rw [exposed_eq_iff]
  constructor
  · intro ⟨hlt, hfold⟩
    cases chainRoots with
    | nil => cases hfold
    | cons root rest =>
      cases rest with
      | nil =>
        rw [merkleRoot_singleton] at hlt
        exact .inl ⟨root, rfl, hlt⟩
      | cons next rest =>
        refine .inr ⟨?_, hlt, hfold⟩
        simp only [List.length_cons]
        omega
  · intro h
    rcases h with ⟨root, rfl, hlt⟩ | h
    · rw [merkleRoot_singleton]
      exact ⟨hlt, rfl⟩
    · exact ⟨h.inField, h.fold⟩

/-! ## §3. What the contract stores. -/

/-- The record a submission leaves. -/
theorem aggregatedRoot_of_submit {pairing : PairingCheck} {S : Setting} {ctx : Ctx}
    {clusterId : Nat} {chainRoots : List Bytes32} {s s' : System}
    (h : System.exec pairing S (.manager ctx (.submitClusterCommit clusterId chainRoots)) s
      = .ok s') :
    (s'.manager.clusterCommits
      (newCommitKey ctx clusterId chainRoots s.manager)).aggregatedRoot = merkleRoot chainRoots := by
  obtain ⟨-, h⟩ := System.exec_eq_ok.mp h
  obtain ⟨_, hcall, rfl⟩ := map_eq_ok.mp h
  obtain ⟨_, hsubmit, rfl⟩ := map_eq_ok.mp hcall
  obtain ⟨-, rfl⟩ := submitClusterCommit_eq_ok.mp hsubmit
  exact congrArg ClusterCommit.aggregatedRoot (commits_afterSubmit_self ctx clusterId chainRoots _).1

/-- **When the circuit's commitment is the contract's**, for every submission of every run;
and proofs for the roots expose no other. -/
theorem commitment_agrees_iff (poseidon : Poseidon) (pairing : PairingCheck) (S : Setting)
    (deployers : Deployers) (txs : List System.Tx) (ctx : Ctx) (clusterId : Nat)
    (chainRoots : List Bytes32) (s' : System)
    (hsubmit : System.exec pairing S (.manager ctx (.submitClusterCommit clusterId chainRoots))
      (run (System.exec pairing S) (System.deploy deployers) txs) = .ok s') :
    (exposed poseidon chainRoots
        = some (s'.manager.clusterCommits (newCommitKey ctx clusterId chainRoots
            (run (System.exec pairing S) (System.deploy deployers)
              txs).manager)).aggregatedRoot
      ↔ (∃ root, chainRoots = [root] ∧ root.toNat < SCALAR_MODULUS)
        ∨ Coincides poseidon chainRoots)
    ∧ ∀ (remaining : Nat) (a : Assignment), GenerateConstraints poseidon remaining a →
        a.newRoots = chainRoots.map toField →
        exposed poseidon chainRoots = some (toWord a.commitment) := by
  refine ⟨?_, fun _ _ => exposed_of_constraints⟩
  rw [aggregatedRoot_of_submit hsubmit]
  exact exposed_eq_merkleRoot_iff chainRoots

/-- Set-up and a cluster. -/
def clustered (chains : List ChainId) : List System.Tx := setup 5 7 ++ [clusterOf chains]

theorem run_clustered (pairing : PairingCheck) {chains : List ChainId} (hpos : chains.length > 0) :
    run (System.exec pairing admitting) (System.deploy (.all genesis)) (clustered chains)
      = ⟨openRegistry, withCluster chains (ClusterManager.deploy genesis), (openChain 5 7).audit⟩ := by
  rw [clustered, run_append, run_setup pairing (S := admitting) (fun _ h => h)]
  exact run_clusterOf pairing (by decide) hpos _

/-- Genesis submits root 11 for its one chain. -/
theorem commitFive_agrees :
    exposed (fun x y => x + y) [11] = some ((committed [5] [11] (openChain 5 7).audit).manager.clusterCommits
      (newCommitKey owner 1 [11] (run (System.exec acceptAll admitting)
        (System.deploy (.all genesis)) (clustered [5])).manager)).aggregatedRoot := by
  have hexec := exec_commitOf acceptAll (show System.External admitting 1 by decide)
    (show [(11 : Bytes32)].length = [(5 : ChainId)].length from rfl) (openChain 5 7).audit
  refine (commitment_agrees_iff (fun x y => x + y) acceptAll admitting (.all genesis) (clustered [5]) owner 1
    [11] (committed [5] [11] (openChain 5 7).audit) ?_).1.mpr (.inl ⟨11, rfl, ?_⟩)
  · rw [run_clustered acceptAll (by decide)]
    exact hexec
  · unfold SCALAR_MODULUS
    decide

/-! ## §4. Two chains at root zero. -/

theorem zeros_exceed_field : SCALAR_MODULUS ≤ (merkleRoot [0, 0]).toNat := by
  rw [merkleRoot_pair]
  unfold SCALAR_MODULUS
  decide +kernel

/-- The honest commitment for the two roots is turned down, for every sponge. -/
theorem zeros_rejected (poseidon : Poseidon) :
    ∃ commitment, exposed poseidon [0, 0] = some commitment ∧ ∀ round : Nat,
      acceptClusterCommit admitting genesisMsg (commitId [5, 6] [0, 0]) commitment 1 round
        (run (System.exec acceptAll admitting) (System.deploy (.all genesis))
          (clustered [5, 6] ++ [commitOf [0, 0]])) = .error (.require "Commitment mismatch") := by
  have hexec := exec_commitOf acceptAll (show System.External admitting 1 by decide)
    (show [(0 : Bytes32), 0].length = [(5 : ChainId), 6].length from rfl) (openChain 5 7).audit
  refine ⟨toWord (poseidon (toField 0) (toField 0)), rfl, fun round => ?_⟩
  rw [run_append, run_clustered acceptAll (by decide), run_cons, commit_of_ok hexec, run_nil]
  obtain ⟨hrecord, -⟩ := record_committed [5, 6] [0, 0] (openChain 5 7).audit
  unfold acceptClusterCommit
  rw [require_bind (show (committed [5, 6] [0, 0] (openChain 5 7).audit).audit.auditors
    genesisMsg.sender = true from rfl)]
  dsimp only
  rw [hrecord, require_bind (show (newClusterCommit owner 1 [0, 0] (withCluster [5, 6]
      (ClusterManager.deploy genesis))).clusterHead ≠ 0 from by decide),
    require_bind (show (newClusterCommit owner 1 [0, 0] (withCluster [5, 6]
      (ClusterManager.deploy genesis))).isVerified = false from rfl),
    require_bind (show (newClusterCommit owner 1 [0, 0] (withCluster [5, 6]
      (ClusterManager.deploy genesis))).clusterId = 1 from rfl)]
  refine bind_eq_error.mpr (.inl (require_eq_error.mpr ⟨?_, rfl⟩))
  intro hsame
  exact @keccak_exceeds_field poseidon [0, 0] zeros_exceed_field (congrArg some hsame)

/-- **The two disagree for every sponge**, and the honest commitment is turned down. -/
theorem commitment_mismatch :
    (∀ poseidon : Poseidon,
      ¬ ∀ (pairing : PairingCheck) (S : Setting) (deployers : Deployers)
        (txs : List System.Tx) (ctx : Ctx) (clusterId : Nat) (chainRoots : List Bytes32)
        (s' : System), chainRoots ≠ [] →
        System.exec pairing S (.manager ctx (.submitClusterCommit clusterId chainRoots))
          (run (System.exec pairing S) (System.deploy deployers) txs) = .ok s' →
        exposed poseidon chainRoots
          = some (s'.manager.clusterCommits (newCommitKey ctx clusterId chainRoots
              (run (System.exec pairing S) (System.deploy deployers)
                txs).manager)).aggregatedRoot)
    ∧ ∀ poseidon : Poseidon,
      ∃ commitment, exposed poseidon [0, 0] = some commitment ∧ ∀ round : Nat,
        acceptClusterCommit admitting genesisMsg (commitId [5, 6] [0, 0]) commitment 1 round
          (run (System.exec acceptAll admitting) (System.deploy (.all genesis))
            (clustered [5, 6] ++ [commitOf [0, 0]])) = .error (.require "Commitment mismatch") := by
  refine ⟨?_, zeros_rejected⟩
  intro poseidon hall
  have hrun := run_clustered acceptAll (show [(5 : ChainId), 6].length > 0 by decide)
  have hexec := exec_commitOf acceptAll (show System.External admitting 1 by decide)
    (show [(0 : Bytes32), 0].length = [(5 : ChainId), 6].length from rfl) (openChain 5 7).audit
  have hsame := hall acceptAll admitting (.all genesis) (clustered [5, 6]) owner 1 [0, 0]
    (committed [5, 6] [0, 0] (openChain 5 7).audit) (by decide) (by rw [hrun]; exact hexec)
  rw [hrun, aggregatedRoot_of_submit hexec] at hsame
  exact keccak_exceeds_field zeros_exceed_field hsame

end HZKA.Psi
