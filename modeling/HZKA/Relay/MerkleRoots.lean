/-
  HZKA.Relay.MerkleRoots
  ────────────
  **THE MERKLE ROOT OF THE CONTRACTS, AND THAT OF THE RELAY.**

  `_merkleRoot`, the same in `ClusterManager` and `AuditContractV2`, doubles the last node
  of an odd layer; `computeRootHash` of the committer fills the leaves up with zeros.

    • `merkleLoop_eq`     — the `while` loop of the contracts ends, after `⌈log₂ n⌉` rounds,
      with the layered root;
    • `merkleRoot_binds`  — lists of one length with one root are equal, or two pairs that
      were hashed collide;
    • `duplicated`        — the leaves the contracts' root is the perfect-tree root of;
    • `relay_root_iff`    — the roots of contracts and relay agree exactly where the doubled
      leaves are zeros.
-/
import HZKA.Contracts.ClusterManager
import HZKA.Relay.Committer

namespace HZKA.Relay

open HZKA.Lib HZKA.EVM
open HZKA.ClusterManager (pairHash merkleRoot)

/-! ## §1. The loop of the contracts. -/

/-- One round of `while (layer.length > 1)`. -/
def nextArray (layer : List Bytes32) : List Bytes32 :=
  (List.range ((layer.length + 1) / 2)).map (fun i =>
    let l := i * 2
    let r := if l + 1 < layer.length then l + 1 else l
    pairHash (layer.getD l 0) (layer.getD r 0))

/-- The loop and `return layer[0]`; `none` when the rounds do not suffice. -/
def merkleLoop : Nat → List Bytes32 → Option Bytes32
  | rounds, layer =>
    if layer.length > 1 then
      match rounds with
      | 0 => none
      | rounds + 1 => merkleLoop rounds (nextArray layer)
    else layer[0]?

/-- The whole function, with its two early returns. -/
def merkleRootLoop (rounds : Nat) (leaves : List Bytes32) : Option Bytes32 :=
  if leaves.length = 0 then some 0
  else if leaves.length = 1 then leaves[0]?
  else merkleLoop rounds leaves

/-- A round computes the next layer. -/
theorem nextArray_eq (layer : List Bytes32) : nextArray layer = nextLayer pairHash layer := by
  apply List.ext_getElem?
  intro i
  unfold nextArray nextLayer
  rw [List.getElem?_map, List.getElem?_map]
  by_cases hi : i < (layer.length + 1) / 2
  · rw [List.getElem?_range hi, getElem?_layerPairs 0 layer i hi]
    rfl
  · have hpairs : (layerPairs layer).length ≤ i := by
      rw [layerPairs_length]
      omega
    rw [List.getElem?_eq_none hpairs, List.getElem?_eq_none (by rw [List.length_range]; omega)]
    rfl

/-- **The loop ends**, after as many rounds as the list has layers above it. -/
theorem merkleLoop_eq {layer : List Bytes32} (hne : layer ≠ []) :
    ∀ {rounds : Nat}, Nat.clog 2 layer.length ≤ rounds →
      merkleLoop rounds layer = some (merkleRoot layer) := by
  unfold merkleRoot
  fun_induction layerRoot pairHash 0 layer with
  | case1 => exact absurd rfl hne
  | case2 a =>
    intro rounds _
    unfold merkleLoop
    rfl
  | case3 a b rest ih =>
    intro rounds hrounds
    rw [clog_nextLayer pairHash (by simp)] at hrounds
    obtain ⟨n, rfl⟩ : ∃ n, rounds = n + 1 := ⟨rounds - 1, by omega⟩
    unfold merkleLoop
    rw [if_pos (by simp), nextArray_eq]
    apply ih
    · intro hnil
      have hlen := nextLayer_length pairHash (a :: b :: rest)
      rw [hnil, List.length_nil, List.length_cons, List.length_cons] at hlen
      omega
    · omega

/-- **Equal-length binding, and termination**, for every list of leaves. -/
theorem merkleRoot_binds :
    (∀ leaves : List Bytes32, ∀ rounds, Nat.clog 2 leaves.length ≤ rounds →
        merkleRootLoop rounds leaves = some (merkleRoot leaves))
    ∧ (∀ leaves leaves' : List Bytes32, leaves.length = leaves'.length →
        merkleRoot leaves = merkleRoot leaves' →
        leaves = leaves'
        ∨ ∃ p ∈ rootPairs pairHash leaves, ∃ q ∈ rootPairs pairHash leaves', p ≠ q
          ∧ keccak256 (abiEncode [.bytes32 p.1, .bytes32 p.2])
            = keccak256 (abiEncode [.bytes32 q.1, .bytes32 q.2])) := by
  constructor
  · intro leaves rounds hrounds
    match leaves with
    | [] =>
      unfold merkleRoot
      rw [layerRoot]
      rfl
    | [a] =>
      unfold merkleRoot
      rw [layerRoot]
      rfl
    | a :: b :: rest =>
      unfold merkleRootLoop
      rw [if_neg (by simp), if_neg (by simp)]
      exact merkleLoop_eq (by simp) hrounds
  · intro leaves leaves' hlen hroot
    exact layerRoot_inj 0 leaves leaves' hlen hroot

/-- Three leaves take two rounds. -/
theorem three_leaves_root : merkleRootLoop 2 [1, 2, 3] = some (merkleRoot [1, 2, 3]) :=
  merkleRoot_binds.1 [1, 2, 3] 2 (by decide)

/-! ## §2. Relay and contracts. -/

/-- One pair hash: `abi.encode` of two words is their concatenation. -/
theorem nodeHash_eq_pairHash : nodeHash = pairHash := by
  funext l r
  unfold nodeHash pairHash abiEncode
  rw [List.flatMap_cons, List.flatMap_cons, List.flatMap_nil, List.append_nil]
  rfl

/-- The leaves with the copies the contracts' doubling amounts to. -/
def duplicated (hashes : List Bytes32) : List Bytes32 :=
  completed (Nat.clog 2 hashes.length) hashes

/-- The copies the contracts add are the zeros the relay adds. -/
def PaddingsAgree (hashes : List Bytes32) : Prop := duplicated hashes = pad hashes

theorem pad_nil : pad [] = [] := by
  rw [pad]
  rfl

/-- The relay's root is the root of its padded leaves. -/
theorem computeRootHash_pad (hashes : List Bytes32) :
    computeRootHash nodeHash hashes = some (layerRoot pairHash 0 (pad hashes)) := by
  rw [nodeHash_eq_pairHash]
  by_cases hne : hashes = []
  · rw [hne, pad_nil, layerRoot]
    rfl
  · rw [computeRootHash_eq, pad_eq hne]
    rfl

theorem merkleRoot_duplicated (hashes : List Bytes32) :
    merkleRoot hashes = layerRoot pairHash 0 (duplicated hashes) :=
  (layerRoot_completed pairHash 0 _ rfl).symm

theorem length_duplicated (hashes : List Bytes32) :
    (duplicated hashes).length = (pad hashes).length := by
  by_cases hne : hashes = []
  · rw [hne, pad_nil]
    rfl
  · have hle := le_width hashes.length
    rw [pad_eq hne, List.length_append, List.length_replicate]
    show (completed (Nat.clog 2 hashes.length) hashes).length = _
    rw [completed_length _ hne rfl]
    show width hashes.length = _
    omega

/-- The lengths at which neither side adds anything. -/
theorem paddingsAgree_of_pow {hashes : List Bytes32} {k : Nat} (h : hashes.length = 2 ^ k) :
    PaddingsAgree hashes := by
  have hne : hashes ≠ [] := by
    rintro rfl
    have hpos := Nat.two_pow_pos k
    rw [List.length_nil] at h
    omega
  have hclog : Nat.clog 2 hashes.length = k := by
    rw [h]
    exact Nat.clog_pow 2 k (by omega)
  have hwidth : width hashes.length = hashes.length := by
    unfold width
    rw [hclog, h]
  unfold PaddingsAgree duplicated
  rw [hclog, completed_of_pow k h, pad_eq hne, hwidth, Nat.sub_self, List.replicate_zero,
    List.append_nil]

/-- **The two roots agree where the paddings do**, at every length, and nowhere else unless
pairs collide; empty lists and powers of two are among them. -/
theorem relay_root_iff (hashes : List Bytes32) :
    (PaddingsAgree hashes → computeRootHash nodeHash hashes = some (merkleRoot hashes))
    ∧ (¬ PairCollision pairHash (rootPairs pairHash hashes) (rootPairs pairHash (pad hashes)) →
        (computeRootHash nodeHash hashes = some (merkleRoot hashes) ↔ PaddingsAgree hashes))
    ∧ (hashes = [] ∨ (∃ k, hashes.length = 2 ^ k) → PaddingsAgree hashes) := by
  have hagree : PaddingsAgree hashes →
      computeRootHash nodeHash hashes = some (merkleRoot hashes) := by
    intro h
    rw [computeRootHash_pad, merkleRoot_duplicated, h]
  refine ⟨hagree, ?_, ?_⟩
  · intro hfree
    refine ⟨?_, hagree⟩
    intro hroot
    rw [computeRootHash_pad, merkleRoot_duplicated, Option.some.injEq] at hroot
    rcases layerRoot_inj 0 _ _ (length_duplicated hashes) hroot.symm with heq | hcol
    · exact heq
    · exact absurd (hcol.mono (rootPairs_completed pairHash _ rfl) (List.Subset.refl _)) hfree
  · intro h
    rcases h with rfl | ⟨k, hk⟩
    · unfold PaddingsAgree
      rw [pad_nil]
      rfl
    · exact paddingsAgree_of_pow hk

theorem four_roots_agree :
    computeRootHash nodeHash [1, 2, 3, 4] = some (merkleRoot [1, 2, 3, 4]) :=
  (relay_root_iff [1, 2, 3, 4]).1 ((relay_root_iff [1, 2, 3, 4]).2.2 (.inr ⟨2, rfl⟩))

/-! ## §3. Three children. -/

theorem layerRoot_three {α : Type} (combine : α → α → α) (d a b c : α) :
    layerRoot combine d [a, b, c] = combine (combine a b) (combine c c) := by
  rw [layerRoot, nextLayer]
  show layerRoot combine d [combine a b, combine c c] = _
  rw [layerRoot, nextLayer]
  show layerRoot combine d [combine (combine a b) (combine c c)] = _
  rw [layerRoot]

theorem layerRoot_four {α : Type} (combine : α → α → α) (d a b c e : α) :
    layerRoot combine d [a, b, c, e] = combine (combine a b) (combine c e) := by
  rw [layerRoot, nextLayer]
  show layerRoot combine d [combine a b, combine c e] = _
  rw [layerRoot, nextLayer]
  show layerRoot combine d [combine (combine a b) (combine c e)] = _
  rw [layerRoot]

theorem pad_three (a b c : Bytes32) : pad [a, b, c] = [a, b, c, 0] := by
  have hwidth : width 3 = 4 := by
    unfold width
    rw [show Nat.clog 2 3 = 2 from by decide]
    rfl
  rw [pad_eq (by simp)]
  show [a, b, c] ++ List.replicate (width 3 - 3) 0 = _
  rw [hwidth]
  rfl

theorem pairHash_one_one : pairHash 1 1
    = 0xcc69885fda6bcc1a4ace058b4a62bf5e179ea78fd58a1ccd71c22cc9b688792f := by
  decide +kernel

theorem pairHash_one_zero : pairHash 1 0
    = 0xada5013122d395ba3c54772283fb069b10426056ef8ca54750cb9bb552a59e7d := by
  decide +kernel

/-- Three children of a tree node: the relay pairs the third with zero, the contracts with
itself. -/
theorem three_roots_differ :
    ¬ ∀ hashes : List Bytes32, computeRootHash nodeHash hashes = some (merkleRoot hashes) := by
  intro hall
  have h := hall [1, 1, 1]
  rw [computeRootHash_pad, pad_three, Option.some.injEq, merkleRoot, layerRoot_three,
    layerRoot_four, pairHash_one_one, pairHash_one_zero] at h
  exact absurd h (by decide +kernel)

end HZKA.Relay
