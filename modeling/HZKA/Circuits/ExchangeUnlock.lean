/-
  HZKA.Circuits.ExchangeUnlock
  ────────────
  **THE UNLOCK CIRCUIT Λ^on_Φ** (`ExchangeUnlockCircuit.java`): hash lock, lock
  transaction, Merkle inclusion under `root_Lock`.

  The hash-lock message `pre ‖ sn` is exactly one block, so the lock binds both.  The
  lock transaction `fpk ‖ addr_xi ‖ v ‖ h(pre, sn)` has 92 bytes, so four bytes of the
  hash lock reach its hash.

    • `hashLock_block_inj` — the hash lock determines preimage and serial number;
    • `txLock_block_inj` — what a lock-transaction block determines;
    • `outsource_opens` — the lock transaction opened by a satisfying assignment;
    • `lock_bound_iff` — two satisfying assignments with one leaf hash open the same lock, or
      exhibit a collision, exactly when the 28 bytes cut off agree;
    • `lock_not_bound` — they need not: one leaf with two preimages.
-/
import HZKA.Circuits.MerkleTree

namespace HZKA.Circuits.ExchangeUnlock

open HZKA.Lib HZKA.Lib.Merkle HZKA.Circuits.SHA256 HZKA.Circuits.MerkleTree

/-! ## §1. The circuit. -/

/-- A block of sixteen transactions. -/
abbrev TREE_HEIGHT : Nat := 4

/-- All wires of the circuit that the prover or the verifier sets. -/
structure Assignment where
  sn : Vector Byte 32
  v : BitVec 64
  root_Lock : Digest
  fpk : Vector Byte 32
  addr_xi : Vector Byte 20
  pre : Vector Byte 32
  h_Lock : Vector Digest TREE_HEIGHT
  directionBits : Vector Bool TREE_HEIGHT
  h_TxLock : Digest
  h_pre_sn : Digest
  deriving DecidableEq

/-- The wires the verifier sees. -/
structure PublicInputs where
  sn : Vector Byte 32
  v : BitVec 64
  root_Lock : Digest

/-- What the verifier is given. -/
def Assignment.publicInputs (a : Assignment) : PublicInputs := ⟨a.sn, a.v, a.root_Lock⟩

/-- The public inputs as field elements, one per value. -/
def PublicInputs.encode (x : PublicInputs) : List Nat :=
  [natBE x.sn.toList, x.v.toNat, natBE x.root_Lock.bytes]

/-- `pre ‖ sn`. -/
def hashLockInput (pre sn : Vector Byte 32) : List Byte := pre.toList ++ sn.toList

/-- `h(pre, sn)`. -/
def hashLock (pre sn : Vector Byte 32) : Digest := SHA256.hash (hashLockInput pre sn)

/-- A lock transaction as it is hashed. -/
structure TxLock where
  fpk : Vector Byte 32
  addr_xi : Vector Byte 20
  v : BitVec 64
  h_pre_sn : Digest
  deriving DecidableEq

/-- `fpk ‖ addr_xi ‖ v ‖ h(pre, sn)`. -/
def txLockInput (tx : TxLock) : List Byte :=
  tx.fpk.toList ++ tx.addr_xi.toList ++ bytesBE 8 tx.v ++ tx.h_pre_sn.bytes

/-- The leaf of a lock transaction. -/
def txLockHash (tx : TxLock) : Digest := SHA256.hash (txLockInput tx)

/-- The lock transaction of the witness. -/
def Assignment.txLock (a : Assignment) : TxLock := ⟨a.fpk, a.addr_xi, a.v, a.h_pre_sn⟩

/-- **The constraints**, in the order of `outsource`. -/
structure Outsource (a : Assignment) : Prop where
  hashLock : hashLock a.pre a.sn = a.h_pre_sn
  txLock : txLockHash a.txLock = a.h_TxLock
  merkle : verifyMerkleProof (txLockHash a.txLock) a.h_Lock a.directionBits a.root_Lock

/-! ## §2. What reaches the hashes. -/

/-- The one block hashed for a hash lock. -/
def hashLockBlock (pre sn : Vector Byte 32) : List Byte := block (hashLockInput pre sn)

/-- The one block hashed for a transaction. -/
def txLockBlock (tx : TxLock) : List Byte := block (txLockInput tx)

/-- Preimage and serial number fill the block. -/
theorem hashLockBlock_eq (pre sn : Vector Byte 32) :
    hashLockBlock pre sn = pre.toList ++ sn.toList := by
  rw [hashLockBlock, hashLockInput, block_of_ge (by simp), List.take_of_length_le (by simp)]

/-- Nothing of the hash-lock message is cut off. -/
theorem hashLock_block_inj {pre sn pre' sn' : Vector Byte 32}
    (h : hashLockBlock pre sn = hashLockBlock pre' sn') : pre = pre' ∧ sn = sn' := by
  rw [hashLockBlock_eq, hashLockBlock_eq] at h
  obtain ⟨hp, hs⟩ := List.append_inj h (by simp)
  exact ⟨Vector.toList_inj.mp hp, Vector.toList_inj.mp hs⟩

/-- Only four bytes of the hash lock are hashed. -/
theorem txLockBlock_eq (tx : TxLock) :
    txLockBlock tx = tx.fpk.toList ++ tx.addr_xi.toList ++ bytesBE 8 tx.v
      ++ tx.h_pre_sn.bytes.take 4 := by
  have hlen : (tx.fpk.toList ++ tx.addr_xi.toList ++ bytesBE 8 tx.v).length = 60 := by simp
  rw [txLockBlock, txLockInput, block_of_ge (by simp [Digest.bytes_length]),
    List.take_append, hlen, List.take_of_length_le (by omega)]

/-- The block fixes key, address and amount, but of the hash lock only four bytes. -/
theorem txLock_block_inj {tx tx' : TxLock} (h : txLockBlock tx = txLockBlock tx') :
    tx.fpk = tx'.fpk ∧ tx.addr_xi = tx'.addr_xi ∧ tx.v = tx'.v
      ∧ tx.h_pre_sn.bytes.take 4 = tx'.h_pre_sn.bytes.take 4 := by
  rw [txLockBlock_eq, txLockBlock_eq] at h
  obtain ⟨h, hc⟩ := List.append_inj h (by simp)
  obtain ⟨h, hv⟩ := List.append_inj h (by simp)
  obtain ⟨hs, ha⟩ := List.append_inj h (by simp)
  exact ⟨Vector.toList_inj.mp hs, Vector.toList_inj.mp ha, bytesBE_inj (n := 8) hv, hc⟩

/-- One compression. -/
theorem txLockHash_eq (tx : TxLock) : txLockHash tx = computeSHA256 (txLockBlock tx) :=
  hash_eq_compress_block _

/-- The six blocks an assignment hashes. -/
def Assignment.blocks (a : Assignment) : List (List Byte) :=
  hashLockBlock a.pre a.sn :: txLockBlock a.txLock
    :: pathBlocks (txLockHash a.txLock) a.h_Lock a.directionBits

/-- All blocks compressed for a tree of lock transactions. -/
def txTreeBlocks {n : Nat} (t : Tree TxLock n) : List (List Byte) :=
  t.leaves.map txLockBlock ++ treeBlocks txLockHash t

/-- **The lock transaction opened by a satisfying assignment** under the root of a tree of
lock transactions is, as far as its block goes, the one at its position. -/
theorem outsource_opens {a : Assignment} (ha : Outsource a) (t : Tree TxLock TREE_HEIGHT)
    (hroot : a.root_Lock = t.root txLockHash nodeHash)
    (hfree : ¬ Collision a.blocks (txTreeBlocks t)) :
    txLockBlock a.txLock = txLockBlock (t.get (position a.directionBits)) := by
  have hmerkle := ha.merkle
  rw [hroot] at hmerkle
  rcases verifyMerkleProof_sound txLockHash t _ _ _ hmerkle with ⟨hleaf, -⟩ | hcol
  · by_contra hne
    refine hfree ⟨txLockBlock a.txLock, List.mem_cons_of_mem _ (List.mem_cons_self ..), _,
      List.mem_append_left _ (List.mem_map_of_mem (t.get_mem_leaves _)), hne, ?_⟩
    rw [← txLockHash_eq, ← txLockHash_eq, hleaf]
  · refine absurd (hcol.mono ?_ (List.subset_append_right _ _)) hfree
    exact List.subset_cons_of_subset _ (List.subset_cons_self _ _)

/-! ## §3. A block of equal locks.

Sixteen copies of one lock of 1 ether by the key `0xA11CE`, with preimage 4 and serial
number 7.  Each digest below is evaluated once. -/

/-- The hash lock of the sample. -/
def sampleHashLock : Digest :=
  ⟨0xd8492572, 0x8a1b9037, 0x0612fdec, 0xcfa9a878, 0x6577bf11, 0x76f01a0f, 0x9a1afa2c, 0x22c154f4⟩

/-- The leaf of the sample transaction. -/
def sampleLeaf : Digest :=
  ⟨0x5ab7f3c7, 0x7c348e1a, 0x4086c086, 0x378f6cd1, 0x476e1186, 0x5518c959, 0xed4dba81, 0x1b583a15⟩

/-- Two sample leaves. -/
def sampleNode₁ : Digest :=
  ⟨0xf24e910e, 0x3a60007c, 0x618a1308, 0xb36cf112, 0x02e9f59a, 0x41098d84, 0x824d6cfa, 0xebf648bf⟩

/-- Four sample leaves. -/
def sampleNode₂ : Digest :=
  ⟨0xce7d1a1b, 0x1d92a8ab, 0x340ff5da, 0x7af6f566, 0x228d9ef1, 0xe94c11c3, 0x386ee908, 0xe2cc35c0⟩

/-- Eight sample leaves. -/
def sampleNode₃ : Digest :=
  ⟨0xf1ead7cf, 0xcbe584a3, 0xb8ca9d58, 0xeab1991c, 0x2a0b7063, 0x828b0225, 0x68a94e65, 0xfbca504d⟩

/-- The root of sixteen sample leaves. -/
def sampleRoot : Digest :=
  ⟨0x0cd1e753, 0xe1c434d3, 0x744c5781, 0xa872f1b5, 0xc0a33391, 0xa44a6643, 0x387ba9b0, 0xdc4c5b66⟩

/-- 1 ether locked by `0xA11CE`. -/
def sampleTx : TxLock where
  fpk := vecBE 32 (0xA11CE : BitVec 256)
  addr_xi := Vector.replicate 20 0
  v := 1000000000000000000
  h_pre_sn := sampleHashLock

/-- The witness for the first leaf. -/
def sample : Assignment where
  sn := vecBE 32 (7 : BitVec 256)
  v := sampleTx.v
  root_Lock := sampleRoot
  fpk := sampleTx.fpk
  addr_xi := sampleTx.addr_xi
  pre := vecBE 32 (4 : BitVec 256)
  h_Lock := #v[sampleLeaf, sampleNode₁, sampleNode₂, sampleNode₃]
  directionBits := Vector.replicate 4 false
  h_TxLock := sampleLeaf
  h_pre_sn := sampleHashLock

/-- The digests of the sample, computed once. -/
theorem sample_hashes : hashLock sample.pre sample.sn = sampleHashLock
    ∧ txLockHash sampleTx = sampleLeaf
    ∧ nodeHash (sampleLeaf, sampleLeaf) = sampleNode₁
    ∧ nodeHash (sampleNode₁, sampleNode₁) = sampleNode₂
    ∧ nodeHash (sampleNode₂, sampleNode₂) = sampleNode₃
    ∧ nodeHash (sampleNode₃, sampleNode₃) = sampleRoot := by
  decide +kernel

theorem sample_hashLock : hashLock sample.pre sample.sn = sampleHashLock := sample_hashes.1

theorem hash_sampleTx : txLockHash sampleTx = sampleLeaf := sample_hashes.2.1

theorem hash_sampleLeaf : nodeHash (sampleLeaf, sampleLeaf) = sampleNode₁ := sample_hashes.2.2.1

theorem hash_sampleNode₁ : nodeHash (sampleNode₁, sampleNode₁) = sampleNode₂ :=
  sample_hashes.2.2.2.1

theorem hash_sampleNode₂ : nodeHash (sampleNode₂, sampleNode₂) = sampleNode₃ :=
  sample_hashes.2.2.2.2.1

theorem hash_sampleNode₃ : nodeHash (sampleNode₃, sampleNode₃) = sampleRoot :=
  sample_hashes.2.2.2.2.2

theorem sample_path : pathOf sample.h_Lock sample.directionBits
    = [(false, sampleNode₃), (false, sampleNode₂), (false, sampleNode₁), (false, sampleLeaf)] :=
  pathOf_replicate _ false

/-- The sample meets the constraints. -/
theorem sample_outsource : Outsource sample := by
  refine ⟨sample_hashLock, hash_sampleTx, ?_⟩
  show verifyMerkleProof (txLockHash sampleTx) _ _ _
  rw [verifyMerkleProof, hash_sampleTx, computeMerkleRoot_eq, sample_path]
  simp only [recompute, pairOf, Bool.false_eq_true, if_false, hash_sampleLeaf, hash_sampleNode₁,
    hash_sampleNode₂, hash_sampleNode₃]
  rfl

/-- The blocks of the sample, the path top first. -/
theorem sample_blocks : sample.blocks
    = hashLockBlock sample.pre sample.sn :: txLockBlock sampleTx
      :: [nodeBlock (sampleNode₃, sampleNode₃), nodeBlock (sampleNode₂, sampleNode₂),
        nodeBlock (sampleNode₁, sampleNode₁), nodeBlock (sampleLeaf, sampleLeaf)] := by
  have hpairs : pathPairs nodeHash sampleLeaf (pathOf sample.h_Lock sample.directionBits)
      = [(sampleNode₃, sampleNode₃), (sampleNode₂, sampleNode₂), (sampleNode₁, sampleNode₁),
        (sampleLeaf, sampleLeaf)] := by
    rw [sample_path]
    simp only [pathPairs, recompute, pairOf, Bool.false_eq_true, if_false, hash_sampleLeaf,
      hash_sampleNode₁, hash_sampleNode₂]
  show hashLockBlock sample.pre sample.sn :: txLockBlock sampleTx
    :: pathBlocks (txLockHash sampleTx) sample.h_Lock sample.directionBits = _
  rw [hash_sampleTx, pathBlocks, hpairs]
  rfl

/-- Its digests are six different ones. -/
theorem sample_digests : sample.blocks.map computeSHA256
    = [sampleHashLock, sampleLeaf, sampleRoot, sampleNode₃, sampleNode₂, sampleNode₁] := by
  have hlock : computeSHA256 (hashLockBlock sample.pre sample.sn) = sampleHashLock :=
    (hash_eq_compress_block _).symm.trans sample_hashLock
  rw [sample_blocks]
  simp only [List.map_cons, List.map_nil, hlock, ← txLockHash_eq, hash_sampleTx, ← nodeHash_eq,
    hash_sampleLeaf, hash_sampleNode₁, hash_sampleNode₂, hash_sampleNode₃]

/-- No two of its blocks collide. -/
theorem sample_no_collision : ¬ Collision sample.blocks sample.blocks :=
  not_collision_of_digests _ sample_digests (by decide)

/-- Sixteen copies of the sample. -/
def sampleTree : Tree TxLock TREE_HEIGHT := Tree.replicate sampleTx 4

/-- The tree level by level. -/
theorem sampleTree_levels :
    (Tree.replicate sampleTx 0).root txLockHash nodeHash = sampleLeaf
    ∧ (Tree.replicate sampleTx 1).root txLockHash nodeHash = sampleNode₁
    ∧ (Tree.replicate sampleTx 2).root txLockHash nodeHash = sampleNode₂
    ∧ (Tree.replicate sampleTx 3).root txLockHash nodeHash = sampleNode₃ := by
  have h₀ : (Tree.replicate sampleTx 0).root txLockHash nodeHash = sampleLeaf := hash_sampleTx
  have h₁ : (Tree.replicate sampleTx 1).root txLockHash nodeHash = sampleNode₁ := by
    show nodeHash (_, _) = _
    rw [h₀, hash_sampleLeaf]
  have h₂ : (Tree.replicate sampleTx 2).root txLockHash nodeHash = sampleNode₂ := by
    show nodeHash (_, _) = _
    rw [h₁, hash_sampleNode₁]
  have h₃ : (Tree.replicate sampleTx 3).root txLockHash nodeHash = sampleNode₃ := by
    show nodeHash (_, _) = _
    rw [h₂, hash_sampleNode₂]
  exact ⟨h₀, h₁, h₂, h₃⟩

/-- The root of the tree. -/
theorem sampleTree_root : sampleTree.root txLockHash nodeHash = sampleRoot := by
  show nodeHash (_, _) = _
  rw [sampleTree_levels.2.2.2, hash_sampleNode₃]

/-- The blocks of the sample tree are among those of the sample assignment. -/
theorem sampleTree_blocks : txTreeBlocks sampleTree ⊆ sample.blocks := by
  obtain ⟨h₀, h₁, h₂, h₃⟩ := sampleTree_levels
  rw [sample_blocks, ← h₀, ← h₁, ← h₂, ← h₃]
  exact List.Subset.trans (blocks_replicate_subset txLockHash txLockBlock sampleTx 4)
    (List.subset_cons_self _ _)

/-! ## §4. What one leaf binds.

The sample lock also opens with the preimage `1568683706`, whose hash lock begins with the same
four bytes. -/

/-- Two assignments that open the same lock. -/
structure SameLock (a a' : Assignment) : Prop where
  fpk : a.fpk = a'.fpk
  addr_xi : a.addr_xi = a'.addr_xi
  v : a.v = a'.v
  pre : a.pre = a'.pre
  sn : a.sn = a'.sn

/-- The two assignments together hash two different blocks to one digest. -/
def ExhibitCollision (a a' : Assignment) : Prop :=
  Collision (a.blocks ++ a'.blocks) (a.blocks ++ a'.blocks)

/-- The bytes of the hash lock that are cut off. -/
def Assignment.unhashed (a : Assignment) : List Byte := a.h_pre_sn.bytes.drop 4

/-- Without a collision, equal digests of hashed blocks come from equal blocks. -/
theorem block_eq_of_digest {a a' : Assignment} (hfree : ¬ ExhibitCollision a a') {b b' : List Byte}
    (hb : b ∈ a.blocks) (hb' : b' ∈ a'.blocks) (h : computeSHA256 b = computeSHA256 b') : b = b' := by
  by_contra hne
  exact hfree ⟨b, List.mem_append_left _ hb, b', List.mem_append_right _ hb', hne, h⟩

/-- The leaf binds key, address, amount and four bytes of the hash lock. -/
theorem leaf_binds {a a' : Assignment} (hfree : ¬ ExhibitCollision a a')
    (hleaf : txLockHash a.txLock = txLockHash a'.txLock) :
    a.fpk = a'.fpk ∧ a.addr_xi = a'.addr_xi ∧ a.v = a'.v
      ∧ a.h_pre_sn.bytes.take 4 = a'.h_pre_sn.bytes.take 4 := by
  rw [txLockHash_eq, txLockHash_eq] at hleaf
  have hblock : txLockBlock a.txLock = txLockBlock a'.txLock :=
    block_eq_of_digest hfree (List.mem_cons_of_mem _ List.mem_cons_self)
      (List.mem_cons_of_mem _ List.mem_cons_self) hleaf
  exact txLock_block_inj hblock

/-- The whole hash lock binds preimage and serial number. -/
theorem hashLock_binds {a a' : Assignment} (hfree : ¬ ExhibitCollision a a')
    (h : hashLock a.pre a.sn = hashLock a'.pre a'.sn) : a.pre = a'.pre ∧ a.sn = a'.sn := by
  have hdigest : computeSHA256 (hashLockBlock a.pre a.sn)
      = computeSHA256 (hashLockBlock a'.pre a'.sn) := by
    rw [hashLockBlock, hashLockBlock, ← hash_eq_compress_block, ← hash_eq_compress_block]
    exact h
  exact hashLock_block_inj (block_eq_of_digest hfree List.mem_cons_self List.mem_cons_self hdigest)

/-- A hash lock with the same first four bytes. -/
def otherHashLock : Digest :=
  ⟨0xd8492572, 0x803db319, 0x9ddd88d5, 0x76d28fdf, 0x3907dfee, 0xc8b85769, 0x8f8a1f2a, 0xc85a294c⟩

/-- The sample with another preimage. -/
def other : Assignment :=
  { sample with pre := vecBE 32 (1568683706 : BitVec 256), h_pre_sn := otherHashLock }

theorem other_hashLock : hashLock other.pre other.sn = otherHashLock := by
  decide +kernel

/-- Both transactions hash one block. -/
theorem other_txLockBlock : txLockBlock other.txLock = txLockBlock sampleTx := by
  have hfirst : otherHashLock.bytes.take 4 = sampleHashLock.bytes.take 4 := by decide
  rw [txLockBlock_eq, txLockBlock_eq]
  show _ ++ otherHashLock.bytes.take 4 = _ ++ sampleHashLock.bytes.take 4
  rw [hfirst]
  rfl

theorem other_leaf : txLockHash other.txLock = txLockHash sampleTx := by
  rw [txLockHash_eq, txLockHash_eq, other_txLockBlock]

/-- The other witness meets the constraints too. -/
theorem other_outsource : Outsource other := by
  refine ⟨other_hashLock, other_leaf.trans hash_sampleTx, ?_⟩
  rw [other_leaf]
  exact sample_outsource.merkle

/-- Only the hash-lock block is new. -/
theorem other_blocks : other.blocks = hashLockBlock other.pre other.sn :: sample.blocks.tail := by
  show hashLockBlock other.pre other.sn :: txLockBlock other.txLock
    :: pathBlocks (txLockHash other.txLock) sample.h_Lock sample.directionBits = _
  rw [other_leaf, other_txLockBlock]
  rfl

/-- And no collision is exhibited. -/
theorem other_no_collision : ¬ ExhibitCollision sample other := by
  have hnew : computeSHA256 (hashLockBlock other.pre other.sn) = otherHashLock :=
    (hash_eq_compress_block _).symm.trans other_hashLock
  have hfree : ¬ Collision (hashLockBlock other.pre other.sn :: sample.blocks)
      (hashLockBlock other.pre other.sn :: sample.blocks) := by
    refine not_collision_of_digests (otherHashLock :: [sampleHashLock, sampleLeaf, sampleRoot,
      sampleNode₃, sampleNode₂, sampleNode₁]) ?_ (by decide)
    rw [List.map_cons, hnew, sample_digests]
  intro hcol
  have hsub : sample.blocks ++ other.blocks ⊆ hashLockBlock other.pre other.sn :: sample.blocks := by
    rw [other_blocks]
    refine List.append_subset.mpr ⟨List.subset_cons_self _ _, ?_⟩
    exact List.cons_subset_cons _ (List.tail_subset _)
  exact hfree (hcol.mono hsub hsub)

/-- **One leaf, one lock, up to collisions, exactly when the bytes cut off agree.** -/
theorem lock_bound_iff (a a' : Assignment) (ha : Outsource a) (ha' : Outsource a')
    (hleaf : txLockHash a.txLock = txLockHash a'.txLock) :
    SameLock a a' ∨ ExhibitCollision a a'
      ↔ a.unhashed = a'.unhashed ∨ ExhibitCollision a a' := by
  by_cases hcol : ExhibitCollision a a'
  · exact iff_of_true (.inr hcol) (.inr hcol)
  constructor
  · intro h
    left
    obtain hsame | hcol' := h
    · have hlock : a.h_pre_sn = a'.h_pre_sn := by
        rw [← ha.hashLock, ← ha'.hashLock, hsame.pre, hsame.sn]
      unfold Assignment.unhashed
      rw [hlock]
    · exact absurd hcol' hcol
  · intro h
    left
    obtain hcut | hcol' := h
    · obtain ⟨hfpk, haddr, hv, htake⟩ := leaf_binds hcol hleaf
      have hbytes : a.h_pre_sn.bytes = a'.h_pre_sn.bytes := by
        rw [← List.take_append_drop 4 a.h_pre_sn.bytes, htake,
          show a.h_pre_sn.bytes.drop 4 = a'.h_pre_sn.bytes.drop 4 from hcut,
          List.take_append_drop]
      have hlock : hashLock a.pre a.sn = hashLock a'.pre a'.sn := by
        rw [ha.hashLock, ha'.hashLock]
        exact Digest.bytes_inj hbytes
      obtain ⟨hpre, hsn⟩ := hashLock_binds hcol hlock
      exact ⟨hfpk, haddr, hv, hpre, hsn⟩
    · exact absurd hcol' hcol

/-- The sample and the other assignment: neither side holds. -/
theorem sample_lock_bound_iff : Outsource sample ∧ Outsource other
    ∧ (SameLock sample other ∨ ExhibitCollision sample other
      ↔ sample.unhashed = other.unhashed ∨ ExhibitCollision sample other) :=
  ⟨sample_outsource, other_outsource,
    lock_bound_iff sample other sample_outsource other_outsource other_leaf.symm⟩

/-- **One leaf, two preimages**, and no blocks collide. -/
theorem lock_not_bound : ¬ ∀ a a' : Assignment, Outsource a → Outsource a' →
    txLockHash a.txLock = txLockHash a'.txLock → SameLock a a' ∨ ExhibitCollision a a' := by
  intro hbound
  rcases hbound sample other sample_outsource other_outsource other_leaf.symm with hsame | hcol
  · exact absurd hsame.pre (by decide)
  · exact other_no_collision hcol

end HZKA.Circuits.ExchangeUnlock
