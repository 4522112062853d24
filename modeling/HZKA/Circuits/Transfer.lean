/-
  HZKA.Circuits.Transfer
  ────────────
  **THE TRANSFER CIRCUIT Λ_Θ** (`TransferCircuit.java`): hash commitment, burn
  transaction, Merkle inclusion under `root_Burn`.

  Both hashed messages are longer than one block.  The commitment input is
  `fpk_R ‖ r ‖ sn` (96 bytes), so its block is `fpk_R ‖ r` and the serial number is
  cut off; the transaction is `fpk_S ‖ addr_xi ‖ v_S ‖ commitment` (92 bytes), so its
  block keeps four bytes of the commitment.

    • `commitmentBlock_eq`, `txBurnBlock_eq` — the two truncations;
    • `outsource_withSn` — a satisfying assignment stays one under any serial number;
    • `txBurn_block_inj` — what a burn-transaction block does determine;
    • `sn_bound_iff_collision` — one burn transaction pins its serial number exactly
      when its own blocks already collide.
-/
import HZKA.Circuits.MerkleTree

namespace HZKA.Circuits.Transfer

open HZKA.Lib HZKA.Lib.Merkle HZKA.Circuits.SHA256 HZKA.Circuits.MerkleTree

/-! ## §1. The circuit. -/

/-- A block of sixteen transactions. -/
abbrev TREE_HEIGHT : Nat := 4

/-- All wires of the circuit that the prover or the verifier sets. -/
structure Assignment where
  fpk_R : Vector Byte 32
  sn : Vector Byte 32
  v_S : BitVec 64
  root_Burn : Digest
  fpk_S : Vector Byte 32
  addr_xi : Vector Byte 20
  r : Vector Byte 32
  h_Burn : Vector Digest TREE_HEIGHT
  directionBits : Vector Bool TREE_HEIGHT
  deriving DecidableEq

/-- The wires the verifier sees: one of the two keys, then `sn`, `v_S`, `root_Burn`. -/
structure PublicInputs where
  fpk : Vector Byte 32
  sn : Vector Byte 32
  v_S : BitVec 64
  root_Burn : Digest

/-- The mode only decides which key is public; the constraints do not depend on it. -/
def Assignment.publicInputs (isMintMode : Bool) (a : Assignment) : PublicInputs :=
  ⟨if isMintMode then a.fpk_R else a.fpk_S, a.sn, a.v_S, a.root_Burn⟩

/-- The public inputs as field elements, one per value. -/
def PublicInputs.encode (x : PublicInputs) : List Nat :=
  [natBE x.fpk.toList, natBE x.sn.toList, x.v_S.toNat, natBE x.root_Burn.bytes]

/-- `fpk_R ‖ r ‖ sn`. -/
def commitmentInput (fpk_R r sn : Vector Byte 32) : List Byte :=
  fpk_R.toList ++ r.toList ++ sn.toList

/-- `h(fpk_R, r, sn)`. -/
def commitment (fpk_R r sn : Vector Byte 32) : Digest := hash (commitmentInput fpk_R r sn)

/-- The commitment of the witness. -/
def Assignment.hashCommitment (a : Assignment) : Digest := commitment a.fpk_R a.r a.sn

/-- A burn transaction as it is hashed. -/
structure TxBurn where
  fpk_S : Vector Byte 32
  addr_xi : Vector Byte 20
  v_S : BitVec 64
  hashCommitment : Digest
  deriving DecidableEq

/-- `fpk_S ‖ addr_xi ‖ v_S ‖ commitment`. -/
def txBurnInput (tx : TxBurn) : List Byte :=
  tx.fpk_S.toList ++ tx.addr_xi.toList ++ bytesBE 8 tx.v_S ++ tx.hashCommitment.bytes

/-- The leaf of a burn transaction. -/
def txBurnHash (tx : TxBurn) : Digest := hash (txBurnInput tx)

/-- The burn transaction of the witness. -/
def Assignment.txBurn (a : Assignment) : TxBurn :=
  ⟨a.fpk_S, a.addr_xi, a.v_S, a.hashCommitment⟩

/-- **The constraints**: the burn transaction opens `root_Burn`. -/
def outsource (a : Assignment) : Prop :=
  verifyMerkleProof (txBurnHash a.txBurn) a.h_Burn a.directionBits a.root_Burn

instance (a : Assignment) : Decidable (outsource a) :=
  inferInstanceAs (Decidable (verifyMerkleProof _ _ _ _))

/-! ## §2. What reaches the hashes. -/

/-- The one block hashed for a commitment. -/
def commitmentBlock (fpk_R r sn : Vector Byte 32) : List Byte := block (commitmentInput fpk_R r sn)

/-- The one block hashed for a transaction. -/
def txBurnBlock (tx : TxBurn) : List Byte := block (txBurnInput tx)

/-- The serial number is not in the block. -/
theorem commitmentBlock_eq (fpk_R r sn : Vector Byte 32) :
    commitmentBlock fpk_R r sn = fpk_R.toList ++ r.toList := by
  have hlen : (fpk_R.toList ++ r.toList).length = 64 := by simp
  rw [commitmentBlock, commitmentInput, block_of_ge (by simp), List.take_append_of_le_length
    (le_of_eq hlen.symm), List.take_of_length_le (le_of_eq hlen)]

/-- The commitment does not depend on the serial number. -/
theorem commitment_sn_irrel (fpk_R r sn sn' : Vector Byte 32) :
    commitment fpk_R r sn = commitment fpk_R r sn' := by
  show hash _ = hash _
  rw [hash_eq_compress_block, hash_eq_compress_block]
  show computeSHA256 (commitmentBlock fpk_R r sn) = computeSHA256 (commitmentBlock fpk_R r sn')
  rw [commitmentBlock_eq, commitmentBlock_eq]

/-- Only four bytes of the commitment are hashed. -/
theorem txBurnBlock_eq (tx : TxBurn) :
    txBurnBlock tx = tx.fpk_S.toList ++ tx.addr_xi.toList ++ bytesBE 8 tx.v_S
      ++ tx.hashCommitment.bytes.take 4 := by
  have hlen : (tx.fpk_S.toList ++ tx.addr_xi.toList ++ bytesBE 8 tx.v_S).length = 60 := by simp
  rw [txBurnBlock, txBurnInput, block_of_ge (by simp [Digest.bytes_length]),
    List.take_append, hlen, List.take_of_length_le (by omega)]

/-- The block fixes keys, address and amount, but of the commitment only four bytes. -/
theorem txBurn_block_inj {tx tx' : TxBurn} (h : txBurnBlock tx = txBurnBlock tx') :
    tx.fpk_S = tx'.fpk_S ∧ tx.addr_xi = tx'.addr_xi ∧ tx.v_S = tx'.v_S
      ∧ tx.hashCommitment.bytes.take 4 = tx'.hashCommitment.bytes.take 4 := by
  rw [txBurnBlock_eq, txBurnBlock_eq] at h
  obtain ⟨h, hc⟩ := List.append_inj h (by simp)
  obtain ⟨h, hv⟩ := List.append_inj h (by simp)
  obtain ⟨hs, ha⟩ := List.append_inj h (by simp)
  exact ⟨Vector.toList_inj.mp hs, Vector.toList_inj.mp ha, bytesBE_inj (n := 8) hv, hc⟩

/-- One compression. -/
theorem txBurnHash_eq (tx : TxBurn) : txBurnHash tx = computeSHA256 (txBurnBlock tx) :=
  hash_eq_compress_block _

/-- The six blocks an assignment hashes. -/
def Assignment.blocks (a : Assignment) : List (List Byte) :=
  commitmentBlock a.fpk_R a.r a.sn :: txBurnBlock a.txBurn
    :: pathBlocks (txBurnHash a.txBurn) a.h_Burn a.directionBits

/-- All blocks compressed for a tree of burn transactions. -/
def txTreeBlocks {n : Nat} (t : Tree TxBurn n) : List (List Byte) :=
  t.leaves.map txBurnBlock ++ treeBlocks txBurnHash t

/-- **The burn opened by a satisfying assignment** under the root of a tree of burn
transactions is, as far as its block goes, the one at its position. -/
theorem outsource_opens {a : Assignment} (ha : outsource a) (t : Tree TxBurn TREE_HEIGHT)
    (hroot : a.root_Burn = t.root txBurnHash nodeHash)
    (hfree : ¬ Collision a.blocks (txTreeBlocks t)) :
    txBurnBlock a.txBurn = txBurnBlock (t.get (position a.directionBits)) := by
  rw [outsource, hroot] at ha
  rcases verifyMerkleProof_sound txBurnHash t _ _ _ ha with ⟨hleaf, -⟩ | hcol
  · by_contra hne
    refine hfree ⟨txBurnBlock a.txBurn, List.mem_cons_of_mem _ (List.mem_cons_self ..), _,
      List.mem_append_left _ (List.mem_map_of_mem (t.get_mem_leaves _)), hne, ?_⟩
    rw [← txBurnHash_eq, ← txBurnHash_eq, hleaf]
  · refine absurd (hcol.mono ?_ (List.subset_append_right _ _)) hfree
    exact List.subset_cons_of_subset _ (List.subset_cons_self _ _)

/-! ## §3. The serial number is free. -/

/-- The same assignment under another serial number. -/
def Assignment.withSn (a : Assignment) (sn : Vector Byte 32) : Assignment := { a with sn := sn }

/-- The transaction does not see the serial number. -/
theorem txBurn_withSn (a : Assignment) (sn : Vector Byte 32) : (a.withSn sn).txBurn = a.txBurn := by
  show TxBurn.mk a.fpk_S a.addr_xi a.v_S (commitment a.fpk_R a.r sn)
    = TxBurn.mk a.fpk_S a.addr_xi a.v_S (commitment a.fpk_R a.r a.sn)
  rw [commitment_sn_irrel a.fpk_R a.r sn a.sn]

/-- Nor do the constraints. -/
theorem outsource_withSn (a : Assignment) (sn : Vector Byte 32) :
    outsource (a.withSn sn) ↔ outsource a := by
  unfold outsource
  rw [txBurn_withSn]
  exact Iff.rfl

/-- Nor the blocks. -/
theorem blocks_withSn (a : Assignment) (sn : Vector Byte 32) : (a.withSn sn).blocks = a.blocks := by
  unfold Assignment.blocks
  rw [txBurn_withSn]
  show commitmentBlock a.fpk_R a.r sn :: _ = commitmentBlock a.fpk_R a.r a.sn :: _
  rw [commitmentBlock_eq, commitmentBlock_eq]
  rfl

/-- Two assignments that open the same burn transaction. -/
structure SameTxBurn (a a' : Assignment) : Prop where
  fpk_S : a.fpk_S = a'.fpk_S
  addr_xi : a.addr_xi = a'.addr_xi
  v_S : a.v_S = a'.v_S
  fpk_R : a.fpk_R = a'.fpk_R
  r : a.r = a'.r
  txBurnHash : txBurnHash a.txBurn = txBurnHash a'.txBurn

theorem sameTxBurn_withSn (a : Assignment) (sn : Vector Byte 32) : SameTxBurn a (a.withSn sn) :=
  ⟨rfl, rfl, rfl, rfl, rfl, by rw [txBurn_withSn]⟩

/-- There is always another serial number. -/
theorem exists_other_sn (sn : Vector Byte 32) : ∃ sn' : Vector Byte 32, sn ≠ sn' := by
  by_cases h : sn = Vector.replicate 32 0
  · exact ⟨Vector.replicate 32 1, by rw [h]; decide⟩
  · exact ⟨Vector.replicate 32 0, h⟩

/-- Either assignment's blocks, taken together, contain a collision. -/
def ExhibitCollision (a a' : Assignment) : Prop :=
  Collision (a.blocks ++ a'.blocks) (a.blocks ++ a'.blocks)

theorem exhibitCollision_withSn (a : Assignment) (sn : Vector Byte 32)
    (h : ExhibitCollision a (a.withSn sn)) : Collision a.blocks a.blocks := by
  rw [ExhibitCollision, blocks_withSn] at h
  have hsub : a.blocks ++ a.blocks ⊆ a.blocks :=
    List.append_subset.mpr ⟨List.Subset.refl _, List.Subset.refl _⟩
  exact h.mono hsub hsub

/-! ## §4. A block of equal burns.

Sixteen copies of one burn of 1 ether by `0xA11CE` to the receiver key `0xB0B`, with
`r = 2` and serial number 7.  Each digest below is evaluated once. -/

/-- The commitment of the sample. -/
def sampleCommitment : Digest :=
  ⟨0xd0d9489b, 0xf79a1f87, 0x44978d6c, 0xc240b530, 0xe11cb6a5, 0xaf3f4b8f, 0x6aa4c2c5, 0xc4ac8b66⟩

/-- The leaf of the sample transaction. -/
def sampleLeaf : Digest :=
  ⟨0xaab4b864, 0x88140ac1, 0x5f2fb526, 0x0b468e61, 0x5feb6a52, 0xb34143e2, 0xb42686fb, 0x13686c60⟩

/-- Two sample leaves. -/
def sampleNode₁ : Digest :=
  ⟨0x39992c13, 0x65f5adfb, 0xca8bcdb8, 0x6aed8411, 0x6450cbce, 0x9015be53, 0xd600138a, 0x6be00165⟩

/-- Four sample leaves. -/
def sampleNode₂ : Digest :=
  ⟨0xe923cff9, 0xcac941ea, 0xaf0736dc, 0x3387039d, 0x311c65b1, 0xcd0efc8d, 0xfb855bc5, 0x138c98d3⟩

/-- Eight sample leaves. -/
def sampleNode₃ : Digest :=
  ⟨0x51acb063, 0x0abef1bc, 0xf1d9cc65, 0x4eb05d05, 0x0490f700, 0x15dd40fe, 0x6404a9a7, 0x3064bc0d⟩

/-- The root of sixteen sample leaves. -/
def sampleRoot : Digest :=
  ⟨0x2707c3da, 0xe1de382f, 0x0cfb06e8, 0x42399857, 0x86eda1a9, 0x535d38b4, 0xd7d87ecc, 0x159c9108⟩

/-- 1 ether burned by `0xA11CE`. -/
def sampleTx : TxBurn where
  fpk_S := vecBE 32 (0xA11CE : BitVec 256)
  addr_xi := Vector.replicate 20 0
  v_S := 1000000000000000000
  hashCommitment := sampleCommitment

/-- The witness for the first leaf. -/
def sample : Assignment where
  fpk_R := vecBE 32 (0xB0B : BitVec 256)
  sn := vecBE 32 (7 : BitVec 256)
  v_S := sampleTx.v_S
  root_Burn := sampleRoot
  fpk_S := sampleTx.fpk_S
  addr_xi := sampleTx.addr_xi
  r := vecBE 32 (2 : BitVec 256)
  h_Burn := #v[sampleLeaf, sampleNode₁, sampleNode₂, sampleNode₃]
  directionBits := Vector.replicate 4 false

/-- The digests of the sample, computed once. -/
theorem sample_hashes : sample.hashCommitment = sampleCommitment
    ∧ txBurnHash sampleTx = sampleLeaf
    ∧ nodeHash (sampleLeaf, sampleLeaf) = sampleNode₁
    ∧ nodeHash (sampleNode₁, sampleNode₁) = sampleNode₂
    ∧ nodeHash (sampleNode₂, sampleNode₂) = sampleNode₃
    ∧ nodeHash (sampleNode₃, sampleNode₃) = sampleRoot := by
  decide +kernel

theorem sample_hashCommitment : sample.hashCommitment = sampleCommitment := sample_hashes.1

theorem hash_sampleTx : txBurnHash sampleTx = sampleLeaf := sample_hashes.2.1

theorem hash_sampleLeaf : nodeHash (sampleLeaf, sampleLeaf) = sampleNode₁ := sample_hashes.2.2.1

theorem hash_sampleNode₁ : nodeHash (sampleNode₁, sampleNode₁) = sampleNode₂ :=
  sample_hashes.2.2.2.1

theorem hash_sampleNode₂ : nodeHash (sampleNode₂, sampleNode₂) = sampleNode₃ :=
  sample_hashes.2.2.2.2.1

theorem hash_sampleNode₃ : nodeHash (sampleNode₃, sampleNode₃) = sampleRoot :=
  sample_hashes.2.2.2.2.2

theorem sample_txBurn : sample.txBurn = sampleTx := by
  show TxBurn.mk sampleTx.fpk_S sampleTx.addr_xi sampleTx.v_S sample.hashCommitment = sampleTx
  rw [sample_hashCommitment]
  rfl

theorem sample_path : pathOf sample.h_Burn sample.directionBits
    = [(false, sampleNode₃), (false, sampleNode₂), (false, sampleNode₁), (false, sampleLeaf)] :=
  pathOf_replicate _ false

/-- The sample meets the constraints. -/
theorem sample_outsource : outsource sample := by
  rw [outsource, verifyMerkleProof, sample_txBurn, hash_sampleTx, computeMerkleRoot_eq, sample_path]
  simp only [recompute, pairOf, Bool.false_eq_true, if_false, hash_sampleLeaf, hash_sampleNode₁,
    hash_sampleNode₂, hash_sampleNode₃]
  rfl

theorem sample_pathPairs : pathPairs nodeHash sampleLeaf (pathOf sample.h_Burn sample.directionBits)
    = [(sampleNode₃, sampleNode₃), (sampleNode₂, sampleNode₂), (sampleNode₁, sampleNode₁),
      (sampleLeaf, sampleLeaf)] := by
  rw [sample_path]
  simp only [pathPairs, recompute, pairOf, Bool.false_eq_true, if_false, hash_sampleLeaf,
    hash_sampleNode₁, hash_sampleNode₂]

/-- Its digests are six different ones. -/
theorem sample_digests : sample.blocks.map computeSHA256
    = [sampleCommitment, sampleLeaf, sampleRoot, sampleNode₃, sampleNode₂, sampleNode₁] := by
  have hcommit : computeSHA256 (commitmentBlock sample.fpk_R sample.r sample.sn)
      = sampleCommitment :=
    (hash_eq_compress_block _).symm.trans sample_hashCommitment
  rw [Assignment.blocks, sample_txBurn, List.map_cons, List.map_cons, hcommit, ← txBurnHash_eq,
    hash_sampleTx, pathBlocks, sample_pathPairs]
  simp only [List.map_cons, List.map_nil, ← nodeHash_eq, hash_sampleLeaf, hash_sampleNode₁,
    hash_sampleNode₂, hash_sampleNode₃]

/-- No two of its blocks collide. -/
theorem sample_no_collision : ¬ Collision sample.blocks sample.blocks :=
  not_collision_of_digests _ sample_digests (by decide)

/-! ## §5. Binding. -/

/-- **A burn transaction pins its serial number only through a collision**: among the
assignments opening the same burn as `a`, all share the serial number of `a` (or
exhibit a collision together with `a`) exactly when the six blocks of `a` collide
among themselves. -/
theorem sn_bound_iff_collision (a : Assignment) (ha : outsource a) :
    (∀ a', outsource a' → SameTxBurn a a' → a.sn = a'.sn ∨ ExhibitCollision a a')
      ↔ Collision a.blocks a.blocks := by
  constructor
  · intro hbound
    obtain ⟨sn', hne⟩ := exists_other_sn a.sn
    -- the same witness under `sn'` is accepted too, and hashes the same blocks
    rcases hbound (a.withSn sn') ((outsource_withSn a sn').mpr ha) (sameTxBurn_withSn a sn')
      with hsn | hcol
    · exact absurd hsn hne
    · exact exhibitCollision_withSn a sn' hcol
  · intro hcol a' _ _
    have hsub : a.blocks ⊆ a.blocks ++ a'.blocks := List.subset_append_left _ _
    exact Or.inr (hcol.mono hsub hsub)

/-- The sample, with any serial number. -/
theorem sample_sn_bound_iff : outsource sample
    ∧ ((∀ a', outsource a' → SameTxBurn sample a' → sample.sn = a'.sn ∨ ExhibitCollision sample a')
      ↔ Collision sample.blocks sample.blocks) :=
  ⟨sample_outsource, sn_bound_iff_collision sample sample_outsource⟩

/-- The sample burn opens under the serial numbers 7 and 8, and no blocks collide. -/
theorem sn_not_bound : ¬ ∀ a a' : Assignment, outsource a → outsource a' → SameTxBurn a a' →
    a.sn = a'.sn ∨ ExhibitCollision a a' := by
  intro hbound
  let sn' : Vector Byte 32 := vecBE 32 (8 : BitVec 256)
  rcases hbound sample (sample.withSn sn') sample_outsource
    ((outsource_withSn sample sn').mpr sample_outsource) (sameTxBurn_withSn sample sn')
    with hsn | hcol
  · exact absurd hsn (by decide)
  · exact sample_no_collision (exhibitCollision_withSn sample sn' hcol)

end HZKA.Circuits.Transfer
