/-
  HZKA.Psi.StateTransition
  ────────────
  **WHAT A SATISFIED AUDIT CIRCUIT SAYS ABOUT THE STATE TREES.**

  Given trees `T 0 ‥ T n` under the intermediate roots and no collision among the
  hashed blocks, the batch is a sequence of intended transitions that conserves the
  total balance EXACTLY when each new root is the one the old openings determine and
  no amount moves from a position to itself (`batch_sound_iff`).  The circuit
  enforces neither: `batch_not_sound` is a satisfied instance whose single
  transaction moves nothing while half of the accounts gain.
-/
import HZKA.Circuits.Audit
import Mathlib.Data.Fin.VecNotation
import Mathlib.Order.Fin.Basic
import Mathlib.Tactic.FinCases

namespace HZKA.Psi

open HZKA.Lib HZKA.Lib.Merkle HZKA.Circuits HZKA.Circuits.SHA256 HZKA.Circuits.MerkleTree
open HZKA.Circuits.Audit

/-! ## §1. Statement. -/

variable {n : Nat}

/-- The trees `T` run through the intended transitions of the batch. -/
structure BatchSound (a : Assignment n) (T : Fin (n + 1) → StateTree) : Prop where
  step : ∀ t, T t.succ = (a.tx t).apply (T t.castSucc)
  untouched : ∀ t p, p.length = STATE_TREE_HEIGHT → p ≠ (a.tx t).senderPosition →
    p ≠ (a.tx t).receiverPosition → (T t.succ).get p = (T t.castSucc).get p
  total : totalBalance (T (Fin.last n)) = totalBalance (T 0)

/-- All blocks that are hashed: those of the trees, of the intended trees and of the
openings. -/
def hashedBlocks (a : Assignment n) (T : Fin (n + 1) → StateTree) : List (List Byte) :=
  (List.finRange (n + 1)).flatMap (fun t => accountTreeBlocks (T t))
    ++ (List.finRange n).flatMap (fun t =>
      (a.tx t).blocks ++ accountTreeBlocks ((a.tx t).apply (T t.castSucc)))

/-- The new root is the one the old openings determine, and the transaction is not from
a position to itself (unless it moves nothing). -/
def FollowsOldOpenings (tx : Transaction) (after : Digest) : Prop :=
  after = tx.rootAfter ∧ (tx.senderPosition ≠ tx.receiverPosition ∨ tx.amount = 0)

/-- Blocks of the trees are hashed. -/
theorem treeBlocks_hashed (a : Assignment n) (T : Fin (n + 1) → StateTree) (t : Fin (n + 1)) :
    accountTreeBlocks (T t) ⊆ hashedBlocks a T := by
  intro b hb
  exact List.mem_append_left _ (List.mem_flatMap.mpr ⟨t, List.mem_finRange t, hb⟩)

/-- Blocks of the transactions are hashed. -/
theorem txBlocks_hashed (a : Assignment n) (T : Fin (n + 1) → StateTree) (t : Fin n) :
    (a.tx t).blocks ⊆ hashedBlocks a T := by
  intro b hb
  exact List.mem_append_right _
    (List.mem_flatMap.mpr ⟨t, List.mem_finRange t, List.mem_append_left _ hb⟩)

theorem appliedBlocks_hashed (a : Assignment n) (T : Fin (n + 1) → StateTree) (t : Fin n) :
    accountTreeBlocks ((a.tx t).apply (T t.castSucc)) ⊆ hashedBlocks a T := by
  intro b hb
  exact List.mem_append_right _
    (List.mem_flatMap.mpr ⟨t, List.mem_finRange t, List.mem_append_right _ hb⟩)

/-! ## §2. One transaction of the batch. -/

section

variable {a : Assignment n} {T : Fin (n + 1) → StateTree} (ha : Outsource a)
  (hroots : ∀ t, stateRoot (T t) = a.intermediate_roots t)
  (hfree : ¬ Collision (hashedBlocks a T) (hashedBlocks a T))

include ha hroots hfree

/-- The batch opens the old leaves. -/
theorem openings_of_batch (t : Fin n) : OldOpenings (a.tx t) (T t.castSucc) := by
  refine old_openings ?_ (fun hc => hfree (hc.mono (txBlocks_hashed a T t)
    (treeBlocks_hashed a T t.castSucc)))
  rw [hroots]
  exact (ha.process t).oldRoot

/-- The next tree is the intended one iff the next root is the one the old openings
determine. -/
theorem step_iff (t : Fin n) :
    T t.succ = (a.tx t).apply (T t.castSucc)
      ↔ a.intermediate_roots t.succ = (a.tx t).rootAfter := by
  have hroot := stateRoot_apply (openings_of_batch ha hroots hfree t)
  constructor
  · intro hstep
    rw [← hroots, hstep, hroot]
  · intro hafter
    refine account_root_inj _ _ ?_ (fun hc => hfree (hc.mono (treeBlocks_hashed a T t.succ)
      (appliedBlocks_hashed a T t)))
    exact (hroots t.succ).trans (hafter.trans hroot.symm)

/-- **One transfer** changes the total by its flags. -/
theorem total_step (t : Fin n) (hstep : T t.succ = (a.tx t).apply (T t.castSucc)) :
    totalBalance (T t.succ) = totalBalance (T t.castSucc)
      + (if (a.tx t).senderPosition = (a.tx t).receiverPosition then (a.tx t).amount.toNat
        else 0) := by
  rw [hstep]
  exact total_apply (openings_of_batch ha hroots hfree t) (ha.process t).transition

/-! ## §3. The whole batch. -/

/-- Along intended transitions the total never falls, so equal ends mean that no
transaction created anything. -/
theorem total_conserved_iff (hstep : ∀ t, T t.succ = (a.tx t).apply (T t.castSucc)) :
    totalBalance (T (Fin.last n)) = totalBalance (T 0)
      ↔ ∀ t, (a.tx t).senderPosition ≠ (a.tx t).receiverPosition ∨ (a.tx t).amount = 0 := by
  have hgain := fun t => total_step ha hroots hfree t (hstep t)
  constructor
  · intro htotal t
    have hmono : Monotone (fun k => totalBalance (T k)) := by
      refine Fin.monotone_iff_le_succ.mpr (fun t => ?_)
      rw [hgain t]
      exact Nat.le_add_right _ _
    -- squeezed between the two ends
    have hlow : totalBalance (T 0) ≤ totalBalance (T t.castSucc) := hmono (Fin.zero_le _)
    have hhigh : totalBalance (T t.succ) ≤ totalBalance (T (Fin.last n)) := hmono (Fin.le_last _)
    have hzero := hgain t
    by_cases hpos : (a.tx t).senderPosition = (a.tx t).receiverPosition
    · right
      rw [if_pos hpos] at hzero
      refine BitVec.eq_of_toNat_eq ?_
      show (a.tx t).amount.toNat = 0
      omega
    · exact Or.inl hpos
  · intro hnone
    have hsame : ∀ t : Fin n, totalBalance (T t.succ) = totalBalance (T t.castSucc) := by
      intro t
      rw [hgain t]
      rcases hnone t with hpos | hamount
      · rw [if_neg hpos, Nat.add_zero]
      · simp [hamount]
    have hmono : Monotone (fun k => totalBalance (T k)) :=
      Fin.monotone_iff_le_succ.mpr (fun t => (hsame t).ge)
    have hanti : Antitone (fun k => totalBalance (T k)) :=
      Fin.antitone_iff_succ_le.mpr (fun t => (hsame t).le)
    exact Nat.le_antisymm (hanti (Fin.zero_le _)) (hmono (Fin.zero_le _))

end

/-! ## §4. Two trees of equal accounts.

Every account has key 1; in `fives` each holds 5, in `crooked` the right half holds 7. -/

/-- An account with balance 5. -/
def five : Account := ⟨vecBE 32 (1 : BitVec 256), 5⟩

/-- The same with balance 7. -/
def seven : Account := ⟨vecBE 32 (1 : BitVec 256), 7⟩

/-- The level digests of the tree of fives, leaf first. -/
def fiveLevels : List Digest := [
  ⟨0x3faf8736, 0x5cf855b0, 0x9fbed033, 0xa1f4a1b8, 0x89acd300, 0xa8260d6f, 0x5767c3f4, 0xfb964e30⟩,
  ⟨0x236c9890, 0xa4110ec3, 0xea741e56, 0xdd3333c2, 0x44d35426, 0x20b95fc0, 0x2d2818f5, 0x71bfa20d⟩,
  ⟨0x91c6383e, 0xe5209ab9, 0x1fb2fa7d, 0x5698a765, 0x958b5262, 0x689ab265, 0xda85df2b, 0x7f56c624⟩,
  ⟨0x1c6f51e6, 0x3245c4ce, 0x2e02c25b, 0x6cb62ea2, 0x916a9654, 0xa83495c3, 0x9ebf5b3d, 0x89f6c377⟩,
  ⟨0x6bd4e5c9, 0x65e563b7, 0xa50869c3, 0x1f04dec4, 0x1a5502e4, 0x42d80a1b, 0x8e1c78e4, 0x61a076c3⟩,
  ⟨0x1adb2f40, 0xfc84ddb9, 0x56b65215, 0x87d78970, 0x5ebeb3b2, 0x093cabf8, 0xc441615b, 0xf3d413b8⟩,
  ⟨0x485d4f7e, 0x0297a91e, 0x13774236, 0x2b8db98e, 0x8cf34949, 0x34ebc718, 0x94c05468, 0x819041ac⟩,
  ⟨0xa9e0fa0e, 0xb7799b44, 0x5381fa3d, 0x9c9fbe53, 0x4cfd14bf, 0xe02df853, 0x59a7c0f0, 0x8ba33f4e⟩,
  ⟨0x835eb0f8, 0x1757c64c, 0x7d6f7486, 0xf5cdc903, 0x5222aa44, 0x4e7db51c, 0x52e058bd, 0x394a6487⟩]

/-- The level digests of the tree of sevens, one level less. -/
def sevenLevels : List Digest := [
  ⟨0xb0e58a4b, 0x4451c9e9, 0xb2970788, 0x0dd49a4e, 0x77972646, 0xd824277f, 0xeb296e18, 0xfb889810⟩,
  ⟨0x9a94aa78, 0x9b1a19e6, 0x02c14733, 0xab18aecf, 0x93cc2a28, 0x19b8a3d9, 0x63d84c5a, 0x0af0bfea⟩,
  ⟨0x18f58d2c, 0xbcadf918, 0xb19e064f, 0x57c71ddb, 0x0c20b74f, 0xf74a7ff1, 0x04883b69, 0xcb5f74cd⟩,
  ⟨0x63b337a1, 0x14f815c4, 0x6faca31e, 0xf3cbd2ec, 0xfbc5b2f8, 0x928606c7, 0x5d2c732c, 0x96b8153e⟩,
  ⟨0x6f57e52b, 0x455431d9, 0xc966b454, 0xea0300cb, 0xa4271008, 0xe45d0f36, 0xd0f8279c, 0xdaddfb3b⟩,
  ⟨0xb5488512, 0xbff3b139, 0x23283e78, 0xc426eb9c, 0x2cdc0d96, 0x3855ac70, 0x8ece0409, 0x98bda544⟩,
  ⟨0xf134384e, 0xef366e89, 0x853ddf91, 0x113e4f23, 0xa05e9295, 0xaab9ad72, 0x8619074b, 0xe3699514⟩,
  ⟨0xc8f9a8f8, 0xd4305317, 0xcffa146e, 0xe83a3425, 0x150f500c, 0x75d816eb, 0x7a939157, 0xb9205b08⟩]

/-- The root of the crooked tree. -/
def crookedRoot : Digest :=
  ⟨0x294030d2, 0xbfcfb4cd, 0xcb1b14f5, 0x7f7869ec, 0xd1cbaaf9, 0x840c2939, 0x577b5bf1, 0x8c9efafd⟩

/-- Level `k` of a table of level digests. -/
def level (ds : List Digest) (k : Nat) : Digest := ds.getD k H_INIT

/-- `ds` tabulates the level digests of the tree with `a` at every leaf, up to height `h`. -/
structure Levels (a : Account) (ds : List Digest) (h : Nat) : Prop where
  leaf : computeLeafHash a = level ds 0
  node : ∀ k < h, nodeHash (level ds k, level ds k) = level ds (k + 1)

/-- The root of a uniform tree. -/
theorem Levels.root {a : Account} {ds : List Digest} {h : Nat} (hl : Levels a ds h) :
    ∀ {k : Nat}, k ≤ h → (Tree.replicate a k).root computeLeafHash nodeHash = level ds k
  | 0, _ => hl.leaf
  | k + 1, hk => by
    show nodeHash (_, _) = _
    rw [hl.root (Nat.le_of_succ_le hk), hl.node k hk]

/-- All hashes of the two trees, evaluated at once. -/
theorem tree_hashes :
    (computeLeafHash five = level fiveLevels 0
      ∧ ∀ k < 8, nodeHash (level fiveLevels k, level fiveLevels k) = level fiveLevels (k + 1))
    ∧ (computeLeafHash seven = level sevenLevels 0
      ∧ ∀ k < 7, nodeHash (level sevenLevels k, level sevenLevels k) = level sevenLevels (k + 1))
    ∧ nodeHash (level fiveLevels 7, level sevenLevels 7) = crookedRoot := by
  decide +kernel

/-- The account after it paid two. -/
def three : Account := ⟨vecBE 32 (1 : BitVec 256), 3⟩

/-- The leaf of balance 3. -/
def threeHash : Digest :=
  ⟨0xea07967c, 0xfcb36ce1, 0x27c216f8, 0xaa955932, 0xcb06e218, 0x1fad06ab, 0x0c868a71, 0xe919dfdd⟩

/-- The digests over a three and a seven among fives, level by level. -/
def paidLevels : List Digest := [
  ⟨0xaae1c0ad, 0x20e97418, 0x8f2b68b4, 0xeec75591, 0xd9fb4b10, 0x5e7b79e7, 0x09e8038e, 0xda585e4d⟩,
  ⟨0x4423b23c, 0xa1def00e, 0xe2be8393, 0x3a7ae2f9, 0x4636267c, 0x627d0ae7, 0xb285e87b, 0x52a00560⟩,
  ⟨0x4f7e451b, 0x18c2386f, 0x067fee22, 0xbc9c8b8f, 0x87de9391, 0xcd88c431, 0xde9a73fc, 0xb90d1a15⟩,
  ⟨0xaf6cc280, 0x9527e727, 0xb5af056f, 0x075b3288, 0xab7faa29, 0xf21412b3, 0x796aa618, 0xce06c5f6⟩,
  ⟨0x82d2cf2a, 0x33d4a31f, 0x1019f7ea, 0xa6427488, 0x080be33c, 0xd5e90439, 0x33f9644a, 0xdabb7fee⟩,
  ⟨0x4fb7eb3d, 0x8d4966d4, 0x58f429a1, 0x2ba5f65f, 0xea8c58a6, 0x472845eb, 0xc88d8b39, 0x2b52bb40⟩,
  ⟨0xac720549, 0xd6c78f64, 0x973ab610, 0xca816a78, 0xf23c9371, 0x95e328fc, 0x2d7a56ff, 0x672746ac⟩,
  ⟨0xa1bf4a90, 0x8db73920, 0x24b63bf1, 0xc8163a4b, 0x92ebc408, 0x95ebf72c, 0x3754b15c, 0x9816778d⟩]

theorem paid_hashes : computeLeafHash three = threeHash
    ∧ nodeHash (threeHash, level sevenLevels 0) = level paidLevels 0
    ∧ ∀ k < 7, nodeHash (level paidLevels k, level fiveLevels (k + 1))
      = level paidLevels (k + 1) := by
  decide +kernel

theorem five_levels : Levels five fiveLevels 8 := ⟨tree_hashes.1.1, tree_hashes.1.2⟩

theorem seven_levels : Levels seven sevenLevels 7 := ⟨tree_hashes.2.1.1, tree_hashes.2.1.2⟩

theorem hash_crooked : nodeHash (level fiveLevels 7, level sevenLevels 7) = crookedRoot :=
  tree_hashes.2.2

/-- All leaves five. -/
def fives : StateTree := Tree.replicate five 8

/-- The left half five, the right half seven. -/
def crooked : StateTree := .node (Tree.replicate five 7) (Tree.replicate seven 7)

/-- The eighteen blocks the two trees are made of. -/
def pairBlocks (ds : List Digest) (h : Nat) : List (List Byte) :=
  (List.range h).map (fun k => nodeBlock (level ds k, level ds k))

/-- The blocks hashed in the two trees. -/
def treesBlocks : List (List Byte) :=
  leafBlock five :: leafBlock seven :: nodeBlock (level fiveLevels 7, level sevenLevels 7)
    :: (pairBlocks fiveLevels 8 ++ pairBlocks sevenLevels 7)

theorem Levels.digests {a : Account} {ds : List Digest} {h : Nat} (hl : Levels a ds h) :
    (pairBlocks ds h).map computeSHA256 = (List.range h).map (fun k => level ds (k + 1)) := by
  rw [pairBlocks, List.map_map]
  refine List.map_congr_left (fun k hk => ?_)
  show computeSHA256 (nodeBlock _) = _
  rw [← nodeHash_eq, hl.node k (List.mem_range.mp hk)]

theorem treesBlocks_digests : treesBlocks.map computeSHA256
    = level fiveLevels 0 :: level sevenLevels 0 :: crookedRoot
      :: ((List.range 8).map (fun k => level fiveLevels (k + 1))
        ++ (List.range 7).map (fun k => level sevenLevels (k + 1))) := by
  rw [treesBlocks, List.map_cons, List.map_cons, List.map_cons, List.map_append,
    five_levels.digests, seven_levels.digests, ← computeLeafHash_eq, ← computeLeafHash_eq,
    ← nodeHash_eq, five_levels.leaf, seven_levels.leaf, hash_crooked]

/-- No two of the blocks collide. -/
theorem treesBlocks_no_collision : ¬ Collision treesBlocks treesBlocks :=
  not_collision_of_digests _ treesBlocks_digests (by decide)

theorem Levels.treeBlocks {a : Account} {ds : List Digest} {h k : Nat} (hl : Levels a ds h)
    (hk : k ≤ h) : accountTreeBlocks (Tree.replicate a k) ⊆ leafBlock a :: pairBlocks ds h := by
  refine List.Subset.trans (blocks_replicate_subset computeLeafHash leafBlock a k) ?_
  refine List.cons_subset_cons _ ?_
  intro b hb
  obtain ⟨j, hj, rfl⟩ := List.mem_map.mp hb
  have hjk : j < k := List.mem_range.mp (List.mem_reverse.mp hj)
  rw [hl.root (by omega)]
  exact List.mem_map.mpr ⟨j, List.mem_range.mpr (by omega), rfl⟩

theorem five_part : leafBlock five :: pairBlocks fiveLevels 8 ⊆ treesBlocks := by
  refine List.cons_subset.mpr ⟨List.mem_cons_self .., ?_⟩
  intro b hb
  exact List.mem_cons_of_mem _ (List.mem_cons_of_mem _
    (List.mem_cons_of_mem _ (List.mem_append_left _ hb)))

theorem seven_part : leafBlock seven :: pairBlocks sevenLevels 7 ⊆ treesBlocks := by
  refine List.cons_subset.mpr ⟨List.mem_cons_of_mem _ (List.mem_cons_self ..), ?_⟩
  intro b hb
  exact List.mem_cons_of_mem _ (List.mem_cons_of_mem _
    (List.mem_cons_of_mem _ (List.mem_append_right _ hb)))

theorem fives_blocks : accountTreeBlocks fives ⊆ treesBlocks :=
  List.Subset.trans (five_levels.treeBlocks (Nat.le_refl 8)) five_part

/-- The blocks of a node are its own and those of its subtrees. -/
theorem nodeBlocks_subset {k : Nat} {l r : Tree Account k} {S : List (List Byte)}
    (hnode : nodeBlock (l.root computeLeafHash nodeHash, r.root computeLeafHash nodeHash) ∈ S)
    (hl : accountTreeBlocks l ⊆ S) (hr : accountTreeBlocks r ⊆ S) :
    accountTreeBlocks (.node l r) ⊆ S := by
  intro b hb
  rcases List.mem_append.mp hb with hleaf | hpair
  · rw [show (Merkle.Tree.node l r).leaves = l.leaves ++ r.leaves from rfl, List.map_append,
      List.mem_append] at hleaf
    rcases hleaf with h | h
    · exact hl (List.mem_append_left _ h)
    · exact hr (List.mem_append_left _ h)
  · rw [treeBlocks, show (Merkle.Tree.node l r).nodePairs computeLeafHash nodeHash
      = (l.root computeLeafHash nodeHash, r.root computeLeafHash nodeHash)
        :: (l.nodePairs computeLeafHash nodeHash ++ r.nodePairs computeLeafHash nodeHash) from rfl,
      List.map_cons, List.map_append, List.mem_cons, List.mem_append] at hpair
    rcases hpair with h | h | h
    · exact h ▸ hnode
    · exact hl (List.mem_append_right _ h)
    · exact hr (List.mem_append_right _ h)

theorem crooked_blocks : accountTreeBlocks crooked ⊆ treesBlocks := by
  refine nodeBlocks_subset ?_ ?_ ?_
  · rw [five_levels.root (by decide), seven_levels.root (by decide)]
    exact List.mem_cons_of_mem _ (List.mem_cons_of_mem _ (List.mem_cons_self ..))
  · exact List.Subset.trans (five_levels.treeBlocks (by decide)) five_part
  · exact List.Subset.trans (seven_levels.treeBlocks (Nat.le_refl 7)) seven_part

/-! ## §5. A transaction of amount zero on the leftmost account. -/

/-- The path to the first leaf. -/
def leftmost : Vector Bool STATE_TREE_HEIGHT := Vector.replicate 8 false

/-- Siblings of the leftmost leaf in `fives`. -/
def fivesSiblings : Vector Digest STATE_TREE_HEIGHT :=
  #v[level fiveLevels 0, level fiveLevels 1, level fiveLevels 2, level fiveLevels 3,
    level fiveLevels 4, level fiveLevels 5, level fiveLevels 6, level fiveLevels 7]

/-- Siblings of the leftmost leaf in `crooked`. -/
def crookedSiblings : Vector Digest STATE_TREE_HEIGHT :=
  #v[level fiveLevels 0, level fiveLevels 1, level fiveLevels 2, level fiveLevels 3,
    level fiveLevels 4, level fiveLevels 5, level fiveLevels 6, level sevenLevels 7]

/-- The leftmost account pays itself nothing; the new openings use `newSiblings`. -/
def zeroTx (newSiblings : Vector Digest STATE_TREE_HEIGHT) : Transaction where
  fpk_sender := five.fpk
  fpk_receiver := five.fpk
  amount := 0
  signature := Vector.replicate 64 0
  sender_balance_old := 5
  receiver_balance_old := 5
  sender_merkle_old := fivesSiblings
  sender_direction_old := leftmost
  receiver_merkle_old := fivesSiblings
  receiver_direction_old := leftmost
  sender_merkle_new := newSiblings
  sender_direction_new := leftmost
  receiver_merkle_new := newSiblings
  receiver_direction_new := leftmost

theorem zeroTx_senderNew (siblings : Vector Digest STATE_TREE_HEIGHT) :
    (zeroTx siblings).senderNew = five :=
  congrArg (Account.mk five.fpk) (by decide : (5 : BitVec 64) - 0 = 5)

theorem zeroTx_receiverNew (siblings : Vector Digest STATE_TREE_HEIGHT) :
    (zeroTx siblings).receiverNew = five :=
  congrArg (Account.mk five.fpk) (by decide : (5 : BitVec 64) + 0 = 5)

theorem zeroTx_audited (siblings : Vector Digest STATE_TREE_HEIGHT) :
    auditingFunction (zeroTx siblings).fpk_sender := by
  intro black hblack
  rw [List.eq_of_mem_replicate hblack]
  show ((vecBE 32 (1 : BitVec 256)).toList.zip _).foldl _ true = false
  rfl

/-- A zero transfer needs one opening. -/
theorem zeroTx_transition {siblings : Vector Digest STATE_TREE_HEIGHT} {after : Digest}
    (h : verifyMerkleProof (computeLeafHash five) siblings leftmost after) :
    stateTransition (zeroTx siblings) after := by
  rw [stateTransition, zeroTx_senderNew, zeroTx_receiverNew]
  exact ⟨by show (0 : BitVec 64) ≤ 5; decide, by show (5 : BitVec 64) ≤ 5; decide, h, h⟩

/-- A zero transfer changes nothing. -/
theorem zeroTx_apply (siblings : Vector Digest STATE_TREE_HEIGHT) :
    (zeroTx siblings).apply fives = fives := by
  rw [Transaction.apply, zeroTx_senderNew, zeroTx_receiverNew, fives, Tree.set_replicate,
    Tree.set_replicate]

theorem fives_path : pathOf fivesSiblings leftmost
    = opening computeLeafHash nodeHash fives (position leftmost) := by
  have hpos : position leftmost = List.replicate 8 false := by decide
  rw [hpos, fives, opening_replicate]
  have hlevels : (List.range 8).reverse.map
      (fun k => (false, (Tree.replicate five k).root computeLeafHash nodeHash))
      = (List.range 8).reverse.map (fun k => (false, level fiveLevels k)) := by
    refine List.map_congr_left (fun k hk => ?_)
    rw [List.mem_reverse, List.mem_range] at hk
    rw [five_levels.root (by omega)]
  rw [hlevels]
  exact pathOf_replicate fivesSiblings false

theorem crooked_path : pathOf crookedSiblings leftmost
    = opening computeLeafHash nodeHash crooked (position leftmost) := by
  have hpos : position leftmost = false :: List.replicate 7 false := by decide
  have hlevels : (List.range 7).reverse.map
      (fun k => (false, (Tree.replicate five k).root computeLeafHash nodeHash))
      = (List.range 7).reverse.map (fun k => (false, level fiveLevels k)) := by
    refine List.map_congr_left (fun k hk => ?_)
    rw [List.mem_reverse, List.mem_range] at hk
    rw [five_levels.root (by omega)]
  rw [hpos]
  show _ = (false, (Tree.replicate seven 7).root computeLeafHash nodeHash)
    :: opening computeLeafHash nodeHash (Tree.replicate five 7) (List.replicate 7 false)
  rw [opening_replicate, hlevels, seven_levels.root (by decide)]
  exact pathOf_replicate crookedSiblings false

theorem fives_leftmost : fives.get (position leftmost) = five := Tree.get_replicate five 8 _

theorem crooked_leftmost : crooked.get (position leftmost) = five := by
  have hpos : position leftmost = false :: List.replicate 7 false := by decide
  rw [hpos]
  exact Tree.get_replicate five 7 _

/-- A batch of the one transaction, into a tree with root `after`. -/
def zeroBatch (newSiblings : Vector Digest STATE_TREE_HEIGHT) (after : Digest) : Assignment 1 where
  root_old := stateRoot fives
  root_new := after
  tx := fun _ => zeroTx newSiblings
  intermediate_roots := ![stateRoot fives, after]

section

variable {t : StateTree} {siblings : Vector Digest STATE_TREE_HEIGHT}
  (hleaf : t.get (position leftmost) = five)
  (hpath : pathOf siblings leftmost = opening computeLeafHash nodeHash t (position leftmost))

include hleaf hpath

/-- The circuit is satisfied into any tree with a five at the leftmost leaf. -/
theorem zeroBatch_outsource : Outsource (zeroBatch siblings (stateRoot t)) := by
  have hold : verifyMerkleProof (computeLeafHash five) fivesSiblings leftmost
      (stateRoot fives) := by
    have h := verifyMerkleProof_opening fives_path
    rwa [fives_leftmost] at h
  have hnew : verifyMerkleProof (computeLeafHash five) siblings leftmost (stateRoot t) := by
    have h := verifyMerkleProof_opening hpath
    rwa [hleaf] at h
  refine ⟨rfl, ?_, rfl⟩
  intro t
  have ht : t = 0 := Subsingleton.elim _ _
  subst ht
  exact ⟨zeroTx_audited siblings, trivial, ⟨hold, hold⟩, zeroTx_transition hnew⟩

theorem zeroBatch_blocks (hblocks : accountTreeBlocks t ⊆ treesBlocks) :
    hashedBlocks (zeroBatch siblings (stateRoot t)) ![fives, t] ⊆ treesBlocks := by
  have hold : accountPathBlocks five fivesSiblings leftmost ⊆ treesBlocks := by
    have h := accountPathBlocks_opening fives_path
    rw [fives_leftmost] at h
    exact List.Subset.trans h fives_blocks
  have hnew : accountPathBlocks five siblings leftmost ⊆ treesBlocks := by
    have h := accountPathBlocks_opening hpath
    rw [hleaf] at h
    exact List.Subset.trans h hblocks
  have htx : (zeroTx siblings).blocks ⊆ treesBlocks := by
    rw [Transaction.blocks, zeroTx_senderNew, zeroTx_receiverNew]
    exact List.append_subset.mpr ⟨List.append_subset.mpr ⟨List.append_subset.mpr
      ⟨hold, hold⟩, hnew⟩, hnew⟩
  intro b hb
  rcases List.mem_append.mp hb with h | h
  · obtain ⟨k, -, hk⟩ := List.mem_flatMap.mp h
    fin_cases k
    · exact fives_blocks hk
    · exact hblocks hk
  · obtain ⟨k, -, hk⟩ := List.mem_flatMap.mp h
    have hk0 : k = 0 := Subsingleton.elim _ _
    subst hk0
    rcases List.mem_append.mp hk with hk | hk
    · exact htx hk
    · have hk' : b ∈ accountTreeBlocks ((zeroTx siblings).apply fives) := hk
      rw [zeroTx_apply] at hk'
      exact fives_blocks hk'

theorem zeroBatch_no_collision (hblocks : accountTreeBlocks t ⊆ treesBlocks) :
    ¬ Collision (hashedBlocks (zeroBatch siblings (stateRoot t)) ![fives, t])
      (hashedBlocks (zeroBatch siblings (stateRoot t)) ![fives, t]) := by
  have hsub := zeroBatch_blocks hleaf hpath hblocks
  exact fun hc => treesBlocks_no_collision (hc.mono hsub hsub)

end

theorem zeroBatch_roots (siblings : Vector Digest STATE_TREE_HEIGHT) (t : StateTree) :
    ∀ k, stateRoot (![fives, t] k) = (zeroBatch siblings (stateRoot t)).intermediate_roots k := by
  intro k
  fin_cases k <;> rfl

/-! ## §6. A payment of two between neighbours.

The leftmost account of `fives` pays the one next to it. -/

/-- Direction bits of the leaf next to the leftmost. -/
def neighbour : Vector Bool STATE_TREE_HEIGHT :=
  #v[true, false, false, false, false, false, false, false]

/-- A payment of 2 to the neighbour. -/
def payment : Transaction := transferIn fives leftmost neighbour 2

/-- A three and a seven, and fives up to height `k + 1`. -/
def paidTree : (k : Nat) → Tree Account (k + 1)
  | 0 => .node (.leaf three) (.leaf seven)
  | k + 1 => .node (paidTree k) (Tree.replicate five (k + 1))

/-- The payment's tree. -/
theorem payment_apply : payment.apply fives = paidTree 7 := by
  have hthree : payment.senderNew = three :=
    congrArg (Account.mk five.fpk) (by decide : (5 : BitVec 64) - 2 = 3)
  have hseven : payment.receiverNew = seven :=
    congrArg (Account.mk five.fpk) (by decide : (5 : BitVec 64) + 2 = 7)
  rw [Transaction.apply, hthree, hseven]
  rfl

theorem root_paidTree : ∀ {k : Nat}, k ≤ 7 →
    (paidTree k).root computeLeafHash nodeHash = level paidLevels k
  | 0, _ => by
    show nodeHash (computeLeafHash three, computeLeafHash seven) = _
    rw [paid_hashes.1, seven_levels.leaf, paid_hashes.2.1]
  | k + 1, hk => by
    show nodeHash (_, _) = _
    rw [root_paidTree (Nat.le_of_succ_le hk), five_levels.root (by omega),
      paid_hashes.2.2 k (by omega)]

/-- The nine blocks that the payment adds to those of `treesBlocks`. -/
def paidBlocks : List (List Byte) :=
  leafBlock three :: nodeBlock (threeHash, level sevenLevels 0)
    :: (List.range 7).map (fun k => nodeBlock (level paidLevels k, level fiveLevels (k + 1)))

theorem paidBlocks_digests : paidBlocks.map computeSHA256
    = threeHash :: level paidLevels 0 :: (List.range 7).map (fun k => level paidLevels (k + 1)) := by
  have hnodes : ((List.range 7).map
      (fun k => nodeBlock (level paidLevels k, level fiveLevels (k + 1)))).map computeSHA256
      = (List.range 7).map (fun k => level paidLevels (k + 1)) := by
    rw [List.map_map]
    refine List.map_congr_left fun k hk => ?_
    show computeSHA256 (nodeBlock _) = _
    rw [← nodeHash_eq, paid_hashes.2.2 k (List.mem_range.mp hk)]
  rw [paidBlocks, List.map_cons, List.map_cons, hnodes, ← computeLeafHash_eq, ← nodeHash_eq,
    paid_hashes.1, paid_hashes.2.1]

/-- No two of these collide either. -/
theorem paidBlocks_no_collision :
    ¬ Collision (paidBlocks ++ treesBlocks) (paidBlocks ++ treesBlocks) := by
  have hdigests := (List.map_append).trans
    (congrArg₂ (· ++ ·) paidBlocks_digests treesBlocks_digests)
  exact not_collision_of_digests _ hdigests (by decide)

theorem paidTree_blocks : ∀ {k : Nat}, k ≤ 7 →
    accountTreeBlocks (paidTree k) ⊆ paidBlocks ++ treesBlocks
  | 0, _ => by
    refine nodeBlocks_subset ?_ ?_ ?_
    · show nodeBlock (computeLeafHash three, computeLeafHash seven) ∈ _
      rw [paid_hashes.1, seven_levels.leaf]
      exact List.mem_cons_of_mem _ List.mem_cons_self
    · exact List.cons_subset.mpr ⟨List.mem_cons_self, List.nil_subset _⟩
    · exact List.cons_subset.mpr ⟨List.mem_append_right _ (seven_part List.mem_cons_self),
        List.nil_subset _⟩
  | k + 1, hk => by
    refine nodeBlocks_subset ?_ (paidTree_blocks (Nat.le_of_succ_le hk)) ?_
    · rw [root_paidTree (Nat.le_of_succ_le hk), five_levels.root (by omega)]
      refine List.mem_append_left _ (List.mem_cons_of_mem _ (List.mem_cons_of_mem _ ?_))
      exact List.mem_map.mpr ⟨k, List.mem_range.mpr (by omega), rfl⟩
    · exact List.Subset.trans (List.Subset.trans (five_levels.treeBlocks (by omega)) five_part)
        (List.subset_append_right _ _)

/-- The batch of the one payment. -/
def paymentBatch : Assignment 1 where
  root_old := stateRoot fives
  root_new := stateRoot (payment.apply fives)
  tx := fun _ => payment
  intermediate_roots := ![stateRoot fives, stateRoot (payment.apply fives)]

theorem neighbours_differ : position leftmost ≠ position neighbour := by decide

/-- The payment satisfies the circuit. -/
theorem paymentBatch_outsource : Outsource paymentBatch := by
  refine ⟨rfl, ?_, rfl⟩
  intro t
  obtain rfl : t = 0 := Subsingleton.elim _ _
  refine processTransaction_transferIn neighbours_differ ?_ ?_ ?_
  · rw [fives_leftmost]
    exact zeroTx_audited fivesSiblings
  · rw [fives_leftmost]
    decide
  · rw [show fives.get (position neighbour) = five from Tree.get_replicate five 8 _]
    decide

theorem paymentBatch_roots :
    ∀ k, stateRoot (![fives, payment.apply fives] k) = paymentBatch.intermediate_roots k := by
  intro k
  fin_cases k <;> rfl

theorem paymentBatch_no_collision :
    ¬ Collision (hashedBlocks paymentBatch ![fives, payment.apply fives])
      (hashedBlocks paymentBatch ![fives, payment.apply fives]) := by
  have hbefore : accountTreeBlocks fives ⊆ paidBlocks ++ treesBlocks :=
    List.Subset.trans fives_blocks (List.subset_append_right _ _)
  have hafter : accountTreeBlocks (payment.apply fives) ⊆ paidBlocks ++ treesBlocks := by
    rw [payment_apply]
    exact paidTree_blocks (Nat.le_refl 7)
  have hsub : hashedBlocks paymentBatch ![fives, payment.apply fives]
      ⊆ paidBlocks ++ treesBlocks := by
    intro b hb
    rcases List.mem_append.mp hb with h | h
    · obtain ⟨k, -, hk⟩ := List.mem_flatMap.mp h
      fin_cases k
      · exact hbefore hk
      · exact hafter hk
    · obtain ⟨k, -, hk⟩ := List.mem_flatMap.mp h
      obtain rfl : k = 0 := Subsingleton.elim _ _
      rcases List.mem_append.mp hk with hk | hk
      · exact List.append_subset.mpr ⟨hbefore, hafter⟩ (blocks_transferIn neighbours_differ hk)
      · exact hafter hk
  exact fun hc => paidBlocks_no_collision (hc.mono hsub hsub)

/-! ## §7. Soundness of a batch. -/

/-- **Soundness of a batch, exactly.** -/
theorem batch_sound_iff (a : Assignment n) (T : Fin (n + 1) → StateTree) (ha : Outsource a)
    (hroots : ∀ t, stateRoot (T t) = a.intermediate_roots t)
    (hfree : ¬ Collision (hashedBlocks a T) (hashedBlocks a T)) :
    BatchSound a T ↔ ∀ t, FollowsOldOpenings (a.tx t) (a.intermediate_roots t.succ) := by
  constructor
  · intro hsound t
    refine ⟨(step_iff ha hroots hfree t).mp (hsound.step t), ?_⟩
    exact (total_conserved_iff ha hroots hfree hsound.step).mp hsound.total t
  · intro hfollow
    have hstep : ∀ t, T t.succ = (a.tx t).apply (T t.castSucc) :=
      fun t => (step_iff ha hroots hfree t).mpr (hfollow t).1
    refine ⟨hstep, ?_, ?_⟩
    · intro t p hp hs hr
      rw [hstep t, get_apply_of_ne _ _ hp hs hr]
    · exact (total_conserved_iff ha hroots hfree hstep).mpr (fun t => (hfollow t).2)

/-- The payment of two is sound. -/
theorem payment_batch_sound :
    Outsource paymentBatch ∧ BatchSound paymentBatch ![fives, payment.apply fives] := by
  refine ⟨paymentBatch_outsource, (batch_sound_iff _ _ paymentBatch_outsource paymentBatch_roots
    paymentBatch_no_collision).mpr fun t => ?_⟩
  obtain rfl : t = 0 := Subsingleton.elim _ _
  have hopen := openings_of_batch paymentBatch_outsource paymentBatch_roots
    paymentBatch_no_collision 0
  exact ⟨stateRoot_apply hopen, .inl neighbours_differ⟩

/-- The circuit accepts the step from `fives` to `crooked`: 128 accounts the transaction
does not name go from 5 to 7. -/
theorem batch_not_sound : ¬ ∀ (n : Nat) (a : Assignment n) (T : Fin (n + 1) → StateTree),
    Outsource a → (∀ t, stateRoot (T t) = a.intermediate_roots t) →
    ¬ Collision (hashedBlocks a T) (hashedBlocks a T) → BatchSound a T := by
  intro hall
  have hsound := hall 1 _ ![fives, crooked] (zeroBatch_outsource crooked_leftmost crooked_path)
    (zeroBatch_roots crookedSiblings crooked)
    (zeroBatch_no_collision crooked_leftmost crooked_path crooked_blocks)
  have htotal : totalBalance crooked = totalBalance fives := hsound.total
  exact absurd htotal (by decide)

end HZKA.Psi
