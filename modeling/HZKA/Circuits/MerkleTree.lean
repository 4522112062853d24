/-
  HZKA.Circuits.MerkleTree
  ────────────
  **THE MERKLE GADGET** (`MerkleTreeCircuit.java`): the root spelled by a leaf
  digest, sibling digests and direction bits, all by level from the leaf up.

    • `conditionalSelect_eq` — the arithmetic swap selects;
    • `computeMerkleRoot_eq` — the gadget is `recompute` of the library along the
      same path read from the root down;
    • `nodeBlock_inj`, `leafBlock_inj` — node and leaf inputs fit one block, so
      nothing of them is cut off;
    • `verifyMerkleProof_sound` — an accepted opening of a tree is the true one, or
      two different blocks that were compressed collide;
    • `account_opening_sound`, `account_root_inj` — the same for account trees, with
      the leaf hash opened too;
    • `merkle_opening_correct` — openings by the index of the leaf, sound and complete.
-/
import HZKA.Circuits.SHA256
import HZKA.Lib.Merkle

namespace HZKA.Circuits

open HZKA.Lib HZKA.Lib.Merkle

/-! ## §1. Bytes of a digest. -/

/-- The words by index, as an array. -/
def Digest.word (words : Digest) : Nat → Word
  | 0 => words.w0
  | 1 => words.w1
  | 2 => words.w2
  | 3 => words.w3
  | 4 => words.w4
  | 5 => words.w5
  | 6 => words.w6
  | _ => words.w7

/-- Byte `byteIndex`, big-endian. -/
def extractByte (words : Digest) (byteIndex : Nat) : Byte :=
  (words.word (byteIndex / 4) >>> ((3 - byteIndex % 4) * 8)).setWidth 8

/-- The 32 bytes of a digest. -/
def Digest.bytes (words : Digest) : List Byte := (List.range 32).map (extractByte words)

/-- Eight words of four bytes. -/
theorem Digest.bytes_length (words : Digest) : words.bytes.length = 32 := by
  rw [Digest.bytes, List.length_map, List.length_range]

/-- Four consecutive bytes are a word. -/
theorem word_eq_of_bytes {d e : Digest} (h : d.bytes = e.bytes) {i : Nat} (hi : i < 8) :
    d.word i = e.word i := by
  have hbyte : ∀ j, j < 32 → extractByte d j = extractByte e j := by
    intro j hj
    exact List.map_inj_left.mp h j (List.mem_range.mpr hj)
  refine bytesBE_inj (n := 4) ?_
  unfold bytesBE
  refine List.map_congr_left (fun j hj => ?_)
  have hj4 : j < 4 := List.mem_range.mp hj
  have hb := hbyte (4 * i + j) (by omega)
  unfold extractByte at hb
  have hdiv : (4 * i + j) / 4 = i := by omega
  have hmod : (4 * i + j) % 4 = j := by omega
  rw [hdiv, hmod, Nat.mul_comm] at hb
  have hsub : 8 * (4 - 1 - j) = 8 * (3 - j) := by omega
  rw [hsub]
  exact hb

/-- **A digest is determined by its bytes.** -/
theorem Digest.bytes_inj {d e : Digest} (h : d.bytes = e.bytes) : d = e := by
  obtain ⟨d0, d1, d2, d3, d4, d5, d6, d7⟩ := d
  obtain ⟨e0, e1, e2, e3, e4, e5, e6, e7⟩ := e
  rw [show d0 = e0 from word_eq_of_bytes h (i := 0) (by decide),
    show d1 = e1 from word_eq_of_bytes h (i := 1) (by decide),
    show d2 = e2 from word_eq_of_bytes h (i := 2) (by decide),
    show d3 = e3 from word_eq_of_bytes h (i := 3) (by decide),
    show d4 = e4 from word_eq_of_bytes h (i := 4) (by decide),
    show d5 = e5 from word_eq_of_bytes h (i := 5) (by decide),
    show d6 = e6 from word_eq_of_bytes h (i := 6) (by decide),
    show d7 = e7 from word_eq_of_bytes h (i := 7) (by decide)]

/-- A digest as one 256-bit word, most significant byte first. -/
def Digest.toWord (words : Digest) : BitVec 256 := BitVec.ofNat 256 (natBE words.bytes)

theorem Digest.toNat_toWord (words : Digest) : words.toWord.toNat = natBE words.bytes := by
  have hlt := natBE_lt words.bytes
  rw [Digest.bytes_length] at hlt
  rw [Digest.toWord, BitVec.toNat_ofNat]
  exact Nat.mod_eq_of_lt hlt

/-- A digest is its word. -/
theorem Digest.toWord_inj {d e : Digest} (h : d.toWord = e.toWord) : d = e := by
  refine Digest.bytes_inj (natBE_inj (by rw [Digest.bytes_length, Digest.bytes_length]) ?_)
  rw [← Digest.toNat_toWord, ← Digest.toNat_toWord, h]

namespace MerkleTree

open SHA256

/-! ## §2. The gadget. -/

/-- `bit * (a - b) + b`, sixteen bits wide, trimmed to eight. -/
def conditionalSelect (bit : Bool) (a b : Byte) : Byte :=
  let bitAsInt : BitVec 16 := if bit then 1 else 0
  let diff := a.setWidth 16 - b.setWidth 16
  (bitAsInt * diff + b.setWidth 16).setWidth 8

/-- Selection by a bit is a choice. -/
theorem conditionalSelect_eq (bit : Bool) (a b : Byte) :
    conditionalSelect bit a b = if bit then a else b := by
  cases bit with
  | true =>
    have h : ((1 : BitVec 16) * (a.setWidth 16 - b.setWidth 16) + b.setWidth 16) = a.setWidth 16 := by
      rw [one_mul, sub_add_cancel]
    show ((1 : BitVec 16) * (a.setWidth 16 - b.setWidth 16) + b.setWidth 16).setWidth 8 = a
    rw [h, BitVec.setWidth_setWidth_of_le a (by decide), BitVec.setWidth_eq]
  | false =>
    have h : ((0 : BitVec 16) * (a.setWidth 16 - b.setWidth 16) + b.setWidth 16) = b.setWidth 16 := by
      rw [zero_mul, zero_add]
    show ((0 : BitVec 16) * (a.setWidth 16 - b.setWidth 16) + b.setWidth 16).setWidth 8 = b
    rw [h, BitVec.setWidth_setWidth_of_le b (by decide), BitVec.setWidth_eq]

/-- The 64 bytes hashed at one level. -/
def levelInput (directionBit : Bool) (currentHash sibling : Digest) : List Byte :=
  (List.range 32).map (fun j =>
      conditionalSelect directionBit (extractByte sibling j) (extractByte currentHash j))
    ++ (List.range 32).map (fun j =>
      conditionalSelect directionBit (extractByte currentHash j) (extractByte sibling j))

/-- The root of a leaf with its siblings and direction bits, leaf level first. -/
def computeMerkleRoot {treeHeight : Nat} (leaf : Digest) (siblings : Vector Digest treeHeight)
    (directionBits : Vector Bool treeHeight) : Digest :=
  (siblings.zip directionBits).toList.foldl
    (fun currentHash level => hash (levelInput level.2 currentHash level.1)) leaf

/-- The constraint that the computed root is the expected one. -/
def verifyMerkleProof {treeHeight : Nat} (leaf : Digest) (siblings : Vector Digest treeHeight)
    (directionBits : Vector Bool treeHeight) (expectedRoot : Digest) : Prop :=
  computeMerkleRoot leaf siblings directionBits = expectedRoot

instance {treeHeight : Nat} (leaf : Digest) (siblings : Vector Digest treeHeight)
    (directionBits : Vector Bool treeHeight) (expectedRoot : Digest) :
    Decidable (verifyMerkleProof leaf siblings directionBits expectedRoot) :=
  inferInstanceAs (Decidable (_ = _))

/-- An account of the state tree. -/
structure Account where
  fpk : Vector Byte 32
  balance : BitVec 64
  deriving DecidableEq, Repr

/-- Public key, then balance. -/
def leafData (a : Account) : List Byte := a.fpk.toList ++ bytesBE 8 a.balance

/-- The leaf of an account. -/
def computeLeafHash (a : Account) : Digest := hash (leafData a)

/-! ## §3. The gadget is the library's `recompute`. -/

/-- The node hash: both children's bytes, left first. -/
def nodeHash (p : Digest × Digest) : Digest := hash (p.1.bytes ++ p.2.bytes)

/-- The path of an opening, root first. -/
def pathOf {treeHeight : Nat} (siblings : Vector Digest treeHeight)
    (directionBits : Vector Bool treeHeight) : Path Digest :=
  ((siblings.zip directionBits).toList.map Prod.swap).reverse

/-- Left child first. -/
theorem levelInput_eq (b : Bool) (cur sib : Digest) :
    levelInput b cur sib = (pairOf b cur sib).1.bytes ++ (pairOf b cur sib).2.bytes := by
  unfold levelInput
  simp only [conditionalSelect_eq]
  cases b <;> rfl

/-- One entry a level. -/
theorem pathOf_length {treeHeight : Nat} (siblings : Vector Digest treeHeight)
    (directionBits : Vector Bool treeHeight) :
    (pathOf siblings directionBits).length = treeHeight := by
  simp [pathOf]

/-- Equal direction bits: the siblings, root first. -/
theorem pathOf_replicate {treeHeight : Nat} (siblings : Vector Digest treeHeight) (b : Bool) :
    pathOf siblings (Vector.replicate treeHeight b)
      = siblings.toList.reverse.map (fun d => (b, d)) := by
  have hzip : siblings.toList.zip (List.replicate treeHeight b)
      = siblings.toList.map (fun d => (d, b)) := by
    refine List.ext_getElem (by simp) ?_
    intro i _ _
    simp
  rw [pathOf, Vector.toList_zip, Vector.toList_replicate, hzip, List.map_map, List.map_reverse]
  rfl

/-- The position an opening names, read from the root down. -/
def position {treeHeight : Nat} (directionBits : Vector Bool treeHeight) : List Bool :=
  directionBits.toList.reverse

theorem position_length {treeHeight : Nat} (directionBits : Vector Bool treeHeight) :
    (position directionBits).length = treeHeight := by
  simp [position]

/-- The directions of the path. -/
theorem dirs_pathOf {treeHeight : Nat} (siblings : Vector Digest treeHeight)
    (directionBits : Vector Bool treeHeight) :
    dirs (pathOf siblings directionBits) = position directionBits := by
  have hzip : (siblings.zip directionBits).toList.map Prod.snd = directionBits.toList := by
    rw [Vector.toList_zip]
    exact List.map_snd_zip (by simp)
  rw [dirs, pathOf, position, List.map_reverse, List.map_map, ← hzip]
  rfl

/-- The siblings of a true opening, leaf level first. -/
def openingSiblings {α : Type} {treeHeight : Nat} (hl : α → Digest) (t : Tree α treeHeight)
    (directionBits : Vector Bool treeHeight) : Vector Digest treeHeight :=
  ⟨((opening hl nodeHash t (position directionBits)).reverse.map Prod.snd).toArray, by
    rw [List.size_toArray, List.length_map, List.length_reverse, opening_length]⟩

/-- The siblings of an opening are its path. -/
theorem pathOf_openingSiblings {α : Type} {treeHeight : Nat} (hl : α → Digest)
    (t : Tree α treeHeight) (directionBits : Vector Bool treeHeight) :
    pathOf (openingSiblings hl t directionBits) directionBits
      = opening hl nodeHash t (position directionBits) := by
  have hdirs : directionBits.toList
      = (opening hl nodeHash t (position directionBits)).reverse.map Prod.fst := by
    rw [List.map_reverse, ← dirs, dirs_opening t _ (position_length directionBits), position,
      List.reverse_reverse]
  have hsiblings : (openingSiblings hl t directionBits).toList
      = (opening hl nodeHash t (position directionBits)).reverse.map Prod.snd := rfl
  rw [pathOf, Vector.toList_zip, hsiblings, hdirs, List.zip_map', List.map_map]
  show (List.map (fun step => step) _).reverse = _
  rw [List.map_id', List.reverse_reverse]

/-- Folding up from the leaf is recomputing down from the root. -/
theorem foldl_eq_recompute (leaf : Digest) (levels : List (Digest × Bool)) :
    levels.foldl (fun cur level => hash (levelInput level.2 cur level.1)) leaf
      = recompute nodeHash leaf (levels.map Prod.swap).reverse := by
  induction levels using List.reverseRecOn with
  | nil => rfl
  | append_singleton levels level ih =>
    rw [List.foldl_append, List.foldl_cons, List.foldl_nil, ih, List.map_append,
      List.reverse_append, levelInput_eq]
    rfl

/-- The gadget recomputes the root. -/
theorem computeMerkleRoot_eq {treeHeight : Nat} (leaf : Digest)
    (siblings : Vector Digest treeHeight) (directionBits : Vector Bool treeHeight) :
    computeMerkleRoot leaf siblings directionBits
      = recompute nodeHash leaf (pathOf siblings directionBits) :=
  foldl_eq_recompute leaf _

/-! ## §4. Blocks. -/

/-- The block compressed for a node. -/
def nodeBlock (p : Digest × Digest) : List Byte := block (p.1.bytes ++ p.2.bytes)

/-- The block compressed for a leaf. -/
def leafBlock (a : Account) : List Byte := block (leafData a)

theorem nodeHash_eq (p : Digest × Digest) : nodeHash p = computeSHA256 (nodeBlock p) :=
  hash_eq_compress_block _

theorem computeLeafHash_eq (a : Account) : computeLeafHash a = computeSHA256 (leafBlock a) :=
  hash_eq_compress_block _

/-- A node block gives both children. -/
theorem nodeBlock_inj {p q : Digest × Digest} (h : nodeBlock p = nodeBlock q) : p = q := by
  have hlen : ∀ r : Digest × Digest, (r.1.bytes ++ r.2.bytes).length = 64 := by
    intro r
    rw [List.length_append, Digest.bytes_length, Digest.bytes_length]
  have hbytes := block_inj ((hlen p).trans (hlen q).symm) (le_of_eq (hlen p)) h
  obtain ⟨h₁, h₂⟩ := List.append_inj hbytes (by rw [Digest.bytes_length, Digest.bytes_length])
  exact Prod.ext (Digest.bytes_inj h₁) (Digest.bytes_inj h₂)

theorem leafData_length (a : Account) : (leafData a).length = 40 := by
  simp [leafData]

/-- A leaf block gives the account. -/
theorem leafBlock_inj {a b : Account} (h : leafBlock a = leafBlock b) : a = b := by
  have hbytes := block_inj ((leafData_length a).trans (leafData_length b).symm)
    (by rw [leafData_length]; decide) h
  obtain ⟨h₁, h₂⟩ := List.append_inj hbytes (by simp)
  obtain ⟨fpk, balance⟩ := a
  obtain ⟨fpk', balance'⟩ := b
  rw [Account.mk.injEq]
  exact ⟨Vector.toList_inj.mp h₁, bytesBE_inj (n := 8) h₂⟩

/-- A collision of node pairs is one of compressed blocks. -/
theorem collision_of_collide {S T : List (Digest × Digest)} (h : Collide nodeHash S T) :
    Collision (S.map nodeBlock) (T.map nodeBlock) := by
  obtain ⟨x, hx, y, hy, hne, heq⟩ := h
  refine ⟨_, List.mem_map_of_mem hx, _, List.mem_map_of_mem hy,
    fun hb => hne (nodeBlock_inj hb), ?_⟩
  rw [← nodeHash_eq, ← nodeHash_eq, heq]

/-- The blocks compressed while checking an opening. -/
def pathBlocks {treeHeight : Nat} (leaf : Digest) (siblings : Vector Digest treeHeight)
    (directionBits : Vector Bool treeHeight) : List (List Byte) :=
  (pathPairs nodeHash leaf (pathOf siblings directionBits)).map nodeBlock

/-- The blocks compressed for the inner nodes of a tree. -/
def treeBlocks {α : Type} (hl : α → Digest) {n : Nat} (t : Tree α n) : List (List Byte) :=
  (t.nodePairs hl nodeHash).map nodeBlock

/-- A tree of equal leaves has one leaf block and one node block per level. -/
theorem blocks_replicate_subset {α : Type} (hl : α → Digest) (leafBlockOf : α → List Byte) (a : α)
    (n : Nat) :
    (Tree.replicate a n).leaves.map leafBlockOf ++ treeBlocks hl (Tree.replicate a n)
      ⊆ leafBlockOf a :: (List.range n).reverse.map (fun k =>
          nodeBlock ((Tree.replicate a k).root hl nodeHash,
            (Tree.replicate a k).root hl nodeHash)) := by
  refine List.append_subset.mpr ⟨?_, ?_⟩
  · intro b hb
    obtain ⟨x, hx, rfl⟩ := List.mem_map.mp hb
    rw [Tree.leaves_replicate hx]
    exact List.mem_cons_self ..
  · intro b hb
    obtain ⟨x, hx, rfl⟩ := List.mem_map.mp hb
    obtain ⟨k, hk, rfl⟩ := Tree.nodePairs_replicate hx
    refine List.mem_cons_of_mem _ (List.mem_map.mpr ⟨k, ?_, rfl⟩)
    exact List.mem_reverse.mpr (List.mem_range.mpr hk)

/-- **An accepted opening is the true one**, or blocks collide. -/
theorem verifyMerkleProof_sound {α : Type} (hl : α → Digest) {treeHeight : Nat}
    (t : Tree α treeHeight) (leaf : Digest) (siblings : Vector Digest treeHeight)
    (directionBits : Vector Bool treeHeight)
    (h : verifyMerkleProof leaf siblings directionBits (t.root hl nodeHash)) :
    (leaf = hl (t.get (position directionBits))
        ∧ pathOf siblings directionBits = opening hl nodeHash t (position directionBits))
      ∨ Collision (pathBlocks leaf siblings directionBits) (treeBlocks hl t) := by
  rw [verifyMerkleProof, computeMerkleRoot_eq] at h
  rw [← dirs_pathOf siblings directionBits]
  rcases opening_sound t _ _ (pathOf_length siblings directionBits) h with hok | hcol
  · exact Or.inl hok
  · exact Or.inr (collision_of_collide hcol)

/-- A true opening is accepted. -/
theorem verifyMerkleProof_of_opening {α : Type} (hl : α → Digest) {treeHeight : Nat}
    {t : Tree α treeHeight} {siblings : Vector Digest treeHeight}
    {directionBits : Vector Bool treeHeight}
    (hpath : pathOf siblings directionBits = opening hl nodeHash t (position directionBits)) :
    verifyMerkleProof (hl (t.get (position directionBits))) siblings directionBits
      (t.root hl nodeHash) := by
  rw [verifyMerkleProof, computeMerkleRoot_eq, hpath, recompute_opening]

/-! ## §5. Account trees. -/

/-- All blocks compressed for an account tree, leaves included. -/
def accountTreeBlocks {n : Nat} (t : Tree Account n) : List (List Byte) :=
  t.leaves.map leafBlock ++ treeBlocks computeLeafHash t

/-- All blocks compressed while checking the opening of an account. -/
def accountPathBlocks {treeHeight : Nat} (a : Account) (siblings : Vector Digest treeHeight)
    (directionBits : Vector Bool treeHeight) : List (List Byte) :=
  leafBlock a :: pathBlocks (computeLeafHash a) siblings directionBits

/-- **An accepted account opening names the account at its position.** -/
theorem account_opening_sound {treeHeight : Nat} (t : Tree Account treeHeight) (a : Account)
    (siblings : Vector Digest treeHeight) (directionBits : Vector Bool treeHeight)
    (h : verifyMerkleProof (computeLeafHash a) siblings directionBits
      (t.root computeLeafHash nodeHash))
    (hfree : ¬ Collision (accountPathBlocks a siblings directionBits) (accountTreeBlocks t)) :
    t.get (position directionBits) = a
      ∧ pathOf siblings directionBits
        = opening computeLeafHash nodeHash t (position directionBits) := by
  rcases verifyMerkleProof_sound computeLeafHash t _ siblings directionBits h
    with ⟨hleaf, hpath⟩ | hcol
  · refine ⟨?_, hpath⟩
    by_contra hne
    refine hfree ⟨leafBlock a, List.mem_cons_self .., leafBlock (t.get (position directionBits)),
      List.mem_append_left _ (List.mem_map_of_mem (t.get_mem_leaves _)), ?_, ?_⟩
    · intro hblock
      exact hne (leafBlock_inj hblock).symm
    · rw [← computeLeafHash_eq, ← computeLeafHash_eq, hleaf]
  · exact absurd (hcol.mono (List.subset_cons_self _ _) (List.subset_append_right _ _)) hfree

/-- The gadget accepts an opening. -/
theorem verifyMerkleProof_opening {treeHeight : Nat} {t : Tree Account treeHeight}
    {siblings : Vector Digest treeHeight} {directionBits : Vector Bool treeHeight}
    (hpath : pathOf siblings directionBits
      = opening computeLeafHash nodeHash t (position directionBits)) :
    verifyMerkleProof (computeLeafHash (t.get (position directionBits))) siblings directionBits
      (t.root computeLeafHash nodeHash) :=
  verifyMerkleProof_of_opening computeLeafHash hpath

/-- Checking a true opening compresses blocks of the tree only. -/
theorem accountPathBlocks_opening {treeHeight : Nat} {t : Tree Account treeHeight}
    {siblings : Vector Digest treeHeight} {directionBits : Vector Bool treeHeight}
    (hpath : pathOf siblings directionBits
      = opening computeLeafHash nodeHash t (position directionBits)) :
    accountPathBlocks (t.get (position directionBits)) siblings directionBits
      ⊆ accountTreeBlocks t := by
  refine List.cons_subset.mpr ⟨?_, ?_⟩
  · exact List.mem_append_left _ (List.mem_map_of_mem (t.get_mem_leaves _))
  · rw [pathBlocks, hpath]
    exact List.Subset.trans (List.map_subset _ (pathPairs_opening_subset t _))
      (List.subset_append_right _ _)

/-- **Account trees with one root are equal**, if their blocks do not collide. -/
theorem account_root_inj {n : Nat} (t u : Tree Account n)
    (h : t.root computeLeafHash nodeHash = u.root computeLeafHash nodeHash)
    (hfree : ¬ Collision (accountTreeBlocks t) (accountTreeBlocks u)) : t = u := by
  rcases root_inj t u h with heq | hcol | ⟨x, hx, y, hy, hne, heq⟩
  · exact heq
  · exact absurd ((collision_of_collide hcol).mono (List.subset_append_right _ _)
      (List.subset_append_right _ _)) hfree
  · refine absurd ⟨leafBlock x, List.mem_append_left _ (List.mem_map_of_mem hx), leafBlock y,
      List.mem_append_left _ (List.mem_map_of_mem hy), fun hb => hne (leafBlock_inj hb), ?_⟩ hfree
    rw [← computeLeafHash_eq, ← computeLeafHash_eq, heq]

/-! ## §6. Leaves by index. -/

/-- The index whose bits are the direction bits, the leaf level lowest. -/
def indexOf {treeHeight : Nat} (directionBits : Vector Bool treeHeight) : Nat :=
  Nat.ofBits (fun i : Fin treeHeight => directionBits[i])

/-- Every path has an index. -/
theorem indexOf_lt {treeHeight : Nat} (directionBits : Vector Bool treeHeight) :
    indexOf directionBits < 2 ^ treeHeight :=
  Nat.ofBits_lt_two_pow _

theorem testBit_indexOf {treeHeight : Nat} (directionBits : Vector Bool treeHeight) {i : Nat}
    (hi : i < treeHeight) : (indexOf directionBits).testBit i = directionBits[i] :=
  Nat.testBit_ofBits_lt _ i hi

/-- Every index has a path. -/
theorem indexOf_bits {treeHeight index : Nat} (hindex : index < 2 ^ treeHeight) :
    indexOf (Vector.ofFn (fun i : Fin treeHeight => index.testBit i)) = index := by
  have hbits : (fun i : Fin treeHeight =>
      (Vector.ofFn (fun i : Fin treeHeight => index.testBit i))[i])
      = fun i : Fin treeHeight => index.testBit i := by
    funext i
    exact Vector.getElem_ofFn i.isLt
  rw [indexOf, hbits, Nat.ofBits_testBit, Nat.mod_eq_of_lt hindex]

/-- The leaf at the index is the one at the position. -/
theorem getElem?_indexOf {α : Type} {treeHeight : Nat} (t : Tree α treeHeight)
    (directionBits : Vector Bool treeHeight) :
    t.leaves[indexOf directionBits]? = some (t.get (position directionBits)) := by
  refine t.getElem?_leaves _ _ (position_length directionBits) (indexOf_lt directionBits) ?_
  intro i hi
  have hlen : i < directionBits.toList.length := by
    rw [Vector.length_toList]
    exact hi
  rw [position, List.reverse_reverse, List.getElem?_eq_getElem hlen, testBit_indexOf _ hi,
    Vector.getElem_toList]

/-- The siblings on the true path, leaf level first. -/
def siblingsOf {treeHeight : Nat} (t : Tree Digest treeHeight)
    (directionBits : Vector Bool treeHeight) : Vector Digest treeHeight :=
  openingSiblings id t directionBits

/-- **In-circuit openings.** Inner nodes are combined as the gadget combines them; an
opening accepted against the root of a tree names the leaf at the index of its direction
bits, or two different 64-byte blocks have one compression output; and the true path of
every leaf is accepted. -/
theorem merkle_opening_correct {treeHeight : Nat} (t : Tree Digest treeHeight) :
    (∀ b current sibling,
        SHA256.hash (levelInput b current sibling) = nodeHash (pairOf b current sibling))
    ∧ (∀ directionBits : Vector Bool treeHeight, indexOf directionBits < 2 ^ treeHeight
        ∧ ∀ i, ∀ hi : i < treeHeight, (indexOf directionBits).testBit i = directionBits[i])
    ∧ (∀ leaf : Digest, ∀ siblings : Vector Digest treeHeight,
        ∀ directionBits : Vector Bool treeHeight,
        verifyMerkleProof leaf siblings directionBits (t.root id nodeHash) →
          t.leaves[indexOf directionBits]? = some leaf
          ∨ ∃ b ∈ pathBlocks leaf siblings directionBits, ∃ c ∈ treeBlocks id t,
              b.length = 64 ∧ c.length = 64 ∧ b ≠ c ∧ computeSHA256 b = computeSHA256 c)
    ∧ (∀ index, ∀ hindex : index < t.leaves.length,
        ∃ directionBits : Vector Bool treeHeight, indexOf directionBits = index
        ∧ verifyMerkleProof t.leaves[index] (siblingsOf t directionBits) directionBits
            (t.root id nodeHash)) := by
  refine ⟨?_, ?_, ?_, ?_⟩
  · intro b current sibling
    rw [levelInput_eq]
    rfl
  · intro directionBits
    exact ⟨indexOf_lt directionBits, fun i hi => testBit_indexOf directionBits hi⟩
  · intro leaf siblings directionBits h
    have hlength : ∀ p : Digest × Digest, (nodeBlock p).length = 64 := by
      intro p
      unfold nodeBlock block
      rw [List.length_take, padMessage_length, List.length_append, Digest.bytes_length,
        Digest.bytes_length]
      rfl
    rcases verifyMerkleProof_sound id t leaf siblings directionBits h with ⟨hleaf, -⟩ | hcol
    · left
      rw [getElem?_indexOf, hleaf]
      rfl
    · right
      obtain ⟨b, hb, c, hc, hne, heq⟩ := hcol
      obtain ⟨p, -, rfl⟩ := List.mem_map.mp hb
      obtain ⟨q, -, rfl⟩ := List.mem_map.mp hc
      exact ⟨_, hb, _, hc, hlength p, hlength q, hne, heq⟩
  · intro index hindex
    have hlt : index < 2 ^ treeHeight := by
      rw [← t.leaves_length]
      exact hindex
    refine ⟨Vector.ofFn (fun i : Fin treeHeight => index.testBit i), indexOf_bits hlt, ?_⟩
    have hleaf := getElem?_indexOf t (Vector.ofFn (fun i : Fin treeHeight => index.testBit i))
    rw [indexOf_bits hlt, List.getElem?_eq_getElem hindex] at hleaf
    rw [Option.some.inj hleaf]
    exact verifyMerkleProof_of_opening id (pathOf_openingSiblings id t _)

/-- The right leaf of two is opened with direction bit 1. -/
theorem right_leaf_opened :
    ∃ directionBits : Vector Bool 1, indexOf directionBits = 1
      ∧ verifyMerkleProof H_INIT
          (siblingsOf (.node (.leaf ⟨0, 0, 0, 0, 0, 0, 0, 0⟩) (.leaf H_INIT)) directionBits)
          directionBits
          (Tree.root id nodeHash (.node (.leaf ⟨0, 0, 0, 0, 0, 0, 0, 0⟩) (.leaf H_INIT))) :=
  (merkle_opening_correct (.node (.leaf ⟨0, 0, 0, 0, 0, 0, 0, 0⟩) (.leaf H_INIT))).2.2.2 1
    (by decide)

end MerkleTree

end HZKA.Circuits
