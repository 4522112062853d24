/-
  HZKA.Relay.SPV
  ────────────
  **SIMPLIFIED PAYMENT VERIFICATION** (`relay/committer.go`, `VerifySPV`): does a proof that
  hashes up to a block's root show that its transaction is one of the block's?

  The proof is chosen by whoever presents it.  `VerifySPV` reads one direction per sibling and
  nothing that tells how high the tree is or how many leaves it has, so

    • it panics exactly if there are more siblings than directions (`verifySPV_isSome`);
    • what it accepts is the authentic opening of some node (`authentic_of_accepted`), and every
      authentic opening is accepted: a path shorter than the tree is high starts at an inner
      node, so the root itself passes as a transaction; one of the right length at a leaf of the
      padded list, so a zero hash behind the end passes; a longer one below the leaves;
    • `spv_inclusion_iff` — it shows inclusion EXACTLY for the proofs that, if authentic, start
      at a transaction.
-/
import HZKA.Lib.LayerPath
import HZKA.Relay.MerkleRoots

namespace HZKA.Relay

open HZKA.Lib HZKA.EVM

/-! ## §1. The verifier. -/

/-- The fields `VerifySPV` reads; the block header is not one of them. -/
structure SPVProof where
  txHash : Bytes32
  merkleRoot : Bytes32
  merklePath : List Bytes32
  /-- Direction bits: `true` if the current node is on the right. -/
  pathIndices : List Bool
  deriving DecidableEq, Repr

/-- The loop over the path; `none` is the panic of `proof.PathIndices[i]`. -/
def spvLoop (pathIndices : List Bool) : Nat → Bytes32 → List Bytes32 → Option Bytes32
  | _, currentHash, [] => some currentHash
  | i, currentHash, sibling :: rest => do
    let onRight ← pathIndices[i]?
    if onRight then
      spvLoop pathIndices (i + 1) (nodeHash sibling currentHash) rest
    else
      spvLoop pathIndices (i + 1) (nodeHash currentHash sibling) rest

/-- The path leads to the root. -/
def verifySPV (proof : SPVProof) : Option Bool :=
  (spvLoop proof.pathIndices 0 proof.txHash proof.merklePath).map
    (fun currentHash => decide (currentHash = proof.merkleRoot))

/-! ## §2. The loop is a climb. -/

/-- The steps of a proof, each sibling with its direction. -/
def spvSteps (proof : SPVProof) : List (Bool × Bytes32) :=
  proof.pathIndices.zip proof.merklePath

/-- The loop climbs the path. -/
theorem spvLoop_eq {pathIndices : List Bool} : ∀ {path : List Bytes32} {i : Nat}
    (currentHash : Bytes32), i + path.length ≤ pathIndices.length →
      spvLoop pathIndices i currentHash path
        = some (climb nodeHash currentHash ((pathIndices.drop i).zip path)) := by
  intro path
  induction path with
  | nil =>
    intro i currentHash _
    rw [spvLoop, List.zip_nil_right, climb]
  | cons sibling rest ih =>
    intro i currentHash hlen
    rw [List.length_cons] at hlen
    have hi : i < pathIndices.length := by omega
    have hrest : i + 1 + rest.length ≤ pathIndices.length := by omega
    rw [spvLoop, List.getElem?_eq_getElem hi, List.drop_eq_getElem_cons hi, List.zip_cons_cons,
      climb]
    cases hside : pathIndices[i] with
    | true => exact ih (nodeHash sibling currentHash) hrest
    | false => exact ih (nodeHash currentHash sibling) hrest

/-- With a direction missing the loop panics when it gets there. -/
theorem spvLoop_none {pathIndices : List Bool} : ∀ {path : List Bytes32} {i : Nat}
    (currentHash : Bytes32), path ≠ [] → pathIndices.length < i + path.length →
      spvLoop pathIndices i currentHash path = none := by
  intro path
  induction path with
  | nil => exact fun _ hne => absurd rfl hne
  | cons sibling rest ih =>
    intro i currentHash _ hlen
    rw [List.length_cons] at hlen
    rw [spvLoop]
    by_cases hi : i < pathIndices.length
    · have hne : rest ≠ [] := by
        rintro rfl
        rw [List.length_nil] at hlen
        omega
      have hrest : pathIndices.length < i + 1 + rest.length := by omega
      rw [List.getElem?_eq_getElem hi]
      cases hside : pathIndices[i] with
      | true => exact ih (nodeHash sibling currentHash) hne hrest
      | false => exact ih (nodeHash currentHash sibling) hne hrest
    · rw [List.getElem?_eq_none (by omega)]
      rfl

/-- Accepted iff it climbs to the root. -/
theorem verifySPV_eq {proof : SPVProof}
    (hlen : proof.merklePath.length ≤ proof.pathIndices.length) :
    verifySPV proof
      = some (decide (climb nodeHash proof.txHash (spvSteps proof) = proof.merkleRoot)) := by
  unfold verifySPV
  rw [spvLoop_eq proof.txHash (by omega), List.drop_zero]
  rfl

/-- **A verdict is returned exactly if no direction is missing.** -/
theorem verifySPV_isSome (proof : SPVProof) :
    (verifySPV proof).isSome ↔ proof.merklePath.length ≤ proof.pathIndices.length := by
  constructor
  · intro hsome
    by_contra hlen
    have hne : proof.merklePath ≠ [] := by
      intro hnil
      rw [hnil, List.length_nil] at hlen
      omega
    unfold verifySPV at hsome
    rw [spvLoop_none proof.txHash hne (by omega)] at hsome
    cases hsome
  · intro hlen
    rw [verifySPV_eq hlen]
    rfl

theorem climb_of_accepted {proof : SPVProof} (h : verifySPV proof = some true) :
    proof.merklePath.length ≤ proof.pathIndices.length
      ∧ climb nodeHash proof.txHash (spvSteps proof) = proof.merkleRoot := by
  have hlen : proof.merklePath.length ≤ proof.pathIndices.length := by
    rw [← verifySPV_isSome, h]
    rfl
  rw [verifySPV_eq hlen] at h
  exact ⟨hlen, of_decide_eq_true (Option.some.inj h)⟩

theorem length_spvSteps {proof : SPVProof}
    (hlen : proof.merklePath.length ≤ proof.pathIndices.length) :
    (spvSteps proof).length = proof.merklePath.length := by
  unfold spvSteps
  rw [List.length_zip]
  omega

/-! ## §3. What an accepted proof starts from. -/

/-- All pairs hashed: by the verifier on the proof, and for the root of the block. -/
def hashedPairs (proof : SPVProof) (hashes : List Bytes32) : List (Bytes32 × Bytes32) :=
  climbPairs nodeHash proof.txHash (spvSteps proof) ++ rootPairs nodeHash (pad hashes)

/-- Two different pairs among them with one Keccak-256 hash. -/
def HashCollision (proof : SPVProof) (hashes : List Bytes32) : Prop :=
  PairCollision nodeHash (hashedPairs proof hashes) (hashedPairs proof hashes)

theorem length_pad {hashes : List Bytes32} (hne : hashes ≠ []) :
    (pad hashes).length = 2 ^ Nat.clog 2 hashes.length := by
  have hle := le_width hashes.length
  have hwidth : width hashes.length = 2 ^ Nat.clog 2 hashes.length := rfl
  rw [pad_eq hne, List.length_append, List.length_replicate]
  omega

/-- The root is over the padded leaves. -/
theorem root_pad (hashes : List Bytes32) :
    computeRootHash nodeHash hashes = some (layerRoot nodeHash 0 (pad hashes)) := by
  rw [computeRootHash_pad, nodeHash_eq_pairHash]

/-- By how many steps a path is longer than the tree is high. -/
def stepsBelow (proof : SPVProof) (hashes : List Bytes32) : Nat :=
  proof.merklePath.length - Nat.clog 2 hashes.length

/-- The steps below the leaves, if the path is longer than the tree is high. -/
def lowerSteps (proof : SPVProof) (hashes : List Bytes32) : List (Bool × Bytes32) :=
  (spvSteps proof).take (stepsBelow proof hashes)

/-- The steps within the tree. -/
def upperSteps (proof : SPVProof) (hashes : List Bytes32) : List (Bool × Bytes32) :=
  (spvSteps proof).drop (stepsBelow proof hashes)

/-- The layer from which the steps within the tree lead to the root. -/
def entryLayer (proof : SPVProof) (hashes : List Bytes32) : List Bytes32 :=
  (nextLayer nodeHash)^[Nat.clog 2 hashes.length - proof.merklePath.length] (pad hashes)

/-- The proof is made of the block's own tree: it enters at the node in its position and lists
the neighbours of that node up to the root. -/
structure Authentic (proof : SPVProof) (hashes : List Bytes32) : Prop where
  enters : (entryLayer proof hashes)[pathPosition (upperSteps proof hashes)]?
    = some (climb nodeHash proof.txHash (lowerSteps proof hashes))
  neighbours : upperSteps proof hashes
    = layerOpening nodeHash 0 (upperSteps proof hashes).length (entryLayer proof hashes)
        (pathPosition (upperSteps proof hashes))

/-- The leaf position of a path of the tree's height is that of a transaction, or a zero is
among them; a shorter path starts at an inner node that happens to be a transaction, a longer
one at something below a leaf that happens to be one. -/
def StartsAtTransaction (proof : SPVProof) (hashes : List Bytes32) : Prop :=
  if proof.merklePath.length = Nat.clog 2 hashes.length then
    pathPosition (spvSteps proof) < hashes.length ∨ 0 ∈ hashes
  else if proof.merklePath.length < Nat.clog 2 hashes.length then
    (entryLayer proof hashes).getD (pathPosition (spvSteps proof)) 0 ∈ hashes
  else
    proof.txHash ∈ hashes

section Tree

variable {proof : SPVProof} {hashes : List Bytes32}

theorem climb_steps (proof : SPVProof) (hashes : List Bytes32) :
    climb nodeHash proof.txHash (spvSteps proof)
      = climb nodeHash (climb nodeHash proof.txHash (lowerSteps proof hashes))
          (upperSteps proof hashes) := by
  rw [← climb_append]
  unfold lowerSteps upperSteps
  rw [List.take_append_drop]

theorem upperPairs_subset (proof : SPVProof) (hashes : List Bytes32) :
    climbPairs nodeHash (climb nodeHash proof.txHash (lowerSteps proof hashes))
        (upperSteps proof hashes)
      ⊆ climbPairs nodeHash proof.txHash (spvSteps proof) := by
  have hsplit : spvSteps proof = lowerSteps proof hashes ++ upperSteps proof hashes :=
    (List.take_append_drop _ _).symm
  conv => rhs; rw [hsplit]
  rw [climbPairs_append]
  exact List.subset_append_right _ _

/-- The tree has a layer for every step within it, and more below the entry. -/
theorem length_pad_split (hne : hashes ≠ [])
    (hlen : proof.merklePath.length ≤ proof.pathIndices.length) :
    (pad hashes).length = 2 ^ ((upperSteps proof hashes).length
      + (Nat.clog 2 hashes.length - proof.merklePath.length)) := by
  have hupper : (upperSteps proof hashes).length
      = proof.merklePath.length - (proof.merklePath.length - Nat.clog 2 hashes.length) := by
    unfold upperSteps stepsBelow
    rw [List.length_drop, length_spvSteps hlen]
  rw [length_pad hne, hupper]
  congr 1
  omega

theorem length_entryLayer (hne : hashes ≠ [])
    (hlen : proof.merklePath.length ≤ proof.pathIndices.length) :
    (entryLayer proof hashes).length = 2 ^ (upperSteps proof hashes).length :=
  length_iterate nodeHash _ (length_pad_split hne hlen)

theorem root_entryLayer (hne : hashes ≠ [])
    (hroot : computeRootHash nodeHash hashes = some proof.merkleRoot)
    (hlen : proof.merklePath.length ≤ proof.pathIndices.length) :
    layerRoot nodeHash 0 (entryLayer proof hashes) = proof.merkleRoot := by
  rw [root_pad, Option.some.injEq] at hroot
  rw [← hroot]
  exact layerRoot_iterate nodeHash 0 _ (length_pad_split hne hlen)

/-- **What is accepted is authentic**, or a hash collides. -/
theorem authentic_of_accepted (hne : hashes ≠ [])
    (hroot : computeRootHash nodeHash hashes = some proof.merkleRoot)
    (haccepted : verifySPV proof = some true) :
    Authentic proof hashes ∨ HashCollision proof hashes := by
  obtain ⟨hlen, hclimb⟩ := climb_of_accepted haccepted
  rw [climb_steps proof hashes, ← root_entryLayer hne hroot hlen] at hclimb
  rcases climb_sound 0 _ (length_entryLayer hne hlen) rfl _ hclimb
    with ⟨henters, hneighbours⟩ | hcol
  · exact Or.inl ⟨henters, hneighbours⟩
  · right
    apply hcol.mono
    · exact List.Subset.trans (upperPairs_subset proof hashes) (List.subset_append_left _ _)
    · exact List.Subset.trans (rootPairs_iterate nodeHash _ (length_pad_split hne hlen))
        (List.subset_append_right _ _)

/-- **What is authentic is accepted**, given the directions. -/
theorem accepted_of_authentic (hne : hashes ≠ [])
    (hroot : computeRootHash nodeHash hashes = some proof.merkleRoot)
    (hlen : proof.merklePath.length ≤ proof.pathIndices.length)
    (hauthentic : Authentic proof hashes) : verifySPV proof = some true := by
  have hopening := climb_opening nodeHash 0 _ (length_entryLayer hne hlen) hauthentic.enters
  rw [verifySPV_eq hlen, climb_steps proof hashes, hauthentic.neighbours, hopening]
  exact congrArg some (decide_eq_true (root_entryLayer hne hroot hlen))

/-- A path no longer than the tree is high is within it. -/
theorem steps_of_short (hshort : proof.merklePath.length ≤ Nat.clog 2 hashes.length) :
    lowerSteps proof hashes = [] ∧ upperSteps proof hashes = spvSteps proof := by
  have hzero : stepsBelow proof hashes = 0 := Nat.sub_eq_zero_of_le hshort
  unfold lowerSteps upperSteps
  rw [hzero]
  exact ⟨rfl, rfl⟩

theorem Authentic.enters_short (hauthentic : Authentic proof hashes)
    (hshort : proof.merklePath.length ≤ Nat.clog 2 hashes.length) :
    (entryLayer proof hashes)[pathPosition (spvSteps proof)]? = some proof.txHash := by
  have henters := hauthentic.enters
  obtain ⟨hlower, hupper⟩ := steps_of_short hshort
  rw [hlower, hupper] at henters
  exact henters

end Tree

/-- A leaf of the padded list is a transaction of the block or a zero behind its end. -/
theorem leaf_pad {hashes : List Bytes32} (hne : hashes ≠ []) {i : Nat} {leaf : Bytes32}
    (h : (pad hashes)[i]? = some leaf) :
    hashes[i]? = some leaf ∨ (hashes.length ≤ i ∧ leaf = 0) := by
  rw [pad_eq hne] at h
  by_cases hi : i < hashes.length
  · rw [List.getElem?_append_left hi] at h
    exact Or.inl h
  · right
    rw [List.getElem?_append_right (by omega)] at h
    exact ⟨by omega, List.eq_of_mem_replicate (List.mem_of_getElem? h)⟩

/-- The proof an honest relay gives for transaction `i`. -/
def spvOpening (hashes : List Bytes32) (i : Nat) : SPVProof :=
  let steps := layerOpening nodeHash 0 (Nat.clog 2 hashes.length) (pad hashes) i
  { txHash := hashes.getD i 0
    merkleRoot := layerRoot nodeHash 0 (pad hashes)
    merklePath := steps.map Prod.snd
    pathIndices := steps.map Prod.fst }

theorem length_spvOpening (hashes : List Bytes32) (i : Nat) :
    (spvOpening hashes i).merklePath.length = Nat.clog 2 hashes.length
      ∧ (spvOpening hashes i).pathIndices.length = Nat.clog 2 hashes.length := by
  unfold spvOpening
  rw [List.length_map, List.length_map, length_layerOpening]
  exact ⟨rfl, rfl⟩

theorem spvSteps_opening (hashes : List Bytes32) (i : Nat) :
    spvSteps (spvOpening hashes i)
      = layerOpening nodeHash 0 (Nat.clog 2 hashes.length) (pad hashes) i :=
  (List.zip_of_prod rfl rfl).symm

/-- **Every transaction of a block has an accepted proof.** -/
theorem verifySPV_opening {hashes : List Bytes32} {i : Nat} (hi : i < hashes.length) :
    verifySPV (spvOpening hashes i) = some true := by
  have hne : hashes ≠ [] := List.ne_nil_of_length_pos (by omega)
  obtain ⟨hpath, hindices⟩ := length_spvOpening hashes i
  have hleaf : (pad hashes)[i]? = some (hashes.getD i 0) := by
    rw [pad_eq hne, List.getElem?_append_left hi, List.getElem?_eq_getElem hi,
      List.getD_eq_getElem _ _ hi]
  rw [verifySPV_eq (by omega), spvSteps_opening]
  exact congrArg some (decide_eq_true (climb_opening nodeHash 0 _ (length_pad hne) hleaf))

/-! ## §4. Inclusion. -/

/-- An authentic proof is about a transaction of the block iff it starts at one. -/
theorem mem_iff_startsAtTransaction {proof : SPVProof} {hashes : List Bytes32}
    (hne : hashes ≠ []) (hauthentic : Authentic proof hashes) :
    proof.txHash ∈ hashes ↔ StartsAtTransaction proof hashes := by
  unfold StartsAtTransaction
  split
  case isTrue hheight =>
    -- a path of the tree's height starts at a leaf: a transaction or padding
    have henters := hauthentic.enters_short hheight.le
    unfold entryLayer at henters
    rw [hheight, Nat.sub_self, Function.iterate_zero_apply] at henters
    constructor
    · intro hmem
      rcases leaf_pad hne henters with hleaf | ⟨_, hpadding⟩
      · exact Or.inl (List.getElem?_eq_some_iff.mp hleaf).1
      · exact Or.inr (hpadding ▸ hmem)
    · intro hstarts
      rcases leaf_pad hne henters with hleaf | ⟨hbehind, hpadding⟩
      · exact List.mem_of_getElem? hleaf
      · rcases hstarts with hwithin | hzero
        · omega
        · rw [hpadding]
          exact hzero
  case isFalse hheight =>
    split
    case isTrue hshort =>
      -- a shorter one at an inner node
      have henters := hauthentic.enters_short hshort.le
      rw [List.getD_eq_getElem?_getD, henters, Option.getD_some]
    case isFalse hlong => exact Iff.rfl

/-- **When `VerifySPV` does what it is for.**  For a proof and a non-empty block with its root:
there is a verdict, and acceptance shows inclusion or a collision, EXACTLY if there is a
direction for every sibling and the proof, if it is authentic, starts at a transaction and not
at an inner node, a padding leaf or below the leaves.  And every transaction has a proof. -/
theorem spv_inclusion_iff (proof : SPVProof) (hashes : List Bytes32) (hne : hashes ≠ [])
    (hroot : computeRootHash nodeHash hashes = some proof.merkleRoot) :
    (((∃ verdict, verifySPV proof = some verdict)
          ∧ (verifySPV proof = some true →
              proof.txHash ∈ hashes ∨ HashCollision proof hashes))
        ↔ proof.merklePath.length ≤ proof.pathIndices.length
          ∧ (Authentic proof hashes →
              StartsAtTransaction proof hashes ∨ HashCollision proof hashes))
      ∧ (∀ i < hashes.length, verifySPV (spvOpening hashes i) = some true
          ∧ (spvOpening hashes i).txHash = hashes.getD i 0
          ∧ (spvOpening hashes i).merkleRoot = proof.merkleRoot) := by
  constructor
  · constructor
    · rintro ⟨⟨verdict, hverdict⟩, hsound⟩
      have hlen : proof.merklePath.length ≤ proof.pathIndices.length := by
        rw [← verifySPV_isSome, hverdict]
        rfl
      refine ⟨hlen, fun hauthentic => ?_⟩
      rw [← mem_iff_startsAtTransaction hne hauthentic]
      exact hsound (accepted_of_authentic hne hroot hlen hauthentic)
    · rintro ⟨hlen, hstarts⟩
      refine ⟨⟨_, verifySPV_eq hlen⟩, fun haccepted => ?_⟩
      -- what is accepted is the tree's own, or two pairs collide
      rcases authentic_of_accepted hne hroot haccepted with hauthentic | hcol
      · rw [mem_iff_startsAtTransaction hne hauthentic]
        exact hstarts hauthentic
      · exact Or.inr hcol
  · intro i hi
    rw [root_pad, Option.some.injEq] at hroot
    exact ⟨verifySPV_opening hi, rfl, hroot⟩

theorem pad_two (a b : Bytes32) : pad [a, b] = [a, b] := by
  rw [pad, if_neg (by simp)]

theorem root_two (a b : Bytes32) : computeRootHash nodeHash [a, b] = some (nodeHash a b) := by
  rw [root_pad, pad_two, layerRoot]
  simp only [nextLayer, layerPairs, List.map_cons, List.map_nil, layerRoot]

/-- The proof of the second of two transactions. -/
def secondProof (a b : Bytes32) : SPVProof := ⟨b, nodeHash a b, [a], [true]⟩

theorem secondProof_accepted (a b : Bytes32) : verifySPV (secondProof a b) = some true := by
  have hindices : (secondProof a b).merklePath.length ≤ (secondProof a b).pathIndices.length :=
    Nat.le_refl 1
  rw [verifySPV_eq hindices, secondProof]
  simp only [spvSteps, List.zip_cons_cons, List.zip_nil_right, climb, stepPair, if_true,
    decide_true]

/-- It is accepted, and about a transaction of the block. -/
theorem second_included : verifySPV (secondProof 1 2) = some true
    ∧ ((secondProof 1 2).txHash ∈ [1, 2] ∨ HashCollision (secondProof 1 2) [1, 2]) := by
  have hroot : computeRootHash nodeHash [1, 2] = some (secondProof 1 2).merkleRoot := by
    rw [root_two, secondProof]
  have hheight : (secondProof 1 2).merklePath.length = Nat.clog 2 [(1 : Bytes32), 2].length :=
    (Nat.clog_eq_one (Nat.le_refl 2) (Nat.le_refl 2)).symm
  have hstarts : StartsAtTransaction (secondProof 1 2) [1, 2] := by
    unfold StartsAtTransaction
    rw [if_pos hheight]
    exact Or.inl (by decide)
  have hsound := ((spv_inclusion_iff (secondProof 1 2) [1, 2] (by simp) hroot).1.mpr
    ⟨Nat.le_refl 1, fun _ => Or.inl hstarts⟩).2
  exact ⟨secondProof_accepted 1 2, hsound (secondProof_accepted 1 2)⟩

/-- The root of a block of two, presented as a transaction with an empty path. -/
def rootProof (a b : Bytes32) : SPVProof := ⟨nodeHash a b, nodeHash a b, [], []⟩

theorem rootProof_accepted (a b : Bytes32) : verifySPV (rootProof a b) = some true := by
  have hindices : (rootProof a b).merklePath.length ≤ (rootProof a b).pathIndices.length :=
    Nat.le_refl 0
  rw [verifySPV_eq hindices, rootProof]
  simp only [spvSteps, List.zip_nil_right, climb, decide_true]

/-- The only pair hashed is that of the two transactions. -/
theorem hashedPairs_rootProof (a b : Bytes32) : hashedPairs (rootProof a b) [a, b] = [(a, b)] := by
  unfold hashedPairs
  rw [pad_two, rootPairs]
  simp only [nextLayer, layerPairs, List.map_cons, List.map_nil, rootPairs]
  rfl

theorem nodeHash_one_two : nodeHash 1 2
    = 0xe90b7bceb6e7df5418fb78d8ee546e97c83a08bbccc01a0644d599ccd2a7c2e0 := by
  decide +kernel

/-- A proof with a sibling and no direction panics; and with an empty path the root of a block
of two passes as a transaction. -/
theorem root_passes_as_transaction :
    (¬ ∀ proof : SPVProof, ∃ verdict, verifySPV proof = some verdict)
      ∧ ¬ ∀ (proof : SPVProof) (hashes : List Bytes32), hashes ≠ [] →
          computeRootHash nodeHash hashes = some proof.merkleRoot →
          verifySPV proof = some true →
          proof.txHash ∈ hashes ∨ HashCollision proof hashes := by
  constructor
  · intro hall
    obtain ⟨verdict, hverdict⟩ := hall ⟨0, 0, [0], []⟩
    cases hverdict
  · intro hall
    have hroot : computeRootHash nodeHash [1, 2] = some (rootProof 1 2).merkleRoot := by
      rw [root_two, rootProof]
    rcases hall (rootProof 1 2) [1, 2] (by simp) hroot (rootProof_accepted 1 2) with hmem | hcol
    · rw [rootProof, nodeHash_one_two] at hmem
      exact absurd hmem (by decide)
    · obtain ⟨p, hp, q, hq, hpq, _⟩ := hcol
      rw [hashedPairs_rootProof] at hp hq
      rw [List.mem_singleton.mp hp, List.mem_singleton.mp hq] at hpq
      exact hpq rfl

end HZKA.Relay
