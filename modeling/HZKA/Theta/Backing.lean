/-
  HZKA.Theta.Backing
  ────────────
  **BACKING OF MINTS ACROSS THE TWO CHAINS.**

  A mint on Chain II proves, to a verifier assumed sound, that a burn transaction
  opens `merkleRoot`; but `merkleRoot` is an argument of the call, compared with
  nothing.  Under a sound key, two things decide whether a mint is backed by a burn record
  on Chain I:

    • the root is that of a tree whose opened leaf is a recorded burn
      (`AuthenticRoot.recorded`);
    • the four bytes of the commitment that reach the burn-transaction hash pin the
      whole commitment of that burn (`AuthenticRoot.bound`).

  `mint_backed`: in a run whose Chain-II mints all meet the two, under the key the owner of
  Chain II deployed with, every mint is backed.
  `mint_not_backed`: a run with no burn at all in which the mint of a forged tree pays.
-/
import HZKA.Circuits.Transfer
import HZKA.Theta.World

namespace HZKA.Theta

open Function
open HZKA.Lib HZKA.Lib.Merkle HZKA.EVM HZKA.Groth16Verifier HZKA.TransferContract HZKA.Denomination
open HZKA.Circuits HZKA.Circuits.SHA256 HZKA.Circuits.MerkleTree
open HZKA.Circuits.Transfer (TxBurn Assignment commitment outsource txBurnHash txTreeBlocks
  TREE_HEIGHT)

/-! ## §1. The verifier's meaning. -/

/-- A caller's key as the circuit reads it: the address widened to 32 bytes. -/
def addressKey (a : Address) : Vector Byte 32 := vecBE 32 (a.setWidth 256)

/-- **Soundness of the mint verifier**: from an accepted proof a satisfying assignment
of the mint-mode circuit with exactly those public inputs can be read off. -/
structure MintWitness (pairing : PairingCheck) (vk : VerifyingKey) where
  witness : Proof → List Nat → Assignment
  sound : ∀ proof inputs, verify pairing vk proof inputs = .ok true →
    outsource (witness proof inputs)
      ∧ ((witness proof inputs).publicInputs true).encode = inputs

/-- Public inputs of a mint, read back from the circuit's side. -/
theorem inputs_of_encode {a : Assignment} {msg : Msg} {serialNumber : Bytes32} {amount : Nat}
    {merkleRoot : Bytes32}
    (h : (a.publicInputs true).encode = mintInputs msg serialNumber amount merkleRoot) :
    a.fpk_R = addressKey msg.sender ∧ a.sn = vecBE 32 serialNumber ∧ a.v_S.toNat = amount
      ∧ a.root_Burn.toWord = merkleRoot := by
  simp only [Transfer.PublicInputs.encode, Transfer.Assignment.publicInputs, mintInputs,
    List.cons.injEq, and_true, if_true] at h
  obtain ⟨hkey, hsn, hamount, hroot⟩ := h
  refine ⟨key_of_encoded ?_, key_of_encoded hsn, hamount, ?_⟩
  · rw [hkey, BitVec.toNat_setWidth_of_le (by decide)]
  · exact BitVec.eq_of_toNat_eq ((Digest.toNat_toWord _).trans hroot)

/-! ## §2. The property and the condition. -/

/-- A burn record of `amount` whose commitment is `h(receiver, r, sn)` for some `r`. -/
def Backed (c : TransferContract) (receiver : Address) (serialNumber : Bytes32)
    (amount : Nat) : Prop :=
  ∃ id r, (c.burns id).amount = amount
    ∧ (c.burns id).hashCommitment
      = (commitment (addressKey receiver) r (vecBE 32 serialNumber)).toWord

/-- Every successful Chain-II mint of the run is backed when it happens. -/
def MintsBacked (pairing : PairingCheck) (w₀ : World) (txs : List WorldTx) : Prop :=
  ∀ before msg serialNumber amount merkleRoot proof after,
    txs = before ++ ⟨.II, msg, .mint serialNumber amount merkleRoot proof⟩ :: after →
    (execWorld pairing ⟨.II, msg, .mint serialNumber amount merkleRoot proof⟩
      (run (execWorld pairing) w₀ before)).isOk = true →
    Backed (run (execWorld pairing) w₀ before .I) msg.sender serialNumber amount

/-- A burn transaction whose amount and commitment are those of a record. -/
def RecordedBurn (c : TransferContract) (tx : TxBurn) : Prop :=
  ∃ id, (c.burns id).amount = tx.v_S.toNat
    ∧ (c.burns id).hashCommitment = tx.hashCommitment.toWord

/-- The leaf of the tree that the assignment opens. -/
def openedBurn (a : Assignment) (t : Tree TxBurn TREE_HEIGHT) : TxBurn :=
  t.get (position a.directionBits)

/-- `merkleRoot` is the root of a tree `t`; the burn it is opened at is recorded, and has the
witness's commitment if the first four bytes are the same. -/
structure AuthenticRoot (c : TransferContract) (a : Assignment) (merkleRoot : Bytes32)
    (t : Tree TxBurn TREE_HEIGHT) : Prop where
  root : (t.root txBurnHash nodeHash).toWord = merkleRoot
  recorded : RecordedBurn c (openedBurn a t)
  bound : (openedBurn a t).hashCommitment.bytes.take 4 = a.hashCommitment.bytes.take 4 →
    (openedBurn a t).hashCommitment = a.hashCommitment
  noCollision : ¬ Collision a.blocks (txTreeBlocks t)

/-- A Chain-II mint that succeeds is verified under the sound key and names an authentic root. -/
def MintCondition {pairing : PairingCheck} {vk : VerifyingKey} (E : MintWitness pairing vk)
    (w : World) (tx : WorldTx) : Prop :=
  ∀ msg serialNumber amount merkleRoot proof,
    tx = ⟨.II, msg, .mint serialNumber amount merkleRoot proof⟩ →
    (execWorld pairing tx w).isOk = true →
    (w .II).vk_theta_mint = vk ∧ ∃ t, AuthenticRoot (w .I)
      (E.witness proof (mintInputs msg serialNumber amount merkleRoot)) merkleRoot t

/-! ## §3. One mint. -/

/-- **One mint** under an authentic root is backed. -/
theorem backed_of_authentic {c : TransferContract} {a : Assignment} {msg : Msg}
    {serialNumber merkleRoot : Bytes32} {amount : Nat} {t : Tree TxBurn TREE_HEIGHT}
    (ha : outsource a)
    (hinputs : (a.publicInputs true).encode = mintInputs msg serialNumber amount merkleRoot)
    (hauth : AuthenticRoot c a merkleRoot t) : Backed c msg.sender serialNumber amount := by
  obtain ⟨hkey, hsn, hamount, hroot⟩ := inputs_of_encode hinputs
  have hroot' : a.root_Burn = t.root txBurnHash nodeHash :=
    Digest.toWord_inj (hroot.trans hauth.root.symm)
  have hblock := Transfer.outsource_opens ha t hroot' hauth.noCollision
  -- the block gives the amount and four bytes of the commitment; `bound` gives the rest
  obtain ⟨-, -, hv, hfour⟩ := Transfer.txBurn_block_inj hblock
  have hcommit := hauth.bound hfour.symm
  obtain ⟨id, hid, hidc⟩ := hauth.recorded
  refine ⟨id, a.r, ?_, ?_⟩
  · rw [hid, ← hamount]
    exact congrArg BitVec.toNat hv.symm
  · rw [hidc, hcommit, ← hkey, ← hsn]
    rfl

/-! ## §4. A mint of the sample block.

The receiver `0xB0B` mints 1 ether under serial number 7 with the tree of sixteen copies of
the sample burn.  The verifier is the ideal one: it accepts exactly the statements that have a
satisfying assignment. -/

/-- The statement the mint verifier decides. -/
def MintStatement (publicInputs : List Nat) : Prop :=
  ∃ a : Assignment, outsource a ∧ (a.publicInputs true).encode = publicInputs

/-- The receiver. -/
def receiverMsg : Msg := ⟨0xB0B, 1, 100, true⟩

/-- The inputs of the sample mint. -/
def sampleInputs : List Nat :=
  mintInputs receiverMsg 7 DENOM_4 Transfer.sampleRoot.toWord

theorem sample_encode : (Transfer.sample.publicInputs true).encode = sampleInputs := by
  decide +kernel

/-- The ideal verifier is sound; on the sample's inputs the witness is the sample. -/
noncomputable def sampleWitness (vk : VerifyingKey) :
    MintWitness (idealPairing MintStatement) vk where
  witness := open Classical in fun _ inputs =>
    if inputs = sampleInputs then Transfer.sample
    else if h : MintStatement inputs then h.choose else Transfer.sample
  sound := by
    intro proof inputs hverify
    have hstatement := idealPairing_eq_true.mp (verify_eq_true.mp hverify).2.2
    by_cases hsample : inputs = sampleInputs
    · rw [if_pos hsample, hsample]
      exact ⟨Transfer.sample_outsource, sample_encode⟩
    · rw [if_neg hsample, dif_pos hstatement]
      exact hstatement.choose_spec

/-- The verifier accepts the sample. -/
theorem sample_verified : verify (idealPairing MintStatement) (emptyKey 4) emptyProof sampleInputs
    = .ok true := by
  refine verify_eq_true.mpr ⟨rfl, by decide +kernel, ?_⟩
  exact idealPairing_eq_true.mpr ⟨Transfer.sample, Transfer.sample_outsource, sample_encode⟩

/-- The mint. -/
def sampleMint : WorldTx :=
  ⟨.II, receiverMsg, .mint 7 DENOM_4 Transfer.sampleRoot.toWord emptyProof⟩

/-- Anyone funds Chain II with 1 ether. -/
def fundChainII : WorldTx := ⟨.II, receiverMsg, .deposit DENOM_4⟩

/-- Both contracts with a mint key for four inputs. -/
def sampleWorld : World := deployed (fun _ => 1) (fun _ => emptyKey 4) (fun _ => emptyKey 4)

/-- The sample mint pays. -/
theorem sampleMint_ok {w : World} (hvk : (w .II).vk_theta_mint = emptyKey 4)
    (hfresh : (w .II).mintedSerialNumbers 7 = false)
    (hfunds : DENOM_4 ≤ (w .II).balance) :
    (execWorld (idealPairing MintStatement) sampleMint w).isOk = true := by
  have hguards : CanMint (idealPairing MintStatement) receiverMsg 7 DENOM_4
      Transfer.sampleRoot.toWord emptyProof (w .II) := by
    refine ⟨hfresh, ?_, hfunds, ?_, rfl⟩
    · simp [isValidDenomination]
    · rw [hvk]
      exact sample_verified
  have hexec : TransferContract.exec (idealPairing MintStatement) sampleMint.tx (w sampleMint.chain)
      = .ok (afterMint receiverMsg 7 DENOM_4 (w .II)) :=
    mint_eq_ok.mpr ⟨hguards, rfl⟩
  rw [execWorld_eq_ok.mpr ⟨_, hexec, rfl⟩]
  rfl

theorem commit_fundChainII (w : World) :
    commit (execWorld (idealPairing MintStatement)) w fundChainII
      = update w .II (credit DENOM_4 (w .II)) :=
  commit_of_ok (execWorld_eq_ok.mpr ⟨_, rfl, rfl⟩)

/-- The sender `0xA11CE` burns 1 ether on Chain I under the sample commitment. -/
def senderMsg : Msg := ⟨0xA11CE, 1, 100, true⟩

/-- The burn it is backed by. -/
def sampleBurn : WorldTx :=
  ⟨.I, senderMsg, .burn DENOM_4 Transfer.sampleCommitment.toWord⟩

/-- Chain I after the sample burn. -/
def burnedI : TransferContract :=
  afterBurn senderMsg Transfer.sampleCommitment.toWord DENOM_4
    (credit DENOM_4 (sampleWorld .I))

theorem commit_sampleBurn :
    commit (execWorld (idealPairing MintStatement)) sampleWorld sampleBurn
      = update sampleWorld .I burnedI := by
  have hpos : DENOM_4 > 0 := by simp [DENOM_4]
  have hvalid : isValidDenomination DENOM_4 = true := by
    simp [isValidDenomination]
  refine commit_of_ok (execWorld_eq_ok.mpr ⟨burnedI, ?_, rfl⟩)
  show TransferContract.burn senderMsg DENOM_4 _ _ = .ok burnedI
  rw [TransferContract.burn, require_bind hpos, require_bind hvalid]
  exact createBurn_eq_ok.mpr ⟨rfl, by decide, rfl⟩

/-- Sixteen copies of the sample. -/
def sampleTree : Tree TxBurn TREE_HEIGHT := Tree.replicate Transfer.sampleTx 4

theorem sampleTree_levels :
    (Tree.replicate Transfer.sampleTx 0).root txBurnHash nodeHash = Transfer.sampleLeaf
    ∧ (Tree.replicate Transfer.sampleTx 1).root txBurnHash nodeHash = Transfer.sampleNode₁
    ∧ (Tree.replicate Transfer.sampleTx 2).root txBurnHash nodeHash = Transfer.sampleNode₂
    ∧ (Tree.replicate Transfer.sampleTx 3).root txBurnHash nodeHash = Transfer.sampleNode₃ := by
  have h₀ : (Tree.replicate Transfer.sampleTx 0).root txBurnHash nodeHash = Transfer.sampleLeaf :=
    Transfer.hash_sampleTx
  have h₁ : (Tree.replicate Transfer.sampleTx 1).root txBurnHash nodeHash
      = Transfer.sampleNode₁ := by
    show nodeHash (_, _) = _
    rw [h₀, Transfer.hash_sampleLeaf]
  have h₂ : (Tree.replicate Transfer.sampleTx 2).root txBurnHash nodeHash
      = Transfer.sampleNode₂ := by
    show nodeHash (_, _) = _
    rw [h₁, Transfer.hash_sampleNode₁]
  have h₃ : (Tree.replicate Transfer.sampleTx 3).root txBurnHash nodeHash
      = Transfer.sampleNode₃ := by
    show nodeHash (_, _) = _
    rw [h₂, Transfer.hash_sampleNode₂]
  exact ⟨h₀, h₁, h₂, h₃⟩

/-- The root of the tree. -/
theorem sampleTree_root : sampleTree.root txBurnHash nodeHash = Transfer.sampleRoot := by
  show nodeHash (_, _) = _
  rw [sampleTree_levels.2.2.2, Transfer.hash_sampleNode₃]

/-- The blocks of the sample tree are among those of the sample assignment. -/
theorem sampleTree_blocks : txTreeBlocks sampleTree ⊆ Transfer.sample.blocks := by
  obtain ⟨h₀, h₁, h₂, h₃⟩ := sampleTree_levels
  have hblocks : Transfer.sample.blocks
      = Transfer.commitmentBlock Transfer.sample.fpk_R Transfer.sample.r Transfer.sample.sn
        :: Transfer.txBurnBlock Transfer.sampleTx
        :: [nodeBlock (Transfer.sampleNode₃, Transfer.sampleNode₃),
          nodeBlock (Transfer.sampleNode₂, Transfer.sampleNode₂),
          nodeBlock (Transfer.sampleNode₁, Transfer.sampleNode₁),
          nodeBlock (Transfer.sampleLeaf, Transfer.sampleLeaf)] := by
    rw [Transfer.Assignment.blocks, Transfer.sample_txBurn, Transfer.hash_sampleTx, pathBlocks,
      Transfer.sample_pathPairs]
    rfl
  rw [hblocks, ← h₀, ← h₁, ← h₂, ← h₃]
  exact List.Subset.trans
    (blocks_replicate_subset txBurnHash Transfer.txBurnBlock Transfer.sampleTx 4)
    (List.subset_cons_self _ _)

/-- The sample root is authentic. -/
theorem sample_authentic :
    AuthenticRoot burnedI Transfer.sample Transfer.sampleRoot.toWord sampleTree := by
  have hopened : openedBurn Transfer.sample sampleTree = Transfer.sampleTx :=
    Tree.get_replicate Transfer.sampleTx 4 _
  refine ⟨by rw [sampleTree_root], ?_, ?_, ?_⟩
  · rw [hopened]
    refine ⟨burnKey senderMsg Transfer.sampleCommitment.toWord
      (credit DENOM_4 (sampleWorld .I)), ?_, ?_⟩
    · rw [burnedI, burns_afterBurn_self]
      show DENOM_4 = Transfer.sampleTx.v_S.toNat
      decide +kernel
    · rw [burnedI, burns_afterBurn_self]
      rfl
  · intro _
    rw [hopened, Transfer.sample_hashCommitment]
    rfl
  · intro hcol
    exact Transfer.sample_no_collision (hcol.mono (List.Subset.refl _) sampleTree_blocks)

/-! ## §5. Whole runs. -/

/-- **Mints are backed** in every run whose Chain-II mints name authentic roots. -/
theorem mint_backed (pairing : PairingCheck) (owner : Chain → Address)
    (vkMint vkRedeem : Chain → VerifyingKey) (E : MintWitness pairing (vkMint .II))
    (txs : List WorldTx)
    (hmeet : StepsMeet (execWorld pairing) (MintCondition E) (deployed owner vkMint vkRedeem) txs) :
    MintsBacked pairing (deployed owner vkMint vkRedeem) txs := by
  intro before msg serialNumber amount merkleRoot proof after htxs hok
  rw [htxs, stepsMeet_append] at hmeet
  obtain ⟨hkey, t, hauth⟩ := hmeet.2.1 msg serialNumber amount merkleRoot proof rfl hok
  -- the mint succeeded, so the verifier accepted its public inputs
  have heffect := execWorld_effect (exec_eq_ok_commit hok)
  cases heffect with
  | mint guards after =>
    have hverify := guards.verified
    rw [hkey] at hverify
    obtain ⟨hout, hinputs⟩ := E.sound _ _ hverify
    exact backed_of_authentic hout hinputs hauth
  | burn _ notMint _ => exact absurd rfl (notMint serialNumber amount merkleRoot proof)

/-- The sample burn, then the mint. -/
theorem sample_mint_backed :
    MintsBacked (idealPairing MintStatement) sampleWorld [sampleBurn, fundChainII, sampleMint] := by
  refine mint_backed (idealPairing MintStatement) (fun _ => 1) (fun _ => emptyKey 4)
    (fun _ => emptyKey 4) (sampleWitness (emptyKey 4)) _ ⟨?_, ?_, ?_, trivial⟩
  · intro msg sn amount root proof htx
    have hchain : Chain.I = Chain.II := congrArg WorldTx.chain htx
    exact absurd hchain (by decide)
  · intro msg sn amount root proof htx
    exact absurd (congrArg (fun tx => tx.tx.call) htx) (by simp [fundChainII])
  · intro msg sn amount root proof htx _
    cases htx
    refine ⟨?_, sampleTree, ?_⟩
    · show (commit _ (commit _ sampleWorld sampleBurn) fundChainII .II).vk_theta_mint = emptyKey 4
      rw [commit_fundChainII, commit_sampleBurn, update_self]
      rfl
    have hI : commit (execWorld (idealPairing MintStatement))
        (commit (execWorld (idealPairing MintStatement)) sampleWorld sampleBurn) fundChainII .I
        = burnedI := by
      rw [commit_fundChainII, commit_sampleBurn, update_of_ne (by decide),
        update_self]
    have hwitness : (sampleWitness (emptyKey 4)).witness emptyProof sampleInputs
        = Transfer.sample := if_pos rfl
    have hauth := sample_authentic
    rw [← hI, ← hwitness] at hauth
    exact hauth

/-- With no burn on Chain I at all, the mint of the same tree pays 1 ether on Chain II; the keys
are those of the deployment throughout. -/
theorem mint_not_backed : ¬ ∀ (pairing : PairingCheck) (owner : Chain → Address)
    (vkMint vkRedeem : Chain → VerifyingKey) (_ : MintWitness pairing (vkMint .II))
    (txs : List WorldTx), (∀ tx ∈ txs, tx.tx.call.KeepsKeys) →
    MintsBacked pairing (deployed owner vkMint vkRedeem) txs := by
  intro hall
  have hback := hall (idealPairing MintStatement) (fun _ => 1) (fun _ => emptyKey 4)
    (fun _ => emptyKey 4) (sampleWitness (emptyKey 4)) [fundChainII, sampleMint]
    (by simp [fundChainII, sampleMint, Call.KeepsKeys]) [fundChainII] receiverMsg 7
    DENOM_4 Transfer.sampleRoot.toWord emptyProof [] rfl
  have hrun : run (execWorld (idealPairing MintStatement)) sampleWorld [fundChainII]
      = update sampleWorld .II (credit DENOM_4 (sampleWorld .II)) :=
    commit_fundChainII sampleWorld
  have hmint : (execWorld (idealPairing MintStatement) sampleMint
      (run (execWorld (idealPairing MintStatement)) sampleWorld [fundChainII])).isOk = true := by
    rw [hrun]
    refine sampleMint_ok ?_ ?_ ?_
    · rw [update_self]
      rfl
    · rw [update_self]
      rfl
    · rw [update_self]
      exact Nat.le_add_left _ _
  obtain ⟨id, r, hamount, -⟩ : Backed (run (execWorld (idealPairing MintStatement)) sampleWorld
      [fundChainII] .I) receiverMsg.sender 7 DENOM_4 := hback hmint
  -- no record on Chain I has an amount
  rw [hrun, update_of_ne (by decide)] at hamount
  have hzero : (0 : Nat) = DENOM_4 := hamount
  simp [DENOM_4] at hzero

end HZKA.Theta
