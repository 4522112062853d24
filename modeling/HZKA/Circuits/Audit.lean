/-
  HZKA.Circuits.Audit
  ────────────
  **THE AUDIT CIRCUIT Λ_Ψ** (`AuditCircuit.java`), for any number of transactions:
  blacklist check, (unconstrained) signature, two openings of the old root, balance
  update, two openings of the new root.

  The four openings of a transaction carry siblings and directions of their own.
  Nothing relates the new openings to the old ones, so the constraints say that the
  new root HAS the two updated accounts somewhere, not that everything else stayed.

    • `Transaction.apply` — what the transaction should do to the state tree: write
      the two updated accounts at the positions of the two old openings;
    • `old_openings` — under collision-freeness the old openings are the true ones of
      the sender's and the receiver's account;
    • `total_apply` — the total balance after `apply`: unchanged, except that a
      transaction from a position to itself adds its amount.
-/
import HZKA.Circuits.MerkleTree

namespace HZKA.Circuits.Audit

open HZKA.Lib HZKA.Lib.Merkle HZKA.Circuits.SHA256 HZKA.Circuits.MerkleTree

/-! ## §1. Wires. -/

/-- A tree of 256 accounts. -/
abbrev STATE_TREE_HEIGHT : Nat := 8

/-- Entries of the blacklist. -/
def BLACKLIST_SIZE : Nat := 16

/-- The constants are never set: sixteen all-zero keys. -/
def BLACKLIST : List (Vector Byte 32) := List.replicate BLACKLIST_SIZE (Vector.replicate 32 0)

/-- The wires of one transaction. -/
structure Transaction where
  fpk_sender : Vector Byte 32
  fpk_receiver : Vector Byte 32
  amount : BitVec 64
  signature : Vector Byte 64
  sender_balance_old : BitVec 64
  receiver_balance_old : BitVec 64
  sender_merkle_old : Vector Digest STATE_TREE_HEIGHT
  sender_direction_old : Vector Bool STATE_TREE_HEIGHT
  receiver_merkle_old : Vector Digest STATE_TREE_HEIGHT
  receiver_direction_old : Vector Bool STATE_TREE_HEIGHT
  sender_merkle_new : Vector Digest STATE_TREE_HEIGHT
  sender_direction_new : Vector Bool STATE_TREE_HEIGHT
  receiver_merkle_new : Vector Digest STATE_TREE_HEIGHT
  receiver_direction_new : Vector Bool STATE_TREE_HEIGHT

/-- All wires of the circuit for a batch of `n` transactions. -/
structure Assignment (n : Nat) where
  root_old : Digest
  root_new : Digest
  tx : Fin n → Transaction
  intermediate_roots : Fin (n + 1) → Digest

/-! ## §2. The four modules. -/

/-- AF: the sender's key matches no blacklisted key in all 32 bytes. -/
def auditingFunction (senderFpk : Vector Byte 32) : Prop :=
  ∀ black ∈ BLACKLIST,
    (senderFpk.toList.zip black.toList).foldl (fun isMatch b => isMatch && b.1 == b.2) true = false

/-- SVF: the transaction hash is computed and compared with nothing. -/
def signatureVerification (tx : Transaction) : Prop :=
  let _txHash := SHA256.hash (tx.fpk_sender.toList ++ tx.fpk_receiver.toList ++ bytesBE 8 tx.amount)
  True

namespace Transaction

/-- The sender's account before the transfer. -/
def senderOld (tx : Transaction) : Account := ⟨tx.fpk_sender, tx.sender_balance_old⟩

/-- The receiver's account before the transfer. -/
def receiverOld (tx : Transaction) : Account := ⟨tx.fpk_receiver, tx.receiver_balance_old⟩

/-- `senderBalanceOld.subtract(amount)`. -/
def senderNew (tx : Transaction) : Account := ⟨tx.fpk_sender, tx.sender_balance_old - tx.amount⟩

/-- `receiverBalanceOld.add(amount)`. -/
def receiverNew (tx : Transaction) : Account :=
  ⟨tx.fpk_receiver, tx.receiver_balance_old + tx.amount⟩

end Transaction

/-- RVF: both old accounts open the old root. -/
def rootVerificationOld (tx : Transaction) (expectedRoot : Digest) : Prop :=
  verifyMerkleProof (computeLeafHash tx.senderOld) tx.sender_merkle_old tx.sender_direction_old
      expectedRoot
    ∧ verifyMerkleProof (computeLeafHash tx.receiverOld) tx.receiver_merkle_old
      tx.receiver_direction_old expectedRoot

/-- STF: sufficient balance, no overflow, both new accounts open the new root. -/
def stateTransition (tx : Transaction) (expectedNewRoot : Digest) : Prop :=
  tx.amount ≤ tx.senderOld.balance
    ∧ tx.receiverOld.balance ≤ tx.receiverNew.balance
    ∧ verifyMerkleProof (computeLeafHash tx.senderNew) tx.sender_merkle_new
      tx.sender_direction_new expectedNewRoot
    ∧ verifyMerkleProof (computeLeafHash tx.receiverNew) tx.receiver_merkle_new
      tx.receiver_direction_new expectedNewRoot

/-- The constraints of one transaction between two roots. -/
structure ProcessTransaction (tx : Transaction) (before after : Digest) : Prop where
  audited : auditingFunction tx.fpk_sender
  signed : signatureVerification tx
  oldRoot : rootVerificationOld tx before
  transition : stateTransition tx after

/-- **The constraints of the circuit.** -/
structure Outsource {n : Nat} (a : Assignment n) : Prop where
  first : a.intermediate_roots 0 = a.root_old
  process : ∀ t, ProcessTransaction (a.tx t) (a.intermediate_roots t.castSucc)
    (a.intermediate_roots t.succ)
  last : a.intermediate_roots (Fin.last n) = a.root_new

/-! ## §3. The intended transition of the state tree. -/

/-- The tree of accounts. -/
abbrev StateTree := Tree Account STATE_TREE_HEIGHT

/-- The root the chain commits to. -/
def stateRoot (t : StateTree) : Digest := t.root computeLeafHash nodeHash

/-- The sum of all balances. -/
def totalBalance (t : StateTree) : Nat := t.total (fun a => a.balance.toNat)

namespace Transaction

/-- Position of the sender's account, from its old opening. -/
def senderPosition (tx : Transaction) : List Bool := position tx.sender_direction_old

/-- Position of the receiver's account, from its old opening. -/
def receiverPosition (tx : Transaction) : List Bool := position tx.receiver_direction_old

theorem senderPosition_length (tx : Transaction) : tx.senderPosition.length = STATE_TREE_HEIGHT :=
  position_length _

theorem receiverPosition_length (tx : Transaction) :
    tx.receiverPosition.length = STATE_TREE_HEIGHT :=
  position_length _

/-- **The intended effect**: the two named leaves replaced, everything else kept. -/
def apply (tx : Transaction) (t : StateTree) : StateTree :=
  (t.set tx.senderPosition tx.senderNew).set tx.receiverPosition tx.receiverNew

/-- The root after the transaction as the OLD openings determine it. -/
def rootAfter (tx : Transaction) : Digest :=
  recompute₂ nodeHash (computeLeafHash tx.senderNew) (computeLeafHash tx.receiverNew)
    (pathOf tx.sender_merkle_old tx.sender_direction_old)
    (pathOf tx.receiver_merkle_old tx.receiver_direction_old)

/-- The blocks compressed for the four openings. -/
def blocks (tx : Transaction) : List (List Byte) :=
  accountPathBlocks tx.senderOld tx.sender_merkle_old tx.sender_direction_old
    ++ accountPathBlocks tx.receiverOld tx.receiver_merkle_old tx.receiver_direction_old
    ++ accountPathBlocks tx.senderNew tx.sender_merkle_new tx.sender_direction_new
    ++ accountPathBlocks tx.receiverNew tx.receiver_merkle_new tx.receiver_direction_new

end Transaction

/-- An unnamed position keeps its account. -/
theorem get_apply_of_ne (tx : Transaction) (t : StateTree) {p : List Bool}
    (hp : p.length = STATE_TREE_HEIGHT) (hs : p ≠ tx.senderPosition)
    (hr : p ≠ tx.receiverPosition) : (tx.apply t).get p = t.get p := by
  rw [Transaction.apply,
    Tree.get_set_of_ne _ _ _ _ tx.receiverPosition_length hp (Ne.symm hr),
    Tree.get_set_of_ne _ _ _ _ tx.senderPosition_length hp (Ne.symm hs)]

/-! ## §4. One transaction. -/

/-- What the old openings establish about the tree under the old root. -/
structure OldOpenings (tx : Transaction) (t : StateTree) : Prop where
  sender : t.get tx.senderPosition = tx.senderOld
  senderPath : pathOf tx.sender_merkle_old tx.sender_direction_old
    = opening computeLeafHash nodeHash t tx.senderPosition
  receiver : t.get tx.receiverPosition = tx.receiverOld
  receiverPath : pathOf tx.receiver_merkle_old tx.receiver_direction_old
    = opening computeLeafHash nodeHash t tx.receiverPosition

/-- Both old leaves are in the tree. -/
theorem old_openings {tx : Transaction} {t : StateTree}
    (h : rootVerificationOld tx (stateRoot t))
    (hfree : ¬ Collision tx.blocks (accountTreeBlocks t)) : OldOpenings tx t := by
  obtain ⟨hs, hr⟩ := h
  have hsub : accountPathBlocks tx.senderOld tx.sender_merkle_old tx.sender_direction_old
      ⊆ tx.blocks := by
    intro b hb
    simp only [Transaction.blocks, List.mem_append]
    tauto
  have hsub' : accountPathBlocks tx.receiverOld tx.receiver_merkle_old tx.receiver_direction_old
      ⊆ tx.blocks := by
    intro b hb
    simp only [Transaction.blocks, List.mem_append]
    tauto
  obtain ⟨hacc, hpath⟩ := account_opening_sound t tx.senderOld _ _ hs
    (fun hc => hfree (hc.mono hsub (List.Subset.refl _)))
  obtain ⟨hacc', hpath'⟩ := account_opening_sound t tx.receiverOld _ _ hr
    (fun hc => hfree (hc.mono hsub' (List.Subset.refl _)))
  exact ⟨hacc, hpath, hacc', hpath'⟩

/-- The root of the intended tree, from the old openings alone. -/
theorem stateRoot_apply {tx : Transaction} {t : StateTree} (h : OldOpenings tx t) :
    stateRoot (tx.apply t) = tx.rootAfter := by
  rw [stateRoot, Transaction.apply,
    root_set_set t _ _ _ _ tx.senderPosition_length tx.receiverPosition_length,
    ← h.senderPath, ← h.receiverPath]
  rfl

/-- The subtraction does not wrap. -/
theorem senderNew_balance {tx : Transaction} (h : tx.amount ≤ tx.senderOld.balance) :
    tx.senderNew.balance.toNat + tx.amount.toNat = tx.senderOld.balance.toNat := by
  have hle : tx.amount ≤ tx.sender_balance_old := h
  show (tx.sender_balance_old - tx.amount).toNat + _ = tx.sender_balance_old.toNat
  rw [BitVec.toNat_sub_of_le hle, Nat.sub_add_cancel (BitVec.le_def.mp hle)]

/-- A sum that is not below its first term has not wrapped. -/
theorem receiverNew_balance {tx : Transaction} (h : tx.receiverOld.balance ≤ tx.receiverNew.balance) :
    tx.receiverNew.balance.toNat = tx.receiverOld.balance.toNat + tx.amount.toNat := by
  have hle : tx.receiver_balance_old.toNat ≤ (tx.receiver_balance_old + tx.amount).toNat := h
  show (tx.receiver_balance_old + tx.amount).toNat = tx.receiver_balance_old.toNat + _
  have hlt := tx.receiver_balance_old.isLt
  have hlt' := tx.amount.isLt
  rw [BitVec.toNat_add] at hle ⊢
  omega

/-- **The total after the intended transition.** -/
theorem total_apply {tx : Transaction} {t : StateTree} {after : Digest} (h : OldOpenings tx t)
    (htrans : stateTransition tx after) :
    totalBalance (tx.apply t) = totalBalance t
      + (if tx.senderPosition = tx.receiverPosition then tx.amount.toNat else 0) := by
  obtain ⟨hsuff, hover, -, -⟩ := htrans
  have hs := senderNew_balance hsuff
  have hr := receiverNew_balance hover
  have hset₁ := t.total_set (fun a => a.balance.toNat) tx.senderPosition tx.senderNew
  have hset₂ := (t.set tx.senderPosition tx.senderNew).total_set (fun a => a.balance.toNat)
    tx.receiverPosition tx.receiverNew
  rw [h.sender] at hset₁
  by_cases hpos : tx.senderPosition = tx.receiverPosition
  · -- one position: the receiver's account overwrites the sender's
    have hold : tx.senderOld = tx.receiverOld := by rw [← h.sender, ← h.receiver, hpos]
    rw [← hpos, Tree.get_set_self] at hset₂
    have hbal : tx.senderOld.balance.toNat = tx.receiverOld.balance.toNat := by rw [hold]
    rw [if_pos hpos, totalBalance, totalBalance, Transaction.apply, ← hpos]
    omega
  · rw [Tree.get_set_of_ne t _ _ _ tx.senderPosition_length tx.receiverPosition_length hpos,
      h.receiver] at hset₂
    rw [if_neg hpos, totalBalance, totalBalance, Transaction.apply]
    omega

/-! ## §5. The wires of an honest prover. -/

/-- A transfer between two accounts of the tree, with its true openings before and after. -/
def transferIn (t : StateTree) (sender receiver : Vector Bool STATE_TREE_HEIGHT)
    (amount : BitVec 64) : Transaction :=
  let s := t.get (position sender)
  let r := t.get (position receiver)
  let after := (t.set (position sender) ⟨s.fpk, s.balance - amount⟩).set (position receiver)
    ⟨r.fpk, r.balance + amount⟩
  { fpk_sender := s.fpk
    fpk_receiver := r.fpk
    amount := amount
    signature := Vector.replicate 64 0
    sender_balance_old := s.balance
    receiver_balance_old := r.balance
    sender_merkle_old := openingSiblings computeLeafHash t sender
    sender_direction_old := sender
    receiver_merkle_old := openingSiblings computeLeafHash t receiver
    receiver_direction_old := receiver
    sender_merkle_new := openingSiblings computeLeafHash after sender
    sender_direction_new := sender
    receiver_merkle_new := openingSiblings computeLeafHash after receiver
    receiver_direction_new := receiver }

section Honest

variable {t : StateTree} {sender receiver : Vector Bool STATE_TREE_HEIGHT} {amount : BitVec 64}
  (hne : position sender ≠ position receiver)

include hne

/-- The sender pays. -/
theorem get_sender_transferIn :
    ((transferIn t sender receiver amount).apply t).get (position sender)
      = (transferIn t sender receiver amount).senderNew := by
  rw [Transaction.apply]
  refine (Tree.get_set_of_ne _ _ _ _ (position_length _) (position_length _) hne.symm).trans ?_
  exact Tree.get_set_self _ _ _

/-- **Completeness**: a transfer between two accounts with the balance for it satisfies the
constraints. -/
theorem processTransaction_transferIn
    (haudit : auditingFunction (t.get (position sender)).fpk)
    (hsuff : amount ≤ (t.get (position sender)).balance)
    (hover : (t.get (position receiver)).balance ≤ (t.get (position receiver)).balance + amount) :
    ProcessTransaction (transferIn t sender receiver amount) (stateRoot t)
      (stateRoot ((transferIn t sender receiver amount).apply t)) := by
  have hsender := verifyMerkleProof_opening
    (pathOf_openingSiblings computeLeafHash ((transferIn t sender receiver amount).apply t) sender)
  have hreceiver := verifyMerkleProof_opening
    (pathOf_openingSiblings computeLeafHash ((transferIn t sender receiver amount).apply t) receiver)
  rw [get_sender_transferIn hne] at hsender
  rw [Transaction.apply, show (transferIn t sender receiver amount).receiverPosition
    = position receiver from rfl, Tree.get_set_self] at hreceiver
  exact ⟨haudit, trivial, ⟨verifyMerkleProof_opening (pathOf_openingSiblings computeLeafHash t sender),
    verifyMerkleProof_opening (pathOf_openingSiblings computeLeafHash t receiver)⟩, hsuff, hover, hsender, hreceiver⟩

/-- Its openings compress blocks of the two trees only. -/
theorem blocks_transferIn : (transferIn t sender receiver amount).blocks
    ⊆ accountTreeBlocks t ++ accountTreeBlocks ((transferIn t sender receiver amount).apply t) := by
  have hold := fun d => accountPathBlocks_opening (pathOf_openingSiblings computeLeafHash t d)
  have hnew := fun d => accountPathBlocks_opening
    (pathOf_openingSiblings computeLeafHash ((transferIn t sender receiver amount).apply t) d)
  have hsender := hnew sender
  have hreceiver := hnew receiver
  rw [get_sender_transferIn hne] at hsender
  rw [show ((transferIn t sender receiver amount).apply t).get (position receiver)
    = (transferIn t sender receiver amount).receiverNew from Tree.get_set_self _ _ _] at hreceiver
  refine List.append_subset.mpr ⟨List.append_subset.mpr ⟨List.append_subset.mpr ⟨?_, ?_⟩, ?_⟩, ?_⟩
  · exact List.Subset.trans (hold sender) (List.subset_append_left _ _)
  · exact List.Subset.trans (hold receiver) (List.subset_append_left _ _)
  · exact List.Subset.trans hsender (List.subset_append_right _ _)
  · exact List.Subset.trans hreceiver (List.subset_append_right _ _)

end Honest

end HZKA.Circuits.Audit
