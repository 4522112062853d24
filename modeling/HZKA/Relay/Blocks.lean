/-
  HZKA.Relay.Blocks
  ────────────
  **THE GO COMMITTER'S BLOCK LOOP** (`relay/committer.go`): `processNewBlocks`,
  `processBlock`, `aggregateBlockData`, `submitCommit`.

  A poll walks over the chains, and over the new blocks of each, and breaks at the first
  error of any remote call; the next poll resumes at the block that failed.

    • `processBlock_spec` — what processing one block puts on record, by outcome;
    • `processFrom_inv` — the loop keeps the law of the trace;
    • `no_block_skipped` — along every sequence of polls, at every moment: the cursor of a
      chain never decreases, and each block up to it had no sender or had its commit mined
      before a commit for a later block was sent.
-/
import HZKA.EVM.Abi
import HZKA.EVM.Keccak
import HZKA.Lib.Remote
import HZKA.Lib.Run

namespace HZKA.Relay.Blocks

open Function
open HZKA.Lib HZKA.EVM Std.Do

set_option mvcgen.warning false

/-! ## §1. Data. -/

/-- A transaction of an ordinary chain with its signature. -/
structure Transaction where
  toAddr : Option Address
  value : Nat
  nonce : Nat
  v : Nat
  r : Nat
  s : Nat
  deriving DecidableEq

/-- The values of `v` on a chain: those of typed transactions, of unprotected ones, and the two
that carry the chain id. -/
def Produced (chainID v : Nat) : Prop :=
  v = 0 ∨ v = 1 ∨ v = 27 ∨ v = 28 ∨ v = 2 * chainID + 35 ∨ v = 2 * chainID + 36

instance (chainID v : Nat) : Decidable (Produced chainID v) :=
  inferInstanceAs (Decidable (_ ∨ _))

/-- The field of secp256k1. -/
def secp256k1P : Nat := 0xfffffffffffffffffffffffffffffffffffffffffffffffffffffffefffffc2f

/-- The order of its group. -/
def secp256k1N : Nat := 0xfffffffffffffffffffffffffffffffebaaedce6af48a03bbfd25e8cd0364141

/-- The curve has a point with this abscissa. -/
def IsAbscissa (x : Nat) : Prop :=
  ∃ y < secp256k1P, y * y % secp256k1P = (x ^ 3 + 7) % secp256k1P

theorem isAbscissa_one : IsAbscissa 1 :=
  ⟨0x4218f20ae6c646b363db68605822fb14264ca8d2587fdd6fbc750d587e76a7ee, by decide, by decide⟩

/-- What `types.Sender` asks of a signature before it returns an address: a `v` of the chain,
the ranges of `ValidateSignatureValues`, and for `Ecrecover` a point with abscissa `r`. -/
structure Recoverable (chainID : Nat) (tx : Transaction) : Prop where
  produced : Produced chainID tx.v
  r_range : 1 ≤ tx.r ∧ tx.r < secp256k1N
  s_range : 1 ≤ tx.s ∧ tx.s ≤ secp256k1N / 2
  point : IsAbscissa tx.r

/-- A block as an ordinary chain returns it. -/
structure Block where
  number : Nat
  root : Bytes32
  transactions : List Transaction

/-- A transaction as the auditors see it. -/
structure TransactionData where
  fromAddress : Address
  toAddress : Address
  amount : Nat
  signature : List Byte
  nonce : Nat

/-- A block as the auditors see it. -/
structure BlockData where
  chainID : Nat
  blockNumber : Nat
  stateRootOld : Bytes32
  stateRootNew : Bytes32
  transactions : List TransactionData

/-- The points of the proof are never filled in. -/
structure ProofData where
  publicInputs : List Nat

/-- A transaction for the audit chain. -/
structure AuditTx where
  nonce : Nat
  toAddr : Address
  value : Nat
  gasLimit : Nat
  gasPrice : Nat
  data : List Byte

/-- A transaction with the committer's signature. -/
structure SignedTx where
  tx : AuditTx
  signature : List Byte

/-- Block numbers stay below `2^64 - 1`. -/
abbrev BlockNumber := Fin (2 ^ 64 - 1)

/-- The configuration, and what the clients answer: first argument of an answer is the time
of the call. -/
structure World where
  ordinaryChains : List Nat
  -- a permissioned chain has a gateway instead of a client
  hasClient : Nat → Bool
  auditContractAddr : Address
  committer : Address
  sender : Nat → Transaction → Option Address
  signTx : AuditTx → Nat → Except String (List Byte)
  blockNumber : Nat → Nat → Except String BlockNumber
  blockByNumber : Nat → Nat → Nat → Except String Block
  pendingNonceAt : Nat → Address → Except String Nat
  suggestGasPrice : Nat → Except String Nat
  auditChainID : Nat → Except String Nat
  sendTransaction : Nat → SignedTx → Except String Unit
  waitMined : Nat → SignedTx → Except String Nat
  /-- The client returns block `b` when asked for number `b`. -/
  numbered : ∀ {time chainID b block}, blockByNumber time chainID b = .ok block → block.number = b
  /-- A sender comes from a signature that passes the checks. -/
  recoverable : ∀ {chainID tx a}, sender chainID tx = some a → Recoverable chainID tx

/-- What is observed.  A commit is on record as sent even where sending it reports an error. -/
inductive Event
  | fetched (chainID blockNum : Nat) (block : Block)
  | parent (chainID blockNum : Nat) (block : Block)
  | sent (chainID blockNum : Nat) (tx : SignedTx)
  | mined (chainID blockNum : Nat) (tx : SignedTx) (status : Nat)
  | processed (chainID blockNum : Nat)

/-- `lastProcessed`, in a session. -/
abbrev Committer := Session (Nat → Nat) Event

/-- The committer's code. -/
abbrev M := RemoteM (Nat → Nat) Event

/-! ## §2. One block. -/

variable (w : World)

/-- `big.Int.Bytes`. -/
def intBytes (n : Nat) : List Byte := (Nat.digits 256 n).reverse.map (BitVec.ofNat 8)

/-- The data of a transaction, if its sender can be recovered. -/
def transactionData (chainID : Nat) (tx : Transaction) : Option TransactionData :=
  (w.sender chainID tx).map fun sender =>
    { fromAddress := sender
      toAddress := tx.toAddr.getD 0
      amount := tx.value
      signature := intBytes tx.r ++ intBytes tx.s ++ [BitVec.ofNat 8 tx.v]
      nonce := tx.nonce }

/-- The data of a block with its parent's root. -/
def aggregateBlockData (chainID : Nat) (block : Block) : M BlockData := do
  let mut stateRootOld : Bytes32 := 0
  if block.number > 0 then
    let parentBlock ← annotate "failed to fetch parent block"
      (remote fun time => w.blockByNumber time chainID (block.number - 1))
    observe (.parent chainID block.number parentBlock)
    stateRootOld := parentBlock.root
  return ⟨chainID, block.number, stateRootOld, block.root,
    block.transactions.filterMap (transactionData w chainID)⟩

/-- The proof is a frame around the public inputs. -/
def generateAuditProof (blockData : BlockData) : ProofData :=
  ⟨[blockData.stateRootOld.toNat, blockData.stateRootNew.toNat]⟩

/-- The bytes of a string. -/
def ascii (text : String) : List Byte := text.toList.map fun c => BitVec.ofNat 8 c.toNat

/-- Selector, chain and roots; the encoding of the proof is left out. -/
def encodeSubmitCommit (chainID : Nat) (oldRoot newRoot : Bytes32) (_proof : ProofData) :
    List Byte :=
  let selector := Bytes32.toBytes
    (keccak256 (ascii "submitCommit(uint256,bytes32,bytes32,uint256[2],uint256[2][2],uint256[2])"))
  selector.take 4 ++ Bytes32.toBytes (BitVec.ofNat 256 chainID) ++ oldRoot.toBytes
    ++ newRoot.toBytes

/-- The first half of `submitCommit`: the signed transaction. -/
def signCommit (chainID : Nat) (blockData : BlockData) (proof : ProofData) : M SignedTx := do
  let nonce ← annotate "failed to get nonce" (remote fun time => w.pendingNonceAt time w.committer)
  let gasPrice ← annotate "failed to get gas price" (remote w.suggestGasPrice)
  let callData := encodeSubmitCommit chainID blockData.stateRootOld blockData.stateRootNew proof
  let tx : AuditTx := ⟨nonce, w.auditContractAddr, 0, 500000, gasPrice, callData⟩
  let auditChainID ← annotate "failed to get chain ID" (remote w.auditChainID)
  let signature ← annotate "failed to sign transaction" (attempt (w.signTx tx auditChainID))
  return ⟨tx, signature⟩

/-- Sign, send, wait. -/
def submitCommit (chainID : Nat) (blockData : BlockData) (proof : ProofData) : M Unit := do
  let signedTx ← signCommit w chainID blockData proof
  observe (.sent chainID blockData.blockNumber signedTx)
  annotate "failed to send transaction" (remote fun time => w.sendTransaction time signedTx)
  let status ← annotate "failed waiting for receipt" (remote fun time => w.waitMined time signedTx)
  observe (.mined chainID blockData.blockNumber signedTx status)
  if status = 0 then throw "TxCommit transaction reverted"

/-- Fetch, aggregate, prove, submit. -/
def processBlock (chainID blockNum : Nat) : M Unit := do
  let block ← annotate "failed to fetch block"
    (remote fun time => w.blockByNumber time chainID blockNum)
  observe (.fetched chainID blockNum block)
  let blockData ← annotate "failed to aggregate block data" (aggregateBlockData w chainID block)
  if blockData.transactions.length = 0 then return ()
  annotate "failed to submit commit"
    (submitCommit w chainID blockData (generateAuditProof blockData))

/-! ## §3. The polls. -/

/-- The loop over the new blocks; `break` at the first error. -/
def processFrom (chainID : Nat) (latestBlock : BlockNumber) (blockNum : Nat) (s : Committer) :
    Committer :=
  if _h : blockNum ≤ latestBlock then
    match (processBlock w chainID blockNum).run.run s with
    | (.error _, s') => s'
    | (.ok _, s') =>
      processFrom chainID latestBlock ((blockNum + 1) % 2 ^ 64)
        { s' with
          state := update s'.state chainID blockNum
          trace := s'.trace ++ [.processed chainID blockNum] }
  else s
termination_by latestBlock.val + 1 - blockNum
decreasing_by
  -- no wrap-around below the largest block number
  rw [Nat.mod_eq_of_lt (by have := latestBlock.isLt; omega)]
  omega

/-- One chain, up to its head or an error. -/
def processChain (s : Committer) (chainID : Nat) : Committer :=
  if w.hasClient chainID = false then s
  else
    match w.blockNumber s.clock chainID with
    | .error _ => { s with clock := s.clock + 1 }
    | .ok latestBlock =>
      if latestBlock ≤ s.state chainID then { s with clock := s.clock + 1 }
      else processFrom w chainID latestBlock ((s.state chainID + 1) % 2 ^ 64)
        { s with clock := s.clock + 1 }

/-- All chains in turn. -/
def processNewBlocks (s : Committer) : Committer := w.ordinaryChains.foldl (processChain w) s

/-- `NewCommitter`: nothing processed, nothing observed. -/
def newCommitter : Committer := ⟨fun _ => 0, 0, []⟩

/-- After `n` ticks. -/
def polls (n : Nat) : Committer := (processNewBlocks w)^[n] newCommitter

/-! ## §4. What one block puts on record. -/

/-- An event of the work on block `b` of chain `c`. -/
def Event.Of (c b : Nat) : Event → Prop
  | .fetched c' b' _ => c' = c ∧ b' = b
  | .parent c' b' _ => c' = c ∧ b' = b
  | .sent c' b' _ => c' = c ∧ b' = b
  | .mined c' b' _ _ => c' = c ∧ b' = b
  | .processed _ _ => False

/-- The record of a block that was processed: it has no transaction with a recoverable
sender, or its commit, with the roots of its parent and its own, was mined and not reverted. -/
def Done (c b : Nat) (evs : List Event) : Prop :=
  ∃ block parentBlock : Block, block.number = b ∧ parentBlock.number = b - 1
    ∧ ((evs = [.fetched c b block, .parent c b parentBlock]
          ∧ ∀ tx ∈ block.transactions, w.sender c tx = none)
      ∨ ∃ signedTx status, status ≠ 0
          ∧ evs = [.fetched c b block, .parent c b parentBlock, .sent c b signedTx,
              .mined c b signedTx status]
          ∧ ∃ proof, signedTx.tx.data
              = encodeSubmitCommit c parentBlock.root block.root proof)

variable {w}

@[spec] theorem aggregateBlockData_spec (c : Nat) (block : Block) (hb : 0 < block.number)
    (s₀ : Committer) :
    ⦃fun s => ⌜s = s₀⌝⦄ aggregateBlockData w c block
    ⦃post⟨fun blockData s => ⌜∃ parentBlock : Block, parentBlock.number = block.number - 1
        ∧ Records s₀ [.parent c block.number parentBlock] s
        ∧ blockData = ⟨c, block.number, parentBlock.root, block.root,
            block.transactions.filterMap (transactionData w c)⟩⌝,
      fun _ s => ⌜Records s₀ [] s⌝⟩⦄ := by
  mvcgen [aggregateBlockData, annotate]
  · rename_i s hs parentBlock s₁ hfetch _ _ s₂ hparent
    subst hs
    exact ⟨parentBlock, w.numbered hfetch.1, hfetch.2.after hparent, rfl⟩
  · rename_i s hs _ s₁ hfetch
    subst hs
    exact hfetch

/-- What is signed: a commit to the audit contract, without value. -/
@[spec] theorem signCommit_spec (c : Nat) (blockData : BlockData) (proof : ProofData)
    (s₀ : Committer) :
    ⦃fun s => ⌜s = s₀⌝⦄ signCommit w c blockData proof
    ⦃post⟨fun signedTx s => ⌜Records s₀ [] s ∧ signedTx.tx.toAddr = w.auditContractAddr
          ∧ signedTx.tx.value = 0 ∧ signedTx.tx.data
            = encodeSubmitCommit c blockData.stateRootOld blockData.stateRootNew proof⌝,
      fun _ s => ⌜Records s₀ [] s⌝⟩⦄ := by
  mvcgen [signCommit, annotate]
  · rename_i s hs _ s₁ hnonce _ _ _ s₂ hprice _ s₃ hchain _ s₄ hsign
    subst hs
    exact ⟨hnonce.2.after (hprice.2.after (hchain.2.after hsign.2)), rfl, rfl, rfl⟩
  · rename_i s hs _ s₁ hnonce _ _ _ s₂ hprice _ s₃ hchain _ s₄ hsign
    subst hs
    exact hnonce.2.after (hprice.2.after (hchain.2.after hsign))
  · rename_i s hs _ s₁ hnonce _ _ _ s₂ hprice _ s₃ hchain
    subst hs
    exact hnonce.2.after (hprice.2.after hchain)
  · rename_i s hs _ s₁ hnonce _ s₂ hprice
    subst hs
    exact hnonce.2.after hprice
  · rename_i s hs _ s₁ hnonce
    subst hs
    exact hnonce

@[spec] theorem submitCommit_spec (c : Nat) (blockData : BlockData) (proof : ProofData)
    (s₀ : Committer) :
    ⦃fun s => ⌜s = s₀⌝⦄ submitCommit w c blockData proof
    ⦃post⟨fun _ s => ⌜∃ signedTx status, status ≠ 0
        ∧ Records s₀ [.sent c blockData.blockNumber signedTx,
            .mined c blockData.blockNumber signedTx status] s
        ∧ signedTx.tx.data
          = encodeSubmitCommit c blockData.stateRootOld blockData.stateRootNew proof⌝,
      fun _ s => ⌜∃ evs, Records s₀ evs s ∧ ∀ e ∈ evs, e.Of c blockData.blockNumber⌝⟩⦄ := by
  mvcgen [submitCommit, annotate]
  · -- mined and reverted
    rename_i s hs signedTx s₁ hsign _ s₂ hsent _ s₃ hsend status s₄ hwait _ _ s₅ hmined
    subst hs
    refine ⟨_, hsign.1.after (hsent.trans (hsend.2.after (hwait.2.after hmined))), ?_⟩
    simp [Event.Of]
  · -- mined
    rename_i s hs signedTx s₁ hsign _ s₂ hsent _ s₃ hsend status s₄ hwait _ hstatus s₅ hmined
    subst hs
    exact ⟨signedTx, status, hstatus,
      hsign.1.after (hsent.trans (hsend.2.after (hwait.2.after hmined))), hsign.2.2.2⟩
  · -- no receipt
    rename_i s hs signedTx s₁ hsign _ s₂ hsent _ s₃ hsend _ s₄ hwait
    subst hs
    refine ⟨_, hsign.1.after (hsent.trans (hsend.2.after hwait)), ?_⟩
    simp [Event.Of]
  · -- not sent, or so it seems
    rename_i s hs signedTx s₁ hsign _ s₂ hsent _ s₃ hsend
    subst hs
    refine ⟨_, hsign.1.after (hsent.trans hsend), ?_⟩
    simp [Event.Of]
  · rename_i s hs _ s₁
    intro hsign
    subst hs
    exact ⟨[], hsign, by simp⟩

/-- No data, no sender. -/
theorem no_sender_of_empty {c : Nat} {block : Block}
    (h : (block.transactions.filterMap (transactionData w c)).length = 0) :
    ∀ tx ∈ block.transactions, w.sender c tx = none := by
  intro tx htx
  have hnone := List.filterMap_eq_nil_iff.mp (List.length_eq_zero_iff.mp h) tx htx
  unfold transactionData at hnone
  exact Option.map_eq_none_iff.mp hnone

/-- What processing one block records. -/
theorem processBlock_spec (c b : Nat) (hb : 0 < b) (s₀ : Committer) :
    ⦃fun s => ⌜s = s₀⌝⦄ processBlock w c b
    ⦃post⟨fun _ s => ⌜∃ evs, Records s₀ evs s ∧ Done w c b evs⌝,
      fun _ s => ⌜∃ evs, Records s₀ evs s ∧ ∀ e ∈ evs, e.Of c b⌝⟩⦄ := by
  mvcgen [processBlock, annotate]
  · rename_i s hs block s₁ hfetch _ s₂ hfetched
    rw [w.numbered hfetch.1]
    exact hb
  · -- an empty block
    rename_i s hs block s₁ hfetch _ s₂ hfetched blockData hempty s₃ haggregate
    subst hs
    obtain ⟨parentBlock, hparent, hrecords, rfl⟩ := haggregate
    have hnumber := w.numbered hfetch.1
    rw [hnumber] at hparent hrecords
    exact ⟨_, hfetch.2.after (hfetched.trans hrecords), block, parentBlock, hnumber, hparent,
      .inl ⟨rfl, no_sender_of_empty hempty⟩⟩
  · -- a block with a commit
    rename_i s hs block s₁ hfetch _ s₂ hfetched blockData _ s₃ haggregate _ s₄
    intro hsubmit
    subst hs
    obtain ⟨parentBlock, hparent, hrecords, rfl⟩ := haggregate
    obtain ⟨signedTx, status, hstatus, hsubmit, hdata⟩ := hsubmit
    have hnumber := w.numbered hfetch.1
    rw [hnumber] at hparent hrecords hsubmit
    exact ⟨_, hfetch.2.after (hfetched.trans (hrecords.trans hsubmit)), block, parentBlock, hnumber,
      hparent, .inr ⟨signedTx, status, hstatus, rfl, _, hdata⟩⟩
  · -- an error in `submitCommit`
    rename_i s hs block s₁ hfetch _ s₂ hfetched blockData _ s₃ haggregate _ s₄ hsubmit
    subst hs
    obtain ⟨parentBlock, hparent, hrecords, rfl⟩ := haggregate
    obtain ⟨evs, hsubmit, hevs⟩ := hsubmit
    have hnumber := w.numbered hfetch.1
    rw [hnumber] at hrecords hevs
    refine ⟨_, hfetch.2.after (hfetched.trans (hrecords.trans hsubmit)), ?_⟩
    simpa [Event.Of] using hevs
  · rename_i s hs block s₁ hfetch _ s₂ hfetched _ s₃ haggregate
    subst hs
    refine ⟨_, hfetch.2.after (hfetched.trans haggregate), ?_⟩
    simp [Event.Of]
  · rename_i s hs _ s₁ hfetch
    subst hs
    exact ⟨[], hfetch, by simp⟩

/-! ## §5. The law of the trace. -/

/-- The cursors after the events of a trace. -/
def lastProcessed (trace : List Event) : Nat → Nat :=
  trace.foldl (fun cursors e =>
    match e with
    | .processed c b => update cursors c b
    | _ => cursors) fun _ => 0

theorem lastProcessed_processed (trace : List Event) (c b : Nat) :
    lastProcessed (trace ++ [.processed c b]) = update (lastProcessed trace) c b := by
  unfold lastProcessed
  rw [List.foldl_append]
  rfl

theorem lastProcessed_of {c b : Nat} (trace : List Event) {e : Event} (he : e.Of c b) :
    lastProcessed (trace ++ [e]) = lastProcessed trace := by
  unfold lastProcessed
  rw [List.foldl_append]
  cases e with
  | processed => exact he.elim
  | _ => rfl

variable (w) in
/-- The record of block `b` is in the trace, and no commit for a later block before it. -/
def Settled (trace : List Event) (c b : Nat) : Prop :=
  ∃ before evs after, trace = before ++ evs ++ .processed c b :: after ∧ Done w c b evs
    ∧ ∀ b' signedTx, .sent c b' signedTx ∈ before → b' ≤ b

theorem Settled.append {trace : List Event} {c b : Nat} (h : Settled w trace c b)
    (more : List Event) : Settled w (trace ++ more) c b := by
  obtain ⟨before, evs, after, rfl, hdone, hbefore⟩ := h
  refine ⟨before, evs, after ++ more, ?_, hdone, hbefore⟩
  rw [List.append_assoc, List.cons_append]

variable (w) in
/-- **The law**: no commit is sent for a block beyond the next one, each block up to the
cursor is settled, and the cursor has not been higher. -/
structure TraceInv (trace : List Event) : Prop where
  sent : ∀ {c b signedTx}, .sent c b signedTx ∈ trace → b ≤ lastProcessed trace c + 1
  settled : ∀ {c b}, 1 ≤ b → b ≤ lastProcessed trace c → Settled w trace c b
  mono : ∀ k c, lastProcessed (trace.take k) c ≤ lastProcessed trace c

theorem traceInv_nil : TraceInv w [] := by
  refine ⟨fun h => absurd h List.not_mem_nil, ?_, ?_⟩
  · intro c b hpos hle
    have hzero : b ≤ 0 := hle
    omega
  · intro k c
    rw [List.take_nil]

/-- One more event of the work on the next block. -/
theorem traceInv_event {trace : List Event} (h : TraceInv w trace) {c b : Nat}
    (hb : b = lastProcessed trace c + 1) {e : Event} (he : e.Of c b) :
    TraceInv w (trace ++ [e]) := by
  have hsame := lastProcessed_of trace he
  refine ⟨?_, ?_, ?_⟩
  · intro c' b' signedTx hmem
    rw [hsame]
    rcases List.mem_append.mp hmem with hold | hnew
    · exact h.sent hold
    · obtain rfl := List.mem_singleton.mp hnew
      obtain ⟨rfl, rfl⟩ := he
      exact Nat.le_of_eq hb
  · intro c' b' hpos hle
    rw [hsame] at hle
    exact (h.settled hpos hle).append [e]
  · intro k c'
    revert k
    rw [forall_take_snoc (p := fun t => lastProcessed t c' ≤ lastProcessed (trace ++ [e]) c'), hsame]
    exact ⟨fun k => h.mono k c', Nat.le_refl _⟩

/-- The next block is settled. -/
theorem traceInv_processed {before evs : List Event} (hbefore : TraceInv w before)
    (h : TraceInv w (before ++ evs)) {c b : Nat} (hb : b = lastProcessed before c + 1)
    (hsame : lastProcessed (before ++ evs) = lastProcessed before) (hdone : Done w c b evs) :
    TraceInv w (before ++ evs ++ [.processed c b]) := by
  have hcursor : ∀ c', lastProcessed (before ++ evs) c'
      ≤ lastProcessed (before ++ evs ++ [.processed c b]) c' := by
    intro c'
    rw [lastProcessed_processed, hsame]
    by_cases hc : c' = c
    · rw [hc, update_self]
      omega
    · rw [update_of_ne hc]
  refine ⟨?_, ?_, ?_⟩
  · intro c' b' signedTx hmem
    have hsent : Event.sent c' b' signedTx ∈ before ++ evs := by
      rcases List.mem_append.mp hmem with hold | hnew
      · exact hold
      · cases List.mem_singleton.mp hnew
    have hle := h.sent hsent
    have hup := hcursor c'
    omega
  · intro c' b' hpos hle
    rw [lastProcessed_processed, hsame] at hle
    by_cases hc : c' = c
    · subst hc
      rw [update_self] at hle
      rcases Nat.lt_or_ge b' b with hlt | hge
      · refine (h.settled hpos ?_).append _
        rw [hsame]
        omega
      · -- the block itself: its record is `evs`
        obtain rfl : b' = b := by omega
        refine ⟨before, evs, [], rfl, hdone, ?_⟩
        intro b'' signedTx hsent
        rw [hb]
        exact hbefore.sent hsent
    · rw [update_of_ne hc] at hle
      refine (h.settled hpos ?_).append _
      rw [hsame]
      exact hle
  · intro k c'
    revert k
    rw [forall_take_snoc (p := fun t => lastProcessed t c'
      ≤ lastProcessed (before ++ evs ++ [Event.processed c b]) c')]
    exact ⟨fun k => (h.mono k c').trans (hcursor c'), Nat.le_refl _⟩

/-! ## §6. The loop. -/

variable (w) in
/-- The law at every moment so far, and a cursor that says what the trace says. -/
structure CommitterInv (s : Committer) : Prop where
  always : ∀ k, TraceInv w (s.trace.take k)
  cursor : s.state = lastProcessed s.trace

theorem CommitterInv.now {s : Committer} (h : CommitterInv w s) : TraceInv w s.trace := by
  have hall := h.always s.trace.length
  rw [List.take_length] at hall
  exact hall

/-- The work on the next block, finished or not. -/
theorem committerInv_records {s s' : Committer} (h : CommitterInv w s) {c b : Nat}
    (hb : b = s.state c + 1) {evs : List Event} (hrec : Records s evs s')
    (hevs : ∀ e ∈ evs, e.Of c b) : CommitterInv w s' := by
  rw [h.cursor] at hb
  -- one event at a time
  have hgrow : ∀ evs : List Event, (∀ e ∈ evs, e.Of c b) →
      lastProcessed (s.trace ++ evs) = lastProcessed s.trace
        ∧ ∀ k, TraceInv w ((s.trace ++ evs).take k) := by
    intro evs hevs
    induction evs using List.reverseRec with
    | nil =>
      rw [List.append_nil]
      exact ⟨rfl, h.always⟩
    | append_singleton evs e ih =>
      obtain ⟨hsame, hall⟩ := ih fun e' he' => hevs e' (List.mem_append_left _ he')
      have he : e.Of c b := hevs e (List.mem_append_right _ (List.mem_singleton_self e))
      have hnow := hall (s.trace ++ evs).length
      rw [List.take_length] at hnow
      rw [← List.append_assoc, lastProcessed_of _ he, forall_take_snoc]
      refine ⟨hsame, hall, traceInv_event hnow ?_ he⟩
      rw [hsame]
      exact hb
  obtain ⟨hsame, hall⟩ := hgrow evs hevs
  refine ⟨?_, ?_⟩
  · rw [hrec.trace]
    exact hall
  · rw [hrec.state, hrec.trace, hsame]
    exact h.cursor

theorem Done.of {c b : Nat} {evs : List Event} (h : Done w c b evs) : ∀ e ∈ evs, e.Of c b := by
  obtain ⟨block, parentBlock, -, -, ⟨rfl, -⟩ | ⟨signedTx, status, -, rfl, -⟩⟩ := h
  · simp [Event.Of]
  · simp [Event.Of]

/-- The next block processed, and the cursor on it. -/
theorem committerInv_processed {s s' : Committer} (h : CommitterInv w s) {c b : Nat}
    (hb : b = s.state c + 1) {evs : List Event} (hrec : Records s evs s') (hdone : Done w c b evs) :
    CommitterInv w { s' with
      state := update s'.state c b
      trace := s'.trace ++ [.processed c b] } := by
  have h' := committerInv_records h hb hrec hdone.of
  have hsame : lastProcessed (s.trace ++ evs) = lastProcessed s.trace := by
    rw [← hrec.trace, ← h'.cursor, hrec.state, h.cursor]
  refine ⟨?_, ?_⟩
  · rw [forall_take_snoc]
    refine ⟨h'.always, ?_⟩
    have hnow := h'.now
    rw [hrec.trace] at hnow ⊢
    rw [h.cursor] at hb
    exact traceInv_processed h.now hnow hb hsame hdone
  · show update s'.state c b = lastProcessed (s'.trace ++ [.processed c b])
    rw [lastProcessed_processed, h'.cursor]

/-- The law holds, and what was on record stays on record. -/
def Continues (w : World) (s s' : Committer) : Prop := CommitterInv w s' ∧ s.trace <+: s'.trace

/-- **The loop** keeps the invariant. -/
theorem processFrom_inv (c : Nat) (latestBlock : BlockNumber) (blockNum : Nat) (s : Committer)
    (h : CommitterInv w s) (hnext : blockNum = s.state c + 1) :
    Continues w s (processFrom w c latestBlock blockNum s) := by
  -- the loop's own recursion
  induction blockNum, s using processFrom.induct w c latestBlock with
  | case1 blockNum s hle e s' hrun =>
    rw [processFrom, dif_pos hle, hrun]
    obtain ⟨evs, hrec, hevs⟩ :=
      outcome_of_triple (processBlock_spec c blockNum (by omega) s) hrun
    refine ⟨committerInv_records h hnext hrec hevs, ?_⟩
    rw [hrec.trace]
    exact List.prefix_append _ _
  | case2 blockNum s hle u s' hrun ih =>
    rw [processFrom, dif_pos hle, hrun]
    obtain ⟨evs, hrec, hdone⟩ :=
      outcome_of_triple (processBlock_spec c blockNum (by omega) s) hrun
    have hlt := latestBlock.isLt
    obtain ⟨hinv, hpre⟩ := ih (committerInv_processed h hnext hrec hdone) (by
      show (blockNum + 1) % 2 ^ 64 = update s'.state c blockNum c + 1
      rw [update_self, Nat.mod_eq_of_lt (by omega)])
    refine ⟨hinv, List.IsPrefix.trans ?_ hpre⟩
    show s.trace <+: s'.trace ++ [.processed c blockNum]
    rw [hrec.trace, List.append_assoc]
    exact List.prefix_append _ _
  | case3 blockNum s hgt =>
    rw [processFrom, dif_neg hgt]
    exact ⟨h, List.prefix_refl _⟩

/-- A call without an effect. -/
theorem committerInv_clock {s : Committer} (h : CommitterInv w s) (clock : Nat) :
    CommitterInv w { s with clock := clock } := ⟨h.always, h.cursor⟩

/-- One chain keeps it. -/
theorem processChain_inv {s : Committer} (h : CommitterInv w s) (c : Nat) :
    Continues w s (processChain w s c) := by
  have hcall := committerInv_clock h (s.clock + 1)
  unfold processChain
  split
  · exact ⟨h, List.prefix_refl _⟩
  · split
    · exact ⟨hcall, List.prefix_refl _⟩
    · rename_i latestBlock _
      split
      · exact ⟨hcall, List.prefix_refl _⟩
      · rename_i hnew
        have hlt := latestBlock.isLt
        refine processFrom_inv c latestBlock _ { s with clock := s.clock + 1 } hcall ?_
        exact Nat.mod_eq_of_lt (by omega)

theorem processChains_inv (chains : List Nat) {s : Committer} (h : CommitterInv w s) :
    Continues w s (chains.foldl (processChain w) s) := by
  induction chains generalizing s with
  | nil => exact ⟨h, List.prefix_refl _⟩
  | cons c chains ih =>
    obtain ⟨hinv, hpre⟩ := processChain_inv h c
    obtain ⟨hinv', hpre'⟩ := ih hinv
    exact ⟨hinv', hpre.trans hpre'⟩

theorem polls_succ (w : World) (n : Nat) : polls w (n + 1) = processNewBlocks w (polls w n) := by
  unfold polls
  rw [iterate_succ_apply']

/-- **Every poll** keeps it. -/
theorem polls_inv (w : World) (n : Nat) : CommitterInv w (polls w n) := by
  induction n with
  | zero =>
    refine ⟨?_, rfl⟩
    intro k
    show TraceInv w (([] : List Event).take k)
    rw [List.take_nil]
    exact traceInv_nil
  | succ n ih =>
    rw [polls_succ]
    exact (processChains_inv w.ordinaryChains ih).1

/-- Traces only grow. -/
theorem polls_prefix (w : World) {m n : Nat} (h : m ≤ n) :
    (polls w m).trace <+: (polls w n).trace := by
  induction n, h using Nat.le_induction with
  | base => exact List.prefix_refl _
  | succ n _ ih =>
    rw [polls_succ]
    exact ih.trans (processChains_inv w.ordinaryChains (polls_inv w n)).2

/-! ## §7. No block is skipped. -/

/-- **Along every sequence of polls.**  After each poll, the cursors are those of the trace,
and they are not below those of an earlier poll.  At each moment, within polls too, the cursor
of a chain is not below an earlier one and each block from 1 up to it is settled. -/
theorem no_block_skipped (w : World) (n : Nat) :
    (polls w n).state = lastProcessed (polls w n).trace
      ∧ (∀ m ≤ n, (polls w m).trace <+: (polls w n).trace
          ∧ ∀ c, (polls w m).state c ≤ (polls w n).state c)
      ∧ ∀ k c,
          (∀ j ≤ k, lastProcessed ((polls w n).trace.take j) c
            ≤ lastProcessed ((polls w n).trace.take k) c)
          ∧ ∀ b, 1 ≤ b → b ≤ lastProcessed ((polls w n).trace.take k) c →
              Settled w ((polls w n).trace.take k) c b := by
  have hinv := polls_inv w n
  refine ⟨hinv.cursor, ?_, ?_⟩
  · intro m hm
    have hpre := polls_prefix w hm
    refine ⟨hpre, fun c => ?_⟩
    rw [(polls_inv w m).cursor, hinv.cursor, List.prefix_iff_eq_take.mp hpre]
    exact hinv.now.mono _ c
  · intro k c
    have hk := hinv.always k
    refine ⟨?_, fun b hpos hle => hk.settled hpos hle⟩
    intro j hj
    have hle := hk.mono j c
    rw [List.take_take, Nat.min_eq_left hj] at hle
    exact hle

end HZKA.Relay.Blocks
