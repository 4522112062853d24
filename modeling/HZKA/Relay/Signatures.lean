/-
  HZKA.Relay.Signatures
  ────────────
  **WHAT THE RELAY STORES OF A SIGNATURE** (`relay/committer.go`): `GetBlockData`, and the
  signatures in what it and `aggregateBlockData` return.

  A signature is stored as `r.Bytes() ‖ s.Bytes() ‖ byte(v)`.  `big.Int.Bytes` drops leading
  zeros, so nothing marks where `r` ends, and the byte keeps `v` modulo 256.

    • `intBytes_eq_bytesBE` — a number below `2^256` has its 32 bytes exactly from `2^248` on;
    • `signatureBytes_eq`, `signatureBytes_inj` — from there on the string is
      `r (32) ‖ s (32) ‖ v` and, for `v` below 256, determines the signature;
    • `aggregateBlockData_signatures`, `getBlockData_signatures` — both functions store this
      string, for every transaction whose sender is recovered;
    • `stored_signatures_recoverable_iff` — EXACTLY then are the stored signatures of a block
      spelled out.
-/
import HZKA.Lib.Bytes
import HZKA.Relay.Blocks

namespace HZKA.Relay.Blocks

open HZKA.Lib HZKA.EVM Std.Do

set_option mvcgen.warning false

/-! ## §1. Numbers in as few bytes as possible. -/

theorem natBE_intBytes (n : Nat) : natBE (intBytes n) = n := by
  unfold natBE intBytes
  rw [← List.map_reverse, List.reverse_reverse, List.map_map]
  have hbyte : ∀ d ∈ Nat.digits 256 n, (BitVec.toNat ∘ BitVec.ofNat 8) d = d := by
    intro d hd
    have hlt : d < 256 := Nat.digits_lt_base (by omega) hd
    show d % 2 ^ 8 = d
    omega
  rw [List.map_congr_left hbyte, List.map_id', Nat.ofDigits_digits]

theorem length_intBytes (n : Nat) : (intBytes n).length = (Nat.digits 256 n).length := by
  unfold intBytes
  rw [List.length_map, List.length_reverse]

/-- Small numbers, few bytes. -/
theorem length_intBytes_le {n k : Nat} (h : n < 256 ^ k) : (intBytes n).length ≤ k := by
  rw [length_intBytes]
  exact (Nat.digits_length_le_iff (by omega) n).mpr h

theorem lt_length_intBytes {n k : Nat} : k < (intBytes n).length ↔ 256 ^ k ≤ n := by
  rw [length_intBytes]
  exact Nat.lt_digits_length_iff (by omega) n

/-- `32` bytes are what a number without a leading zero byte has. -/
theorem length_intBytes_eq {n : Nat} (h : n < 2 ^ 256) :
    (intBytes n).length = 32 ↔ 2 ^ 248 ≤ n := by
  have hle : (intBytes n).length ≤ 32 := length_intBytes_le h
  have hlt : 31 < (intBytes n).length ↔ 2 ^ 248 ≤ n := lt_length_intBytes
  rw [← hlt]
  omega

theorem intBytes_eq_bytesBE {n : Nat} (h : n < 2 ^ 256) :
    intBytes n = Bytes32.toBytes (BitVec.ofNat 256 n) ↔ 2 ^ 248 ≤ n := by
  rw [← length_intBytes_eq h]
  constructor
  · intro heq
    rw [heq, Bytes32.toBytes_length]
  · intro hlen
    apply natBE_inj
    · rw [hlen, Bytes32.toBytes_length]
    · unfold Bytes32.toBytes
      rw [natBE_intBytes, natBE_bytesBE, BitVec.toNat_ofNat, Nat.mod_eq_of_lt h]
      exact (Nat.mod_eq_of_lt h).symm

/-! ## §2. The stored string. -/

/-- `append(append(r.Bytes(), s.Bytes()...), byte(v.Uint64()))`. -/
def signatureBytes (tx : Transaction) : List Byte :=
  intBytes tx.r ++ intBytes tx.s ++ [BitVec.ofNat 8 tx.v]

/-- `r (32) ‖ s (32) ‖ v`. -/
def fixedSignature (tx : Transaction) : List Byte :=
  Bytes32.toBytes (BitVec.ofNat 256 tx.r) ++ Bytes32.toBytes (BitVec.ofNat 256 tx.s)
    ++ [BitVec.ofNat 8 tx.v]

/-- `r` and `s` are words. -/
def WordSized (tx : Transaction) : Prop := tx.r < 2 ^ 256 ∧ tx.s < 2 ^ 256

/-- Neither word starts with a zero byte. -/
def NoLeadingZero (tx : Transaction) : Prop := 2 ^ 248 ≤ tx.r ∧ 2 ^ 248 ≤ tx.s

/-- **The string has the fixed form exactly if neither word starts with a zero byte.** -/
theorem signatureBytes_eq {tx : Transaction} (hwords : WordSized tx) :
    signatureBytes tx = fixedSignature tx ↔ NoLeadingZero tx := by
  obtain ⟨hr, hs⟩ := hwords
  constructor
  · intro heq
    have hlen := congrArg List.length heq
    unfold signatureBytes fixedSignature at hlen
    rw [List.length_append, List.length_append, List.length_append, List.length_append,
      Bytes32.toBytes_length, Bytes32.toBytes_length] at hlen
    have hrle : (intBytes tx.r).length ≤ 32 := length_intBytes_le hr
    have hsle : (intBytes tx.s).length ≤ 32 := length_intBytes_le hs
    exact ⟨(length_intBytes_eq hr).mp (by omega), (length_intBytes_eq hs).mp (by omega)⟩
  · rintro ⟨hrlow, hslow⟩
    unfold signatureBytes fixedSignature
    rw [(intBytes_eq_bytesBE hr).mpr hrlow, (intBytes_eq_bytesBE hs).mpr hslow]

theorem byte_inj {v v' : Nat} (hv : v < 256) (hv' : v' < 256)
    (h : BitVec.ofNat 8 v = BitVec.ofNat 8 v') : v = v' := by
  have hnat := congrArg BitVec.toNat h
  rw [BitVec.toNat_ofNat, BitVec.toNat_ofNat] at hnat
  omega

/-- **Without leading zero bytes, and with `v` a byte, the string determines the signature.** -/
theorem signatureBytes_inj {tx tx' : Transaction} (hwords : WordSized tx)
    (hwords' : WordSized tx') (hzero : NoLeadingZero tx) (hzero' : NoLeadingZero tx')
    (hv : tx.v < 256) (hv' : tx'.v < 256) (h : signatureBytes tx = signatureBytes tx') :
    (tx.v, tx.r, tx.s) = (tx'.v, tx'.r, tx'.s) := by
  unfold signatureBytes at h
  obtain ⟨hwords_eq, hbyte⟩ := List.append_inj' h rfl
  have hlen : (intBytes tx.r).length = (intBytes tx'.r).length := by
    rw [(length_intBytes_eq hwords.1).mpr hzero.1, (length_intBytes_eq hwords'.1).mpr hzero'.1]
  obtain ⟨hr, hs⟩ := List.append_inj hwords_eq hlen
  have hr' := congrArg natBE hr
  have hs' := congrArg natBE hs
  rw [natBE_intBytes, natBE_intBytes] at hr' hs'
  rw [hr', hs', byte_inj hv hv' (List.singleton_inj.mp hbyte)]

/-! ## §3. Who stores it. -/

variable (w : World)

/-- `GethDataSource.GetBlockData`; unlike `aggregateBlockData` it leaves the old root zero. -/
def getBlockData (chainID blockNum : Nat) : M BlockData := do
  let block ← remote fun time => w.blockByNumber time chainID blockNum
  return ⟨chainID, block.number, 0, block.root,
    block.transactions.filterMap (transactionData w chainID)⟩

/-- The transactions whose sender is recovered; the others are passed over. -/
def recovered (chainID : Nat) (block : Block) : List Transaction :=
  block.transactions.filter fun tx => (w.sender chainID tx).isSome

/-- What is stored of the signatures of a block. -/
def Stores (chainID : Nat) (block : Block) (blockData : BlockData) : Prop :=
  blockData.transactions.map TransactionData.signature
    = (recovered w chainID block).map signatureBytes

/-- One signature a recovered transaction. -/
theorem signatures_filterMap (chainID : Nat) (txs : List Transaction) :
    (txs.filterMap (transactionData w chainID)).map TransactionData.signature
      = (txs.filter fun tx => (w.sender chainID tx).isSome).map signatureBytes := by
  induction txs with
  | nil => rfl
  | cons tx rest ih =>
    cases hsender : w.sender chainID tx with
    | none =>
      have hdata : transactionData w chainID tx = none := by
        rw [transactionData, hsender, Option.map_none]
      rw [List.filterMap_cons_none hdata, ih, List.filter_cons_of_neg (by simp [hsender])]
    | some sender =>
      have hdata : transactionData w chainID tx = some
          ⟨sender, tx.toAddr.getD 0, tx.value, signatureBytes tx, tx.nonce⟩ := by
        rw [transactionData, hsender, Option.map_some]
        rfl
      rw [List.filterMap_cons_some hdata, List.map_cons, ih,
        List.filter_cons_of_pos (by simp [hsender]), List.map_cons]

theorem aggregateBlockData_signatures (chainID : Nat) (block : Block) {s₀ s : Committer}
    {blockData : BlockData}
    (hrun : (aggregateBlockData w chainID block).run.run s₀ = (.ok blockData, s)) :
    Stores w chainID block blockData := by
  have htriple : ⦃fun s => ⌜s = s₀⌝⦄ aggregateBlockData w chainID block
      ⦃post⟨fun blockData _ => ⌜Stores w chainID block blockData⌝, fun _ _ => ⌜True⌝⟩⦄ := by
    unfold aggregateBlockData
    mvcgen [annotate]
    all_goals exact signatures_filterMap w chainID block.transactions
  exact outcome_of_triple htriple hrun

theorem getBlockData_signatures (chainID blockNum : Nat) {s₀ s : Committer}
    {blockData : BlockData}
    (hrun : (getBlockData w chainID blockNum).run.run s₀ = (.ok blockData, s)) :
    ∃ block, w.blockByNumber s₀.clock chainID blockNum = .ok block
      ∧ Stores w chainID block blockData := by
  have htriple : ⦃fun s => ⌜s = s₀⌝⦄ getBlockData w chainID blockNum
      ⦃post⟨fun blockData _ => ⌜∃ block, w.blockByNumber s₀.clock chainID blockNum = .ok block
          ∧ Stores w chainID block blockData⌝, fun _ _ => ⌜True⌝⟩⦄ := by
    mvcgen [getBlockData]
    rename_i s hs block _ hfetch
    subst hs
    exact ⟨block, hfetch.1, signatures_filterMap w chainID block.transactions⟩
  exact outcome_of_triple htriple hrun

/-- `blockData` is what one of the two functions returns for `block`. -/
def Returned (chainID : Nat) (block : Block) (blockData : BlockData) : Prop :=
  (∃ s₀ s, (aggregateBlockData w chainID block).run.run s₀ = (.ok blockData, s))
    ∨ ∃ blockNum s₀ s, w.blockByNumber s₀.clock chainID blockNum = .ok block
        ∧ (getBlockData w chainID blockNum).run.run s₀ = (.ok blockData, s)

variable {w}

theorem Returned.stores {chainID : Nat} {block : Block} {blockData : BlockData}
    (h : Returned w chainID block blockData) : Stores w chainID block blockData := by
  rcases h with ⟨s₀, s, hrun⟩ | ⟨blockNum, s₀, s, hblock, hrun⟩
  · exact aggregateBlockData_signatures w chainID block hrun
  · obtain ⟨block', hblock', hstores⟩ := getBlockData_signatures w chainID blockNum hrun
    rw [hblock] at hblock'
    rwa [Except.ok.inj hblock']

/-! ## §4. Reading the signatures back. -/

theorem Recoverable.wordSized {chainID : Nat} {tx : Transaction} (h : Recoverable chainID tx) :
    WordSized tx := by
  have hr := h.r_range.2
  have hs := h.s_range.2
  unfold secp256k1N at hr hs
  exact ⟨by omega, by omega⟩

theorem wordSized_of_recovered {chainID : Nat} {block : Block} {tx : Transaction}
    (h : tx ∈ recovered w chainID block) : WordSized tx := by
  obtain ⟨a, ha⟩ := Option.isSome_iff_exists.mp (List.mem_filter.mp h).2
  exact (w.recoverable ha).wordSized

/-- The string is `r (32) ‖ s (32) ‖ v`, with `v` itself in the last byte. -/
def Spells (string : List Byte) (tx : Transaction) : Prop :=
  string = fixedSignature tx ∧ (BitVec.ofNat 8 tx.v).toNat = tx.v

/-- A signature the string is faithful to. -/
structure Wide (tx : Transaction) : Prop where
  zero : NoLeadingZero tx
  byte : tx.v < 256

/-- **The stored string spells the signature exactly if it is wide.** -/
theorem spells_iff {tx : Transaction} (hwords : WordSized tx) :
    Spells (signatureBytes tx) tx ↔ Wide tx := by
  have hbyte : (BitVec.ofNat 8 tx.v).toNat = tx.v ↔ tx.v < 256 := by
    rw [BitVec.toNat_ofNat]
    omega
  unfold Spells
  rw [signatureBytes_eq hwords, hbyte]
  exact ⟨fun h => ⟨h.1, h.2⟩, fun h => ⟨h.zero, h.byte⟩⟩

/-- The signature `(v, r, s)`. -/
def triple (tx : Transaction) : Nat × Nat × Nat := (tx.v, tx.r, tx.s)

/-- Wide signatures can be read back. -/
theorem map_signatureBytes_inj : ∀ {txs txs' : List Transaction},
    (∀ tx ∈ txs, WordSized tx ∧ Wide tx) → (∀ tx ∈ txs', WordSized tx ∧ Wide tx) →
    txs.map signatureBytes = txs'.map signatureBytes → txs.map triple = txs'.map triple := by
  intro txs
  induction txs with
  | nil =>
    intro txs' _ _ h
    rw [List.map_eq_nil_iff.mp h.symm]
  | cons tx rest ih =>
    intro txs' hwide hwide' h
    cases txs' with
    | nil => cases h
    | cons tx' rest' =>
      rw [List.map_cons, List.map_cons, List.cons.injEq] at h
      obtain ⟨⟨hwords, hwide⟩, hrest⟩ := List.forall_mem_cons.mp hwide
      obtain ⟨⟨hwords', hwide'⟩, hrest'⟩ := List.forall_mem_cons.mp hwide'
      rw [List.map_cons, List.map_cons, ih hrest hrest' h.2]
      exact congrArg (· :: _) (signatureBytes_inj hwords hwords' hwide.zero hwide'.zero
        hwide.byte hwide'.byte h.1)

/-- The strings of a list spell its signatures iff every signature is wide. -/
theorem forall₂_spells_iff {txs : List Transaction} (hwords : ∀ tx ∈ txs, WordSized tx) :
    List.Forall₂ Spells (txs.map signatureBytes) txs ↔ ∀ tx ∈ txs, Wide tx := by
  rw [List.forall₂_map_left_iff, List.forall₂_same]
  exact forall₂_congr fun tx htx => spells_iff (hwords tx htx)

/-- **When stored signatures are recoverable.**  What is stored for a block spells its
signatures as `r (32) ‖ s (32) ‖ v` EXACTLY if no `r` and no `s` starts with a zero byte and
every `v` fits a byte; and of blocks like that, what is stored is the same only if the
signatures are. -/
theorem stored_signatures_recoverable_iff (w : World) (chainID : Nat) (block : Block)
    (blockData : BlockData) (hreturned : Returned w chainID block blockData) :
    (List.Forall₂ Spells (blockData.transactions.map TransactionData.signature)
        (recovered w chainID block)
      ↔ ∀ tx ∈ recovered w chainID block, Wide tx)
    ∧ ((∀ tx ∈ recovered w chainID block, Wide tx) →
        ∀ chainID' block' blockData', Returned w chainID' block' blockData' →
          (∀ tx ∈ recovered w chainID' block', Wide tx) →
          blockData.transactions.map TransactionData.signature
            = blockData'.transactions.map TransactionData.signature →
          (recovered w chainID block).map triple = (recovered w chainID' block').map triple) := by
  rw [hreturned.stores]
  refine ⟨forall₂_spells_iff fun tx htx => wordSized_of_recovered htx, ?_⟩
  intro hwide chainID' block' blockData' hreturned' hwide'
  rw [hreturned'.stores]
  exact map_signatureBytes_inj (fun tx htx => ⟨wordSized_of_recovered htx, hwide tx htx⟩)
    (fun tx htx => ⟨wordSized_of_recovered htx, hwide' tx htx⟩)

/-! ## §5. Signatures on the curve. -/

/-- A transaction of signature `(v, r, s)`. -/
def signed (v r s : Nat) : Transaction := ⟨none, 0, 0, v, r, s⟩

/-- An abscissa without a leading zero byte. -/
def wideWord : Nat := 2 ^ 250 + 4

theorem wideWord_range : 1 ≤ wideWord ∧ wideWord < secp256k1N ∧ wideWord ≤ secp256k1N / 2 := by
  decide

theorem isAbscissa_wideWord : IsAbscissa wideWord :=
  ⟨0x64cf321098a67cb15bbbb88b6f6f0a44916d3b5ad574c25ed48399ecfa93dd86, by decide, by decide⟩

theorem recoverable_wide (chainID v : Nat) (hv : Produced chainID v) :
    Recoverable chainID (signed v wideWord wideWord) :=
  ⟨hv, ⟨wideWord_range.1, wideWord_range.2.1⟩, ⟨wideWord_range.1, wideWord_range.2.2⟩,
    isAbscissa_wideWord⟩

theorem recoverable_one : Recoverable 1 (signed 37 1 0x0103) :=
  ⟨by decide, by decide, by decide, isAbscissa_one⟩

theorem recoverable_257 : Recoverable 1 (signed 37 0x0101 3) :=
  ⟨by decide, by decide, by decide,
    0x76ff2444cf4da4398c141d697a8a21fc0532a6bd80287b15e2729eb3cb10f0c2, by decide, by decide⟩

/-- A world in which the senders of some signed transactions are known and every call fails. -/
def offline (known : List (Nat × Transaction))
    (hknown : ∀ p ∈ known, Recoverable p.1 p.2) : World where
  ordinaryChains := []
  hasClient _ := false
  auditContractAddr := 0
  committer := 0
  sender chainID tx := if (chainID, tx) ∈ known then some 5 else none
  signTx _ _ := .error "offline"
  blockNumber _ _ := .error "offline"
  blockByNumber _ _ _ := .error "offline"
  pendingNonceAt _ _ := .error "offline"
  suggestGasPrice _ := .error "offline"
  auditChainID _ := .error "offline"
  sendTransaction _ _ := .error "offline"
  waitMined _ _ := .error "offline"
  numbered h := by cases h
  recoverable := by
    intro chainID tx a h
    split at h
    case isTrue hmem => exact hknown _ hmem
    case isFalse => cases h

/-- The genesis block with one transaction. -/
def genesisOf (tx : Transaction) : Block := ⟨0, 0, [tx]⟩

/-- What is returned for it, without any call. -/
def genesisData (chainID : Nat) (tx : Transaction) : BlockData :=
  ⟨chainID, 0, 0, 0, [⟨5, tx.toAddr.getD 0, tx.value, signatureBytes tx, tx.nonce⟩]⟩

section Offline

variable {known : List (Nat × Transaction)} {hknown : ∀ p ∈ known, Recoverable p.1 p.2}
  {chainID : Nat} {tx : Transaction}

theorem sender_offline (h : (chainID, tx) ∈ known) :
    (offline known hknown).sender chainID tx = some 5 := if_pos h

theorem returned_genesis (h : (chainID, tx) ∈ known) :
    Returned (offline known hknown) chainID (genesisOf tx) (genesisData chainID tx) := by
  refine Or.inl ⟨newCommitter, newCommitter, ?_⟩
  have hdata : [tx].filterMap (transactionData (offline known hknown) chainID)
      = (genesisData chainID tx).transactions := by
    rw [List.filterMap_cons_some (by rw [transactionData, sender_offline h, Option.map_some])]
    rfl
  show (Except.ok (⟨chainID, 0, 0, 0, [tx].filterMap
    (transactionData (offline known hknown) chainID)⟩ : BlockData), newCommitter) = _
  rw [hdata]
  rfl

theorem recovered_genesis (h : (chainID, tx) ∈ known) :
    recovered (offline known hknown) chainID (genesisOf tx) = [tx] := by
  show [tx].filter _ = [tx]
  rw [List.filter_cons_of_pos (by rw [sender_offline h]; rfl), List.filter_nil]

end Offline

/-- A signature on the curve that is read back. -/
theorem wide_signature_spelled : ∃ w : World,
    recovered w 1 (genesisOf (signed 37 wideWord wideWord)) = [signed 37 wideWord wideWord]
    ∧ List.Forall₂ Spells
        ((genesisData 1 (signed 37 wideWord wideWord)).transactions.map TransactionData.signature)
        (recovered w 1 (genesisOf (signed 37 wideWord wideWord))) := by
  have hknown : ∀ p ∈ [(1, signed 37 wideWord wideWord)], Recoverable p.1 p.2 := by
    intro p hp
    rw [List.mem_singleton.mp hp]
    exact recoverable_wide 1 37 (by decide)
  have hrecovered : recovered (offline _ hknown) 1 (genesisOf (signed 37 wideWord wideWord))
      = [signed 37 wideWord wideWord] := recovered_genesis (List.mem_singleton_self _)
  refine ⟨offline _ hknown, hrecovered, ?_⟩
  refine (stored_signatures_recoverable_iff _ 1 _ _
    (returned_genesis (List.mem_singleton_self _))).1.mpr ?_
  rw [hrecovered]
  intro tx htx
  rw [List.mem_singleton.mp htx]
  exact ⟨⟨by decide, by decide⟩, by decide⟩

/-- Two blocks of one transaction each that a world recovers. -/
theorem exists_pair {chainID : Nat} {tx tx' : Transaction} (h : Recoverable chainID tx)
    (h' : Recoverable chainID tx') : ∃ w : World,
      Returned w chainID (genesisOf tx) (genesisData chainID tx)
        ∧ Returned w chainID (genesisOf tx') (genesisData chainID tx')
        ∧ recovered w chainID (genesisOf tx) = [tx]
        ∧ recovered w chainID (genesisOf tx') = [tx'] := by
  have hknown : ∀ p ∈ [(chainID, tx), (chainID, tx')], Recoverable p.1 p.2 := by
    intro p hp
    rcases List.mem_pair.mp hp with rfl | rfl
    · exact h
    · exact h'
  have hfirst : (chainID, tx) ∈ [(chainID, tx), (chainID, tx')] := List.mem_cons_self
  have hsecond : (chainID, tx') ∈ [(chainID, tx), (chainID, tx')] :=
    List.mem_cons_of_mem _ (List.mem_singleton_self _)
  exact ⟨offline _ hknown, returned_genesis hfirst, returned_genesis hsecond,
    recovered_genesis hfirst, recovered_genesis hsecond⟩

/-- One string for `(37, 0x01, 0x0103)` and `(37, 0x0101, 0x03)` on chain 1; one string for
`v = 27` and `v = 283` on chain 124. -/
theorem signatures_collide :
    (¬ ∀ (w : World) (chainID : Nat) (block : Block) (blockData : BlockData),
      Returned w chainID block blockData →
      List.Forall₂ Spells (blockData.transactions.map TransactionData.signature)
        (recovered w chainID block))
    ∧ (¬ ∀ (w : World) (chainID : Nat) (block block' : Block) (blockData blockData' : BlockData),
      Returned w chainID block blockData → Returned w chainID block' blockData' →
      (∀ tx ∈ recovered w chainID block ++ recovered w chainID block', tx.v < 256) →
      blockData.transactions.map TransactionData.signature
        = blockData'.transactions.map TransactionData.signature →
      (recovered w chainID block).map triple = (recovered w chainID block').map triple)
    ∧ ¬ ∀ (w : World) (chainID : Nat) (block block' : Block) (blockData blockData' : BlockData),
      Returned w chainID block blockData → Returned w chainID block' blockData' →
      (∀ tx ∈ recovered w chainID block ++ recovered w chainID block', NoLeadingZero tx) →
      blockData.transactions.map TransactionData.signature
        = blockData'.transactions.map TransactionData.signature →
      (recovered w chainID block).map triple = (recovered w chainID block').map triple := by
  refine ⟨fun hall => ?_, fun hall => ?_, fun hall => ?_⟩
  · obtain ⟨w, hreturned, -, hrecovered, -⟩ := exists_pair recoverable_one recoverable_257
    have hspells := hall w 1 _ _ hreturned
    rw [hrecovered] at hspells
    obtain ⟨hstring, -⟩ := (List.forall₂_cons.mp hspells).1
    exact absurd (congrArg List.length hstring) (by decide)
  · obtain ⟨w, hreturned, hreturned', hrecovered, hrecovered'⟩ := exists_pair recoverable_one
      recoverable_257
    have hsame := hall w 1 _ _ _ _ hreturned hreturned'
    rw [hrecovered, hrecovered'] at hsame
    exact absurd (hsame (by decide) (by decide)) (by decide)
  · obtain ⟨w, hreturned, hreturned', hrecovered, hrecovered'⟩ := exists_pair
      (recoverable_wide 124 27 (by decide)) (recoverable_wide 124 283 (by decide))
    have hsame := hall w 124 _ _ _ _ hreturned hreturned'
    rw [hrecovered, hrecovered'] at hsame
    refine absurd (hsame ?_ rfl) (by decide)
    intro tx htx
    rcases List.mem_pair.mp htx with rfl | rfl
    · exact ⟨by decide, by decide⟩
    · exact ⟨by decide, by decide⟩

end HZKA.Relay.Blocks
