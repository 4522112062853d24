/-
  HZKA.Phi.Accounting
  ────────────
  **THE BOOKS OF THE EXCHANGE CONTRACT**, at every point of every run, between the
  opening and the closing of a payment included.

  `Books` is the invariant: the flags of a lock count the payments made for it, the used
  serial numbers count the payments made under them, `lockIds` enumerates the locks
  without repetition, and the balance is what live locks and deposits hold.  Each of the
  three writes (a new lock, an unlock, a refund) keeps it as a whole, so foreign code
  that runs inside a payment always finds balanced books.

    • `books_lock`, `books_release` — the step lemmas (an unlock and a refund are both
      the release of a live lock);
    • `exchange_accounting` — the run theorem.
-/
import HZKA.Contracts.Exchange
import Mathlib.Algebra.BigOperators.Group.Finset.Basic
import Mathlib.Algebra.Order.BigOperators.Group.Finset
import Mathlib.Data.List.Count

namespace HZKA.Phi

open Function
open HZKA.Lib HZKA.EVM HZKA.Groth16Verifier HZKA.ExchangeContract

/-! ## §1. The invariant. -/

/-- What a lock still holds. -/
def liveAmount (record : LockRecord) : Nat :=
  if record.isUnlocked || record.isRefunded then 0 else record.amount

/-- The payments made for a lock. -/
def releasesOf (lockId : Bytes32) (c : ExchangeContract) : Nat :=
  c.releases.countP (fun r => r.lockId = lockId)

/-- The payments made under a serial number. -/
def releasesUnder (serialNumber : Bytes32) (c : ExchangeContract) : Nat :=
  c.releases.countP (fun r => r.serialNumber = some serialNumber)

/-- The ether held by live locks. -/
def lockedTotal (c : ExchangeContract) : Nat := ∑ id ∈ c.lockIds.toFinset, liveAmount (c.locks id)

/-- The accounts of locks and releases. -/
structure Books (c : ExchangeContract) : Prop where
  nodup : c.lockIds.Nodup
  enumerated : ∀ id, id ∈ c.lockIds ↔ 0 < (c.locks id).amount
  empty : ∀ id, (c.locks id).amount = 0 →
    (c.locks id).isUnlocked = false ∧ (c.locks id).isRefunded = false
  released : ∀ id, releasesOf id c
    = (c.locks id).isUnlocked.toNat + (c.locks id).isRefunded.toNat
  exclusive : ∀ id, ¬ ((c.locks id).isUnlocked = true ∧ (c.locks id).isRefunded = true)
  serial : ∀ sn, releasesUnder sn c = (c.usedSerialNumbers sn).toNat
  balance : c.balance = lockedTotal c + c.deposits

/-- A live lock counts in full. -/
theorem liveAmount_of_live {record : LockRecord} (h : record.Live) :
    liveAmount record = record.amount := by
  simp [liveAmount, h.notUnlocked, h.notRefunded]

/-- A live lock is on the id list. -/
theorem Books.live_mem {c : ExchangeContract} (hc : Books c) {id : Bytes32}
    (h : (c.locks id).Live) : id ∈ c.lockIds.toFinset :=
  List.mem_toFinset.mpr ((hc.enumerated id).mpr h.found)

/-- **A live lock is funded.** -/
theorem Books.funded {c : ExchangeContract} (hc : Books c) {id : Bytes32}
    (h : (c.locks id).Live) : (c.locks id).amount ≤ c.balance := by
  have hle : liveAmount (c.locks id) ≤ lockedTotal c :=
    Finset.single_le_sum (f := fun id => liveAmount (c.locks id)) (fun _ _ => Nat.zero_le _)
      (hc.live_mem h)
  rw [liveAmount_of_live h] at hle
  rw [hc.balance]
  omega

/-- Fresh books. -/
theorem books_deploy (owner : Address) (vkOff vkOn : VerifyingKey) :
    Books (deploy owner vkOff vkOn) where
  nodup := List.nodup_nil
  enumerated := fun id => by simp [deploy, LockRecord.zero]
  empty := fun _ _ => ⟨rfl, rfl⟩
  released := fun _ => rfl
  exclusive := fun _ h => absurd h.1 Bool.false_ne_true
  serial := fun _ => rfl
  balance := rfl

/-! ## §2. A new lock. -/

/-- One lock more. -/
theorem lockedTotal_afterLock {c : ExchangeContract} {msg : Msg} {value : Nat} {hashLock : Bytes32}
    {timeLockDuration : Nat} (hnew : lockKey msg hashLock c ∉ c.lockIds) :
    lockedTotal (afterLock msg value hashLock timeLockDuration c) = value + lockedTotal c := by
  have hids : (afterLock msg value hashLock timeLockDuration c).lockIds.toFinset
      = insert (lockKey msg hashLock c) c.lockIds.toFinset := by
    show (c.lockIds ++ [lockKey msg hashLock c]).toFinset = _
    rw [List.toFinset_append, Finset.union_comm]
    rfl
  unfold lockedTotal
  rw [hids, Finset.sum_insert (by rwa [List.mem_toFinset]), locks_afterLock_self]
  refine congrArg (value + ·) (Finset.sum_congr rfl (fun id hid => ?_))
  have hne : id ≠ lockKey msg hashLock c := by
    rintro rfl
    exact hnew (List.mem_toFinset.mp hid)
  rw [locks_afterLock_of_ne hne]

/-- A lock keeps the books. -/
theorem books_lock {c : ExchangeContract} {msg : Msg} {value : Nat} {hashLock : Bytes32}
    (timeLockDuration : Nat) (hc : Books c) (hvalue : 0 < value)
    (hfree : (c.locks (lockKey msg hashLock c)).amount = 0) :
    Books (afterLock msg value hashLock timeLockDuration c) := by
  have hnew : lockKey msg hashLock c ∉ c.lockIds := by
    rw [hc.enumerated, hfree]
    exact lt_irrefl 0
  -- every field is about one id at a time: the new one, or an old one read as before
  refine ⟨?_, ?_, ?_, ?_, ?_, hc.serial, ?_⟩
  · exact List.nodup_append_comm.mp (List.nodup_cons.mpr ⟨hnew, hc.nodup⟩)
  · intro id
    show id ∈ c.lockIds ++ [lockKey msg hashLock c] ↔ _
    rw [List.mem_append, List.mem_singleton]
    by_cases hid : id = lockKey msg hashLock c
    · subst hid
      rw [locks_afterLock_self]
      exact iff_of_true (Or.inr rfl) hvalue
    · rw [locks_afterLock_of_ne hid, hc.enumerated id, or_iff_left hid]
  · intro id hzero
    by_cases hid : id = lockKey msg hashLock c
    · subst hid
      rw [locks_afterLock_self]
      exact ⟨rfl, rfl⟩
    · rw [locks_afterLock_of_ne hid] at hzero ⊢
      exact hc.empty id hzero
  · intro id
    show releasesOf id c = _
    by_cases hid : id = lockKey msg hashLock c
    · subst hid
      rw [locks_afterLock_self, hc.released, (hc.empty _ hfree).1, (hc.empty _ hfree).2]
      rfl
    · rw [locks_afterLock_of_ne hid, hc.released id]
  · intro id
    by_cases hid : id = lockKey msg hashLock c
    · subst hid
      rw [locks_afterLock_self]
      exact fun h => absurd h.1 Bool.false_ne_true
    · rw [locks_afterLock_of_ne hid]
      exact hc.exclusive id
  · show c.balance + value = _ + c.deposits
    rw [lockedTotal_afterLock hnew, hc.balance]
    omega

/-! ## §3. A release.

An unlock and a refund do the same to the books: a live lock gets one of its flags, its
amount leaves the balance, and one payment is noted. -/

/-- `c'` is `c` with the live lock `lockId` released under `serialNumber` (if any). -/
structure Releases (c c' : ExchangeContract) (lockId : Bytes32) (serialNumber : Option Bytes32)
    (payee : Address) : Prop where
  live : (c.locks lockId).Live
  fresh : ∀ sn, serialNumber = some sn → c.usedSerialNumbers sn = false
  other : ∀ id, id ≠ lockId → c'.locks id = c.locks id
  amount : (c'.locks lockId).amount = (c.locks lockId).amount
  flags : (c'.locks lockId).isUnlocked = true ∧ (c'.locks lockId).isRefunded = false
    ∨ (c'.locks lockId).isUnlocked = false ∧ (c'.locks lockId).isRefunded = true
  used : ∀ sn, c'.usedSerialNumbers sn = (decide (serialNumber = some sn) || c.usedSerialNumbers sn)
  lockIds : c'.lockIds = c.lockIds
  deposits : c'.deposits = c.deposits
  balance : c'.balance = c.balance - (c.locks lockId).amount
  releases : c'.releases = ⟨lockId, serialNumber, payee, (c.locks lockId).amount⟩ :: c.releases

/-- An unlock releases. -/
theorem releases_unlock {pairing : PairingCheck} {msg : Msg}
    {lockId serialNumber merkleRoot : Bytes32} {proof : Proof} {c : ExchangeContract}
    (h : CanUnlock pairing msg lockId serialNumber merkleRoot proof c) :
    Releases c (afterUnlock msg lockId serialNumber c) lockId (some serialNumber) msg.sender := by
  have hself : (afterUnlock msg lockId serialNumber c).locks lockId
      = { c.locks lockId with isUnlocked := true } := update_self ..
  refine ⟨h.eligible.1, ?_, ?_, ?_, ?_, ?_, rfl, rfl, rfl, rfl⟩
  · rintro sn ⟨⟩
    exact h.fresh
  · intro id hid
    exact update_of_ne hid _ _
  · rw [hself]
  · rw [hself]
    exact Or.inl ⟨rfl, h.eligible.1.notRefunded⟩
  · intro sn
    show update c.usedSerialNumbers serialNumber true sn = _
    by_cases hsn : sn = serialNumber
    · subst hsn
      simp
    · have hne : some serialNumber ≠ some sn := fun he => hsn (Option.some.inj he).symm
      rw [update_of_ne hsn, decide_eq_false hne, Bool.false_or]

/-- A refund releases. -/
theorem releases_refund {msg : Msg} {lockId : Bytes32} {c : ExchangeContract}
    (h : CanRefund msg lockId c) :
    Releases c (afterRefund msg lockId c) lockId none msg.sender := by
  have hself : (afterRefund msg lockId c).locks lockId
      = { c.locks lockId with isRefunded := true } := update_self ..
  refine ⟨h.eligible.1, ?_, ?_, ?_, ?_, ?_, rfl, rfl, rfl, rfl⟩
  · rintro sn ⟨⟩
  · intro id hid
    exact update_of_ne hid _ _
  · rw [hself]
  · rw [hself]
    exact Or.inr ⟨h.eligible.1.notUnlocked, rfl⟩
  · intro sn
    rw [decide_eq_false (by simp), Bool.false_or]
    rfl

section

variable {c c' : ExchangeContract} {lockId : Bytes32} {serialNumber : Option Bytes32}
  {payee : Address} (h : Releases c c' lockId serialNumber payee)

include h

/-- A released lock holds nothing. -/
theorem Releases.liveAmount_eq_zero : liveAmount (c'.locks lockId) = 0 := by
  rcases h.flags with ⟨hu, hr⟩ | ⟨hu, hr⟩
  · simp [liveAmount, hu]
  · simp [liveAmount, hr]

/-- Exactly the amount of the released lock leaves the total. -/
theorem Releases.lockedTotal_eq (hc : Books c) :
    lockedTotal c = (c.locks lockId).amount + lockedTotal c' := by
  have hmem := hc.live_mem h.live
  have hrest : ∑ id ∈ c.lockIds.toFinset.erase lockId, liveAmount (c'.locks id)
      = ∑ id ∈ c.lockIds.toFinset.erase lockId, liveAmount (c.locks id) := by
    refine Finset.sum_congr rfl (fun id hid => ?_)
    rw [h.other id (Finset.ne_of_mem_erase hid)]
  unfold lockedTotal
  rw [h.lockIds, ← Finset.add_sum_erase _ (fun id => liveAmount (c.locks id)) hmem,
    ← Finset.add_sum_erase _ (fun id => liveAmount (c'.locks id)) hmem, hrest]
  show liveAmount (c.locks lockId) + _ = _ + (liveAmount (c'.locks lockId) + _)
  rw [h.liveAmount_eq_zero, liveAmount_of_live h.live, Nat.zero_add]

/-- One release more, of this lock. -/
theorem Releases.releasesOf_eq (id : Bytes32) :
    releasesOf id c' = releasesOf id c + (decide (lockId = id)).toNat := by
  unfold releasesOf
  rw [h.releases, List.countP_cons]
  by_cases hid : lockId = id
  · simp [hid]
  · simp [hid]

theorem Releases.releasesUnder_eq (sn : Bytes32) :
    releasesUnder sn c' = releasesUnder sn c + (decide (serialNumber = some sn)).toNat := by
  unfold releasesUnder
  rw [h.releases, List.countP_cons]
  by_cases hsn : serialNumber = some sn
  · simp [hsn]
  · simp [hsn]

/-- A release keeps the books. -/
theorem books_release (hc : Books c) : Books c' := by
  have hfunds := hc.funded h.live
  refine ⟨by rw [h.lockIds]; exact hc.nodup, ?_, ?_, ?_, ?_, ?_, ?_⟩
  · intro id
    rw [h.lockIds, hc.enumerated id]
    by_cases hid : id = lockId
    · rw [hid, h.amount]
    · rw [h.other id hid]
  · intro id hzero
    by_cases hid : id = lockId
    · rw [hid, h.amount] at hzero
      exact absurd h.live.found (by omega)
    · rw [h.other id hid] at hzero ⊢
      exact hc.empty id hzero
  · intro id
    rw [h.releasesOf_eq, hc.released id]
    by_cases hid : id = lockId
    · -- the live lock had no payment, and now has one flag
      subst hid
      rw [h.live.notUnlocked, h.live.notRefunded]
      rcases h.flags with ⟨hu, hr⟩ | ⟨hu, hr⟩ <;> rw [hu, hr] <;> simp
    · have hne : lockId ≠ id := fun he => hid he.symm
      rw [h.other id hid, decide_eq_false hne]
      rfl
  · intro id
    by_cases hid : id = lockId
    · subst hid
      rintro ⟨hu', hr'⟩
      rcases h.flags with ⟨hu, hr⟩ | ⟨hu, hr⟩
      · rw [hr] at hr'
        exact Bool.false_ne_true hr'
      · rw [hu] at hu'
        exact Bool.false_ne_true hu'
    · rw [h.other id hid]
      exact hc.exclusive id
  · intro sn
    rw [h.releasesUnder_eq, h.used sn, hc.serial sn]
    by_cases hsn : serialNumber = some sn
    · rw [h.fresh sn hsn, decide_eq_true hsn]
      rfl
    · rw [decide_eq_false hsn, Bool.false_or]
      rfl
  · have htotal := h.lockedTotal_eq hc
    rw [h.balance, h.deposits, hc.balance]
    omega

end

/-! ## §4. Every run. -/

/-- **Each call keeps the books.** -/
theorem books_step {pairing : PairingCheck} (tx : Tx) (c c' : ExchangeContract) (hc : Books c)
    (h : exec pairing tx c = .ok c') : Books c' := by
  cases exec_effect h with
  | setVerifyingKeys _ =>
    exact ⟨hc.nodup, hc.enumerated, hc.empty, hc.released, hc.exclusive, hc.serial, hc.balance⟩
  | lock valid fresh => exact books_lock _ hc (Denomination.isValidDenomination_pos valid) fresh
  | unlock guards _ => exact books_release (releases_unlock guards) hc
  | refund guards _ => exact books_release (releases_refund guards) hc
  | deposit =>
    refine ⟨hc.nodup, hc.enumerated, hc.empty, hc.released, hc.exclusive, hc.serial, ?_⟩
    show c.balance + _ = lockedTotal c + (c.deposits + _)
    rw [hc.balance, Nat.add_assoc]

/-- What a correct exchange contract guarantees in a state.

The windows of a lock are said of the FUNCTIONS: an `unlock` that succeeds is in time, a
`refund` that succeeds is late, so no timestamp lets both through; and at every timestamp a
live lock is open for one of them, to whoever brings what that call asks of its caller. -/
structure Accounting (pairing : PairingCheck) (c : ExchangeContract) : Prop where
  released_once : ∀ lockId, releasesOf lockId c ≤ 1
  exclusive : ∀ lockId,
    ¬ ((c.locks lockId).isUnlocked = true ∧ (c.locks lockId).isRefunded = true)
  serial_once : ∀ serialNumber, releasesUnder serialNumber c ≤ 1
  eligible : ∀ lockId, (c.locks lockId).Live → ∀ t,
    Xor (UnlockEligible t (c.locks lockId)) (RefundEligible t (c.locks lockId))
  unlock_in_time : ∀ msg lockId serialNumber merkleRoot proof,
    (unlock pairing msg lockId serialNumber merkleRoot proof c).isOk = true →
    UnlockEligible msg.timestamp (c.locks lockId)
  refund_late : ∀ msg lockId, (refund msg lockId c).isOk = true →
    RefundEligible msg.timestamp (c.locks lockId)
  never_both : ∀ msg msg' lockId serialNumber merkleRoot proof,
    msg.timestamp = msg'.timestamp →
    ¬ ((unlock pairing msg lockId serialNumber merkleRoot proof c).isOk = true
      ∧ (refund msg' lockId c).isOk = true)
  open_for_one : ∀ lockId, (c.locks lockId).Live → ∀ t,
    (∀ msg serialNumber merkleRoot proof, msg.timestamp = t →
        c.usedSerialNumbers serialNumber = false →
        verify pairing c.vk_phi_on proof
          (unlockInputs serialNumber (c.locks lockId).amount merkleRoot) = .ok true →
        (unlock pairing msg lockId serialNumber merkleRoot proof c).isOk = true)
      ∨ ∀ msg : Msg, msg.timestamp = t → (c.locks lockId).locker = msg.sender →
        (refund msg lockId c).isOk = true
  enumerated : c.lockIds.Nodup ∧ ∀ lockId, (c.locks lockId).Live → lockId ∈ c.lockIds
  balance : c.balance = lockedTotal c + c.deposits
  unlock_funded : ∀ msg lockId serialNumber merkleRoot proof,
    CanUnlock pairing msg lockId serialNumber merkleRoot proof c →
    (unlock pairing msg lockId serialNumber merkleRoot proof c).isOk = true
  refund_funded : ∀ msg lockId, CanRefund msg lockId c → (refund msg lockId c).isOk = true

/-- A live lock is always eligible for one of the two, never for both. -/
theorem eligible_xor {record : LockRecord} (h : record.Live) (t : Nat) :
    Xor (UnlockEligible t record) (RefundEligible t record) := by
  rcases Nat.lt_or_ge record.timeLock t with hlt | hge
  · exact Or.inr ⟨⟨h, hlt⟩, fun hu => absurd hu.2 (by omega)⟩
  · exact Or.inl ⟨⟨h, hge⟩, fun hr => absurd hr.2 (by omega)⟩

section Windows

variable {pairing : PairingCheck} {c : ExchangeContract} {msg : Msg}
  {lockId serialNumber merkleRoot : Bytes32} {proof : Proof}

/-- With balanced books an unlock succeeds by its guards alone. -/
theorem Books.unlock_isOk_iff (hc : Books c) :
    (unlock pairing msg lockId serialNumber merkleRoot proof c).isOk = true
      ↔ CanUnlock pairing msg lockId serialNumber merkleRoot proof c := by
  constructor
  · intro hok
    obtain ⟨c', h⟩ := exists_of_isOk hok
    exact (unlock_eq_ok.mp h).1
  · intro hcan
    rw [unlock_eq_ok.mpr ⟨hcan, hc.funded hcan.eligible.1, rfl⟩]
    rfl

/-- And so does a refund. -/
theorem Books.refund_isOk_iff (hc : Books c) :
    (refund msg lockId c).isOk = true ↔ CanRefund msg lockId c := by
  constructor
  · intro hok
    obtain ⟨c', h⟩ := exists_of_isOk hok
    exact (refund_eq_ok.mp h).1
  · intro hcan
    rw [refund_eq_ok.mpr ⟨hcan, hc.funded hcan.eligible.1, rfl⟩]
    rfl

end Windows

/-- The books give the accounts. -/
theorem accounting_of_books {pairing : PairingCheck} {c : ExchangeContract} (hc : Books c) :
    Accounting pairing c where
  released_once := by
    intro id
    have hex := hc.exclusive id
    rw [hc.released id]
    -- two flags, not both set
    cases hu : (c.locks id).isUnlocked <;> cases hr : (c.locks id).isRefunded <;> simp_all
  exclusive := hc.exclusive
  serial_once := by
    intro sn
    rw [hc.serial sn]
    exact Bool.toNat_le _
  eligible := fun _ hlive t => eligible_xor hlive t
  unlock_in_time := fun _ _ _ _ _ hok => (hc.unlock_isOk_iff.mp hok).eligible
  refund_late := fun _ _ hok => (hc.refund_isOk_iff.mp hok).eligible
  never_both := by
    rintro msg msg' lockId _ _ _ htime ⟨hunlock, hrefund⟩
    have hin := (hc.unlock_isOk_iff.mp hunlock).eligible.2
    have hlate := (hc.refund_isOk_iff.mp hrefund).eligible.2
    omega
  open_for_one := by
    intro lockId hlive t
    rcases Nat.lt_or_ge (c.locks lockId).timeLock t with hlate | hin
    · refine Or.inr fun msg htime hlocker => ?_
      exact hc.refund_isOk_iff.mpr ⟨⟨hlive, by omega⟩, hlocker⟩
    · refine Or.inl fun msg _ _ _ htime hfresh hverify => ?_
      exact hc.unlock_isOk_iff.mpr ⟨⟨hlive, by omega⟩, hfresh, hverify⟩
  enumerated := ⟨hc.nodup, fun id hlive => (hc.enumerated id).mpr hlive.found⟩
  balance := hc.balance
  unlock_funded := fun _ _ _ _ _ hcan => hc.unlock_isOk_iff.mpr hcan
  refund_funded := fun _ _ hcan => hc.refund_isOk_iff.mpr hcan

/-- **Exact accounting and exclusivity**: in every state a run can be in, whatever the
payees' code does while it is being paid, every lock and every serial number is paid
at most once, a live lock can be unlocked or refunded but not both, the balance is
what live locks and deposits hold, and no payment that passes its guards lacks funds. -/
theorem exchange_accounting (pairing : PairingCheck) (owner : Address) (vkOff vkOn : VerifyingKey)
    (moves : List (Move Tx)) :
    Accounting pairing (run (step pairing) ⟨deploy owner vkOff vkOn, []⟩ moves).current :=
  accounting_of_books (reentrant_invariant books_step moves (books_deploy owner vkOff vkOn))

end HZKA.Phi
