/-
  HZKA.Theta.World — two instances of the transfer contract, on Chain I and Chain II,
  with transactions of any callers interleaved in any order.  The ledgers share no
  state: a transaction on one chain leaves the other as it was (`execWorld_other`).
-/
import HZKA.Contracts.Transfer

namespace HZKA.Theta

open Function
open HZKA.Lib HZKA.EVM HZKA.Groth16Verifier HZKA.TransferContract

/-- The two chains. -/
inductive Chain where
  | I
  | II
  deriving DecidableEq, Repr

/-- The two ledgers. -/
abbrev World := Chain → TransferContract

/-- A transaction on one of the chains. -/
structure WorldTx where
  chain : Chain
  tx : TransferContract.Tx
  deriving DecidableEq, Repr

/-- Both contracts freshly deployed. -/
def deployed (owner : Chain → Address) (vkMint vkRedeem : Chain → VerifyingKey) : World :=
  fun chain => TransferContract.deploy (owner chain) (vkMint chain) (vkRedeem chain)

/-- A transaction on its chain. -/
def execWorld (pairing : PairingCheck) (tx : WorldTx) (w : World) : Except Revert World := do
  let c ← TransferContract.exec pairing tx.tx (w tx.chain)
  return update w tx.chain c

variable {pairing : PairingCheck}

/-- A transaction on its own chain. -/
theorem execWorld_eq_ok {tx : WorldTx} {w w' : World} :
    execWorld pairing tx w = .ok w'
      ↔ ∃ c, TransferContract.exec pairing tx.tx (w tx.chain) = .ok c
        ∧ w' = update w tx.chain c := by
  unfold execWorld
  rw [bind_eq_ok]
  simp only [pure_eq_ok]
  exact exists_congr (fun c => and_congr_right (fun _ => eq_comm))

/-- The effect on the transaction's own chain. -/
theorem execWorld_effect {tx : WorldTx} {w w' : World} (h : execWorld pairing tx w = .ok w') :
    Effect pairing (w tx.chain) (w' tx.chain) tx.tx := by
  obtain ⟨c, hexec, rfl⟩ := execWorld_eq_ok.mp h
  rw [update_self]
  exact exec_effect hexec

/-- The other chain is left alone. -/
theorem execWorld_other {tx : WorldTx} {w w' : World} (h : execWorld pairing tx w = .ok w')
    {chain : Chain} (hne : chain ≠ tx.chain) : w' chain = w chain := by
  obtain ⟨c, -, rfl⟩ := execWorld_eq_ok.mp h
  exact update_of_ne hne _ _

end HZKA.Theta
