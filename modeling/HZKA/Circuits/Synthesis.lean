/-
  HZKA.Circuits.Synthesis
  ────────────
  **SYNTHESIS OF THE AGGREGATION CIRCUIT** (`circuit_20m/src/aggregation.rs`):
  `AggregationCircuit::new` and `generate_constraints`, variable by variable.

  The circuit allocates the roots of a slot twice, once for the state transition and once, raw,
  for the simulated proof verification; round and cluster id are allocated again for the
  padding.  The values written into these variables are a parameter here: `generate_constraints`
  writes honest ones, a prover need not.  The sponge is one gadget of `spongeSize` constraints.

    • `satisfied_synthesize` — what a satisfying assignment has to meet, on every variable;
    • `uniform_synthesize`   — the system depends on the number of slots only;
    • `completes_synthesize` — values for valid transitions satisfy it, whatever is raw.
-/
import HZKA.Circuits.Aggregation
import HZKA.Lib.ConstraintSystem

namespace HZKA.Circuits.Aggregation

open HZKA.Lib

/-! ## §1. The circuit and its values. -/

/-- The size the benchmark aims at. -/
def TARGET_CONSTRAINTS : Nat := 20014400

/-- `use_commitment` is not read. -/
structure AggregationConfig where
  slots : Nat
  useCommitment : Bool

/-- The circuit with its data. -/
structure AggregationCircuit where
  config : AggregationConfig
  /-- `(old_root, new_root, tx_data)`. -/
  slotData : List (Fr × Fr × Fr)
  commitment : Fr
  clusterId : Fr
  round : Fr

variable (poseidon : Poseidon)

/-- The data of slot `i`; `usize` arithmetic wraps. -/
def slotDatum (i : Nat) : Fr × Fr × Fr :=
  let oldRoot : Fr := ((i * 1000 + 1) % 2 ^ 64 : Nat)
  let txData : Fr := ((i * 100 + 42) % 2 ^ 64 : Nat)
  (oldRoot, computeStateTransition poseidon oldRoot txData, txData)

/-- `AggregationCircuit::new`; without a slot the commitment's assertion fails. -/
def AggregationCircuit.new (config : AggregationConfig) : Option AggregationCircuit := do
  let slotData := (List.range config.slots).map (slotDatum poseidon)
  let commitment ← computeCommitment poseidon (slotData.map fun s => s.2.1)
  return ⟨config, slotData, commitment, 1, 42⟩

/-- What is written into the variables of one slot. -/
structure SlotValues where
  oldRoot : Fr
  newRoot : Fr
  txData : Fr
  oldRaw : Fr
  newRaw : Fr

/-- The values the prover assigns. -/
structure ProverValues where
  commitment : Fr
  clusterId : Fr
  round : Fr
  slots : List SlotValues
  roundRaw : Fr
  idRaw : Fr

/-- `generate_constraints` writes each value into both its variables. -/
def AggregationCircuit.values (c : AggregationCircuit) : ProverValues where
  commitment := c.commitment
  clusterId := c.clusterId
  round := c.round
  slots := c.slotData.map fun s => ⟨s.1, s.2.1, s.2.2, s.1, s.2.1⟩
  roundRaw := c.round
  idRaw := c.clusterId

/-! ## §2. `generate_constraints`. -/

/-- The variables of one slot. -/
structure SlotWires where
  oldRoot : Nat
  newRoot : Nat
  txData : Nat
  computedNew : Nat
  oldRaw : Nat
  newRaw : Nat
  w : List Nat

/-- The variables of the padding. -/
structure PaddingWires where
  roundRaw : Nat
  idRaw : Nat
  w : List Nat

/-- The variables of the circuit. -/
structure Wires where
  commitment : Nat
  clusterId : Nat
  round : Nat
  slots : List SlotWires
  squeezed : List Nat
  padding : Option PaddingWires

/-- `(x + j) · y = w`. -/
def loadConstraint (x y j w : Nat) : Constraint Fr :=
  .product [(1, .witness x), ((j : Fr), .one)] [(1, .witness y)] [(1, .witness w)]

/-- The loop that simulates load, from round `j` on for `k` rounds. -/
def loadLoop (xValue yValue : Fr) (x y : Nat) : Nat → Nat → Synthesis Fr (List Nat)
  | 0, _ => return []
  | k + 1, j => do
    let w ← newWitness ((xValue + (j : Fr)) * yValue)
    enforce (loadConstraint x y j w)
    let rest ← loadLoop xValue yValue x y k (j + 1)
    return w :: rest

/-- The sponge, the number of constraints of its gadget, and the two constants of the load. -/
structure Params where
  poseidon : Poseidon
  spongeSize : Nat
  simPerSlot : Nat
  targetConstraints : Nat

/-- The constants of the benchmark. -/
def benchmark (spongeSize : Nat) : Params :=
  ⟨poseidon, spongeSize, GROTH16_SIM_PER_SLOT, TARGET_CONSTRAINTS⟩

variable (P : Params)

/-- A fresh `PoseidonSpongeVar` that absorbs two variables and is squeezed once. -/
def sponge (x y : Nat) : Synthesis Fr Nat :=
  applyGadget P.spongeSize P.poseidon (.witness x) (.witness y)

/-- One slot: transition, equality, load. -/
def synthesizeSlot (v : SlotValues) : Synthesis Fr SlotWires := do
  let oldRoot ← newWitness v.oldRoot
  let newRoot ← newWitness v.newRoot
  let txData ← newWitness v.txData
  let computedNew ← sponge P oldRoot txData
  enforceEqual (.witness computedNew) (.witness newRoot)
  let oldRaw ← newWitness v.oldRaw
  let newRaw ← newWitness v.newRaw
  let w ← loadLoop v.oldRaw v.newRaw oldRaw newRaw P.simPerSlot 0
  return ⟨oldRoot, newRoot, txData, computedNew, oldRaw, newRaw, w⟩

/-- All slots in order. -/
def synthesizeSlots : List SlotValues → Synthesis Fr (List SlotWires)
  | [] => return []
  | v :: rest => do
    let slot ← synthesizeSlot P v
    let slots ← synthesizeSlots rest
    return slot :: slots

/-- The compressions of the commitment, from the accumulator `acc`. -/
def bindLoop : Nat → List Nat → Synthesis Fr (List Nat)
  | _, [] => return []
  | acc, root :: roots => do
    let squeezed ← sponge P acc root
    let rest ← bindLoop squeezed roots
    return squeezed :: rest

/-- The base constraints, if there is room for any. -/
def paddingLoop (v : ProverValues) (remaining : Nat) : Synthesis Fr (Option PaddingWires) :=
  if remaining > 0 then do
    let roundRaw ← newWitness v.roundRaw
    let idRaw ← newWitness v.idRaw
    let w ← loadLoop v.roundRaw v.idRaw roundRaw idRaw remaining 0
    return some ⟨roundRaw, idRaw, w⟩
  else
    return none

/-- The load that fills up to the target. -/
def synthesizePadding (v : ProverValues) : Synthesis Fr (Option PaddingWires) := do
  let sys ← get
  paddingLoop v (P.targetConstraints - sys.numConstraints)

/-- What follows the slots; `none` is the panic of `new_root_vars[0]`. -/
def synthesizeRest (v : ProverValues) (commitment clusterId round : Nat) :
    List SlotWires → Synthesis Fr (Option Wires)
  | [] => return none
  | first :: rest => do
    let squeezed ← bindLoop P first.newRoot (rest.map SlotWires.newRoot)
    enforceEqual (.witness (squeezed.getLastD first.newRoot)) (.input commitment)
    let padding ← synthesizePadding P v
    return some ⟨commitment, clusterId, round, first :: rest, squeezed, padding⟩

/-- Inputs, slots, commitment and padding. -/
def synthesize (v : ProverValues) : Synthesis Fr (Option Wires) := do
  let commitment ← newInput v.commitment
  let clusterId ← newInput v.clusterId
  let round ← newInput v.round
  let slots ← synthesizeSlots P v.slots
  synthesizeRest P v commitment clusterId round slots

/-- `generate_constraints` on a fresh constraint system: the variables, and the system. -/
def generateConstraints (spongeSize : Nat) (c : AggregationCircuit) : Option Wires × System Fr :=
  synthesize (benchmark poseidon spongeSize) c.values System.empty

/-! ## §3. What a satisfying assignment meets. -/

variable {P}

/-- A load constraint under an assignment. -/
theorem holds_loadConstraint (x y j w : Nat) (a : Assigned Fr) :
    (loadConstraint x y j w).Holds a ↔ (a.witness x + (j : Fr)) * a.witness y = a.witness w := by
  simp [loadConstraint, Constraint.Holds, LinearCombination.eval, Variable.value]

/-- The load constraints from round `j` on. -/
def LoadHolds (a : Assigned Fr) (x y : Nat) : Nat → List Nat → Prop
  | _, [] => True
  | j, w :: rest =>
    (a.witness x + (j : Fr)) * a.witness y = a.witness w ∧ LoadHolds a x y (j + 1) rest

/-- The load by index. -/
theorem loadHolds_iff {a : Assigned Fr} {x y : Nat} : ∀ {ws : List Nat} {j : Nat},
    LoadHolds a x y j ws ↔ ∀ i < ws.length,
      (a.witness x + ((j + i : Nat) : Fr)) * a.witness y = a.witness (ws.getD i 0) := by
  intro ws
  induction ws with
  | nil => exact fun {_} => ⟨fun _ i hi => absurd hi (Nat.not_lt_zero i), fun _ => trivial⟩
  | cons w rest ih =>
    intro j
    rw [LoadHolds, ih]
    constructor
    · rintro ⟨hfirst, hrest⟩ i hi
      cases i with
      | zero => exact hfirst
      | succ i =>
        have hstep : j + (i + 1) = j + 1 + i := by omega
        rw [hstep, List.getD_cons_succ]
        exact hrest i (Nat.lt_of_succ_lt_succ hi)
    · intro hall
      refine ⟨hall 0 (Nat.zero_lt_succ _), fun i hi => ?_⟩
      have hstep : j + 1 + i = j + (i + 1) := by omega
      rw [hstep]
      exact hall (i + 1) (Nat.succ_lt_succ hi)

/-- The load adds its constraints. -/
theorem satisfied_loadLoop (xValue yValue : Fr) (x y : Nat) (a : Assigned Fr) :
    ∀ (k j : Nat) (sys : System Fr), (loadLoop xValue yValue x y k j sys).2.Satisfied a
      ↔ sys.Satisfied a ∧ LoadHolds a x y j (loadLoop xValue yValue x y k j sys).1 := by
  intro k
  induction k with
  | zero => exact fun j sys => ⟨fun h => ⟨h, trivial⟩, fun h => h.1⟩
  | succ k ih =>
    intro j sys
    simp only [loadLoop, run_bind, run_pure, LoadHolds, ih, satisfied_enforce,
      satisfied_newWitness, holds_loadConstraint, and_assoc]

/-- `k` wires. -/
theorem length_loadLoop (xValue yValue : Fr) (x y : Nat) :
    ∀ (k j : Nat) (sys : System Fr), (loadLoop xValue yValue x y k j sys).1.length = k := by
  intro k
  induction k with
  | zero => exact fun _ _ => rfl
  | succ k ih => exact fun j sys => congrArg Nat.succ (ih (j + 1) _)

/-- The constraints of a slot. -/
structure SlotWires.Holds (poseidon : Poseidon) (s : SlotWires) (a : Assigned Fr) : Prop where
  sponge : poseidon (a.witness s.oldRoot) (a.witness s.txData) = a.witness s.computedNew
  equal : a.witness s.computedNew = a.witness s.newRoot
  load : LoadHolds a s.oldRaw s.newRaw 0 s.w

/-- A slot adds its constraints. -/
theorem satisfied_synthesizeSlot (v : SlotValues) (a : Assigned Fr) (sys : System Fr) :
    (synthesizeSlot P v sys).2.Satisfied a
      ↔ sys.Satisfied a ∧ (synthesizeSlot P v sys).1.Holds P.poseidon a := by
  have hunfold : ∀ s : SlotWires, s.Holds P.poseidon a
      ↔ P.poseidon (a.witness s.oldRoot) (a.witness s.txData) = a.witness s.computedNew
        ∧ a.witness s.computedNew = a.witness s.newRoot ∧ LoadHolds a s.oldRaw s.newRaw 0 s.w :=
    fun s => ⟨fun h => ⟨h.sponge, h.equal, h.load⟩, fun h => ⟨h.1, h.2.1, h.2.2⟩⟩
  simp only [hunfold, synthesizeSlot, sponge, run_bind, run_pure, satisfied_loadLoop,
    satisfied_newWitness, satisfied_enforceEqual, satisfied_applyGadget, Variable.value, and_assoc]

/-- Slots add theirs. -/
theorem satisfied_synthesizeSlots (a : Assigned Fr) : ∀ (vs : List SlotValues) (sys : System Fr),
    (synthesizeSlots P vs sys).2.Satisfied a
      ↔ sys.Satisfied a
        ∧ ∀ s ∈ (synthesizeSlots P vs sys).1, s.Holds P.poseidon a := by
  intro vs
  induction vs with
  | nil => exact fun sys => ⟨fun h => ⟨h, nofun⟩, fun h => h.1⟩
  | cons v rest ih =>
    intro sys
    simp only [synthesizeSlots, run_bind, run_pure, ih, satisfied_synthesizeSlot,
      List.forall_mem_cons, and_assoc]

/-- The loop of the commitment is that of the circuit's relation. -/
theorem satisfied_bindLoop (a : Assigned Fr) : ∀ (roots : List Nat) (acc : Nat) (sys : System Fr),
    (bindLoop P acc roots sys).2.Satisfied a
      ↔ sys.Satisfied a ∧ Accumulates P.poseidon (a.witness acc) (roots.map a.witness)
          ((bindLoop P acc roots sys).1.map a.witness)
          (a.witness ((bindLoop P acc roots sys).1.getLastD acc)) := by
  intro roots
  induction roots with
  | nil => exact fun acc sys => ⟨fun h => ⟨h, rfl⟩, fun h => h.1⟩
  | cons root roots ih =>
    intro acc sys
    simp only [bindLoop, sponge, run_bind, run_pure, ih, List.map_cons, List.getLastD_cons,
      Accumulates, satisfied_applyGadget, Variable.value, and_assoc]

/-- The padding's constraints. -/
def PaddingWires.Holds (p : PaddingWires) (a : Assigned Fr) : Prop :=
  LoadHolds a p.roundRaw p.idRaw 0 p.w

/-- So does the padding. -/
theorem satisfied_paddingLoop (v : ProverValues) (remaining : Nat) (a : Assigned Fr)
    (sys : System Fr) : (paddingLoop v remaining sys).2.Satisfied a
      ↔ sys.Satisfied a ∧ ∀ p ∈ (paddingLoop v remaining sys).1, p.Holds a := by
  unfold paddingLoop
  split
  case isTrue =>
    simp only [run_bind, run_pure, satisfied_loadLoop, satisfied_newWitness, Option.mem_some_iff,
      forall_eq', PaddingWires.Holds]
  case isFalse =>
    exact ⟨fun h => ⟨h, fun p hp => absurd hp (Option.not_mem_none p)⟩, fun h => h.1⟩

theorem run_synthesizePadding (v : ProverValues) (sys : System Fr) :
    synthesizePadding P v sys
      = paddingLoop v (P.targetConstraints - sys.numConstraints) sys := rfl

theorem satisfied_synthesizePadding (v : ProverValues) (a : Assigned Fr) (sys : System Fr) :
    (synthesizePadding P v sys).2.Satisfied a
      ↔ sys.Satisfied a ∧ ∀ p ∈ (synthesizePadding P v sys).1, p.Holds a :=
  satisfied_paddingLoop v (P.targetConstraints - sys.numConstraints) a sys

/-- The variables of the accumulated new roots. -/
def Wires.newRoots (w : Wires) : List Nat := w.slots.map SlotWires.newRoot

/-- All constraints. -/
structure Wires.Holds (poseidon : Poseidon) (w : Wires) (a : Assigned Fr) : Prop where
  slots : ∀ s ∈ w.slots, s.Holds poseidon a
  binding : ∃ root roots, w.newRoots = root :: roots
    ∧ Accumulates poseidon (a.witness root) (roots.map a.witness) (w.squeezed.map a.witness)
        (a.witness (w.squeezed.getLastD root))
    ∧ a.witness (w.squeezed.getLastD root) = a.input w.commitment
  padding : ∀ p ∈ w.padding, p.Holds a

/-- And the rest. -/
theorem satisfied_synthesizeRest {v : ProverValues} {commitment clusterId round : Nat}
    {slots : List SlotWires} {sys : System Fr} {w : Wires} (a : Assigned Fr)
    (hw : (synthesizeRest P v commitment clusterId round slots sys).1 = some w) :
    w.commitment = commitment ∧ w.clusterId = clusterId ∧ w.round = round ∧ w.slots = slots
      ∧ ((synthesizeRest P v commitment clusterId round slots sys).2.Satisfied a
        ↔ sys.Satisfied a ∧ (∃ root roots, w.newRoots = root :: roots
            ∧ Accumulates P.poseidon (a.witness root) (roots.map a.witness)
                (w.squeezed.map a.witness) (a.witness (w.squeezed.getLastD root))
            ∧ a.witness (w.squeezed.getLastD root) = a.input w.commitment)
          ∧ ∀ p ∈ w.padding, p.Holds a) := by
  cases slots with
  | nil => cases hw
  | cons first rest =>
    simp only [synthesizeRest, run_bind, run_pure, Option.some.injEq] at hw
    subst hw
    refine ⟨rfl, rfl, rfl, rfl, ?_⟩
    simp only [synthesizeRest, run_bind, run_pure, satisfied_synthesizePadding,
      satisfied_enforceEqual, satisfied_bindLoop, Variable.value, Wires.newRoots, List.map_cons,
      List.cons.injEq, and_assoc, exists_and_left, exists_eq_left']

/-- **The system, constraint by constraint.** -/
theorem satisfied_synthesize {v : ProverValues} {w : Wires}
    (hw : (synthesize P v System.empty).1 = some w) (a : Assigned Fr) :
    w.commitment = 0 ∧ w.clusterId = 1 ∧ w.round = 2
      ∧ ((synthesize P v System.empty).2.Satisfied a ↔ w.Holds P.poseidon a) := by
  obtain ⟨hcommitment, hcluster, hround, hslots, hsat⟩ := satisfied_synthesizeRest a hw
  refine ⟨hcommitment, hcluster, hround, hsat.trans ?_⟩
  rw [satisfied_synthesizeSlots, ← hslots]
  exact ⟨fun h => ⟨h.1.2, h.2.1, h.2.2⟩, fun h => ⟨⟨nofun, h.slots⟩, h.binding, h.padding⟩⟩

/-! ## §4. The system depends on the number of slots only. -/

/-- The load does not depend on values. -/
theorem uniform_loadLoop (xValue yValue xValue' yValue' : Fr) (x y : Nat) : ∀ k j : Nat,
    Uniform (loadLoop xValue yValue x y k j) (loadLoop xValue' yValue' x y k j) := by
  intro k
  induction k with
  | zero => exact fun _ => Uniform.pure []
  | succ k ih =>
    intro j
    exact (uniform_newWitness _ _).bind fun w => (uniform_enforce _).bind fun _ =>
      (ih (j + 1)).bind fun rest => Uniform.pure (w :: rest)

theorem uniform_sponge (x y : Nat) : Uniform (sponge P x y) (sponge P x y) :=
  uniform_applyGadget _ _ _ _

/-- The constraints of a slot do not depend on its values. -/
theorem uniform_synthesizeSlot (v v' : SlotValues) :
    Uniform (synthesizeSlot P v) (synthesizeSlot P v') :=
  (uniform_newWitness _ _).bind fun _ => (uniform_newWitness _ _).bind fun _ =>
    (uniform_newWitness _ _).bind fun _ => (uniform_sponge _ _).bind fun _ =>
    (uniform_enforce _).bind fun _ => (uniform_newWitness _ _).bind fun _ =>
    (uniform_newWitness _ _).bind fun _ => (uniform_loadLoop _ _ _ _ _ _ _ _).bind fun _ =>
    Uniform.pure _

/-- Slots depend on their number only. -/
theorem uniform_synthesizeSlots : ∀ {vs vs' : List SlotValues}, vs.length = vs'.length →
    Uniform (synthesizeSlots P vs) (synthesizeSlots P vs') := by
  intro vs
  induction vs with
  | nil =>
    intro vs' hlen
    rw [List.length_eq_zero_iff.mp hlen.symm]
    exact Uniform.pure []
  | cons v rest ih =>
    intro vs' hlen
    obtain ⟨v', rest', rfl⟩ := List.exists_cons_of_length_eq_add_one hlen.symm
    exact (uniform_synthesizeSlot v v').bind fun slot =>
      (ih (Nat.succ.inj hlen)).bind fun slots => Uniform.pure (slot :: slots)

/-- Nor does the binding. -/
theorem uniform_bindLoop : ∀ (roots : List Nat) (acc : Nat),
    Uniform (bindLoop P acc roots) (bindLoop P acc roots) := by
  intro roots
  induction roots with
  | nil => exact fun _ => Uniform.pure []
  | cons root roots ih =>
    intro acc
    exact (uniform_sponge acc root).bind fun squeezed =>
      (ih squeezed).bind fun rest => Uniform.pure (squeezed :: rest)

/-- Nor do those of the padding loop. -/
theorem uniform_paddingLoop (v v' : ProverValues) (remaining : Nat) :
    Uniform (paddingLoop v remaining) (paddingLoop v' remaining) := by
  unfold paddingLoop
  split
  case isTrue =>
    exact (uniform_newWitness _ _).bind fun _ => (uniform_newWitness _ _).bind fun _ =>
      (uniform_loadLoop _ _ _ _ _ _ _ _).bind fun _ => Uniform.pure _
  case isFalse => exact Uniform.pure none

theorem uniform_synthesizePadding (v v' : ProverValues) :
    Uniform (synthesizePadding P v) (synthesizePadding P v') := by
  intro sys sys' h
  -- the room left is counted on systems of one shape
  rw [run_synthesizePadding, run_synthesizePadding, h.numConstraints]
  exact uniform_paddingLoop v v' _ sys sys' h

/-- Nor the rest. -/
theorem uniform_synthesizeRest (v v' : ProverValues) (commitment clusterId round : Nat)
    (slots : List SlotWires) : Uniform (synthesizeRest P v commitment clusterId round slots)
      (synthesizeRest P v' commitment clusterId round slots) := by
  cases slots with
  | nil => exact Uniform.pure none
  | cons first rest =>
    exact (uniform_bindLoop _ _).bind fun _ => (uniform_enforce _).bind fun _ =>
      (uniform_synthesizePadding v v').bind fun _ => Uniform.pure _

/-- **One system for every number of slots.** -/
theorem uniform_synthesize {v v' : ProverValues} (hlen : v.slots.length = v'.slots.length) :
    Uniform (synthesize P v) (synthesize P v') :=
  (uniform_newInput _ _).bind fun _ => (uniform_newInput _ _).bind fun _ =>
    (uniform_newInput _ _).bind fun _ => (uniform_synthesizeSlots hlen).bind fun _ =>
    uniform_synthesizeRest v v' _ _ _ _

/-! ## §5. Values that satisfy it. -/

/-- The load's own values satisfy it. -/
theorem completes_loadLoop {xValue yValue : Fr} {x y : Nat} : ∀ (k j : Nat) {sys : System Fr},
    Knows sys (.witness x) xValue → Knows sys (.witness y) yValue →
    Completes (loadLoop xValue yValue x y k j) sys fun _ _ => True := by
  intro k
  induction k with
  | zero => exact fun _ _ _ _ => Completes.pure trivial
  | succ k ih =>
    intro j sys hx hy
    refine (completes_newWitness _ sys).bind fun w s hext hw => ?_
    have hx' := hext.knows hx
    have hy' := hext.knows hy
    refine (completes_enforce ?_ ?_).bind fun _ s' hext' _ => ?_
    · intro v hv
      simp only [loadConstraint, Constraint.mentions, List.map_append, List.map_cons,
        List.map_nil, List.mem_append, List.mem_cons, List.not_mem_nil, or_false] at hv
      rcases hv with ((rfl | rfl) | rfl) | rfl
      · exact hx'.1
      · exact trivial
      · exact hy'.1
      · exact hw.1
    · have hxv : s.values.witness x = xValue := hx'.2
      have hyv : s.values.witness y = yValue := hy'.2
      have hwv : s.values.witness w = (xValue + (j : Fr)) * yValue := hw.2
      rw [holds_loadConstraint, hxv, hyv, hwv]
    · exact (ih (j + 1) (hext'.knows hx') (hext'.knows hy')).bind fun _ _ _ _ =>
        Completes.pure trivial

/-- The values of a slot are recorded. -/
structure SlotWires.Written (sys : System Fr) (s : SlotWires) (v : SlotValues) : Prop where
  oldRoot : Knows sys (.witness s.oldRoot) v.oldRoot
  newRoot : Knows sys (.witness s.newRoot) v.newRoot
  oldRaw : Knows sys (.witness s.oldRaw) v.oldRaw
  newRaw : Knows sys (.witness s.newRaw) v.newRaw

/-- Later wires change nothing. -/
theorem SlotWires.Written.extend {sys sys' : System Fr} (hext : Extends sys sys') {s : SlotWires}
    {v : SlotValues} (h : s.Written sys v) : s.Written sys' v :=
  ⟨hext.knows h.oldRoot, hext.knows h.newRoot, hext.knows h.oldRaw, hext.knows h.newRaw⟩

/-- A slot's values are a state transition; nothing is asked of the raw ones. -/
def SlotValues.Valid (poseidon : Poseidon) (v : SlotValues) : Prop :=
  v.newRoot = computeStateTransition poseidon v.oldRoot v.txData

/-- A valid slot satisfies its constraints. -/
theorem completes_synthesizeSlot {v : SlotValues} (hv : v.Valid P.poseidon) (sys : System Fr) :
    Completes (synthesizeSlot P v) sys fun s sys' => s.Written sys' v := by
  refine (completes_newWitness _ sys).bind fun oldRoot s₁ h₁ hold => ?_
  refine (completes_newWitness _ s₁).bind fun newRoot s₂ h₂ hnew => ?_
  refine (completes_newWitness _ s₂).bind fun txData s₃ h₃ htx => ?_
  have hold₃ := h₃.knows (h₂.knows hold)
  refine (completes_applyGadget _ _ hold₃ htx).bind fun computedNew s₄ h₄ hcomputed => ?_
  have hnew₄ := h₄.knows (h₃.knows hnew)
  have hequal : Knows s₄ (.witness computedNew) v.newRoot := by
    rw [hv]
    exact hcomputed
  refine (completes_enforceEqual hequal hnew₄).bind fun _ s₅ h₅ _ => ?_
  refine (completes_newWitness _ s₅).bind fun oldRaw s₆ h₆ hOldRaw => ?_
  refine (completes_newWitness _ s₆).bind fun newRaw s₇ h₇ hNewRaw => ?_
  refine (completes_loadLoop _ _ (h₇.knows hOldRaw) hNewRaw).bind fun w s₈ h₈ _ => ?_
  -- what was allocated first is still there at the end
  have hend := ((h₅.trans h₆).trans h₇).trans h₈
  exact Completes.pure ⟨hend.knows (h₄.knows hold₃), hend.knows hnew₄,
    (h₇.trans h₈).knows hOldRaw, h₈.knows hNewRaw⟩

/-- Valid slots satisfy theirs. -/
theorem completes_synthesizeSlots : ∀ {vs : List SlotValues} (sys : System Fr),
    (∀ v ∈ vs, v.Valid P.poseidon) →
    Completes (synthesizeSlots P vs) sys fun slots sys' =>
      List.Forall₂ (fun s v => s.Written sys' v) slots vs := by
  intro vs
  induction vs with
  | nil => exact fun _ _ => Completes.pure .nil
  | cons v rest ih =>
    intro sys hvalid
    obtain ⟨hv, hrest⟩ := List.forall_mem_cons.mp hvalid
    refine (completes_synthesizeSlot hv sys).bind fun slot s₁ h₁ hslot => ?_
    refine (ih s₁ hrest).bind fun slots s₂ h₂ hslots => ?_
    exact Completes.pure (.cons (hslot.extend h₂) hslots)

/-- The binding computes the commitment. -/
theorem completes_bindLoop : ∀ {roots : List Nat} {values : List Fr} {acc : Nat} {value : Fr}
    {sys : System Fr}, Knows sys (.witness acc) value →
    List.Forall₂ (fun root x => Knows sys (.witness root) x) roots values →
    Completes (bindLoop P acc roots) sys fun squeezed sys' =>
      Knows sys' (.witness (squeezed.getLastD acc)) (values.foldl P.poseidon value) := by
  intro roots
  induction roots with
  | nil =>
    intro values acc value sys hacc hroots
    cases hroots
    exact Completes.pure hacc
  | cons root roots ih =>
    intro values acc value sys hacc hroots
    cases hroots with
    | cons hroot hrest =>
      refine (completes_applyGadget _ _ hacc hroot).bind fun squeezed s₁ h₁ hsqueezed => ?_
      have hrest₁ := hrest.imp fun _ _ h => h₁.knows h
      refine (ih hsqueezed hrest₁).bind fun rest s₂ h₂ hlast => ?_
      refine Completes.pure ?_
      rw [List.getLastD_cons]
      exact hlast

/-- The padding satisfies its constraints. -/
theorem completes_paddingLoop (v : ProverValues) (remaining : Nat) (sys : System Fr) :
    Completes (paddingLoop v remaining) sys fun padding sys' => ∀ p ∈ padding,
      Knows sys' (.witness p.roundRaw) v.roundRaw ∧ Knows sys' (.witness p.idRaw) v.idRaw := by
  unfold paddingLoop
  split
  case isTrue =>
    refine (completes_newWitness _ sys).bind fun roundRaw s₁ h₁ hround => ?_
    refine (completes_newWitness _ s₁).bind fun idRaw s₂ h₂ hid => ?_
    refine (completes_loadLoop _ _ (h₂.knows hround) hid).bind fun w s₃ h₃ _ => ?_
    refine Completes.pure fun p hp => ?_
    obtain rfl := Option.some.inj hp
    exact ⟨(h₂.trans h₃).knows hround, h₃.knows hid⟩
  case isFalse => exact Completes.pure nofun

theorem completes_synthesizePadding (v : ProverValues) (sys : System Fr) :
    Completes (synthesizePadding P v) sys fun padding sys' => ∀ p ∈ padding,
      Knows sys' (.witness p.roundRaw) v.roundRaw ∧ Knows sys' (.witness p.idRaw) v.idRaw :=
  completes_paddingLoop v (P.targetConstraints - sys.numConstraints) sys

/-- All values are recorded. -/
structure Wires.Written (sys : System Fr) (w : Wires) (v : ProverValues) : Prop where
  commitment : Knows sys (.input w.commitment) v.commitment
  clusterId : Knows sys (.input w.clusterId) v.clusterId
  round : Knows sys (.input w.round) v.round
  slots : List.Forall₂ (fun s v => s.Written sys v) w.slots v.slots
  padding : ∀ p ∈ w.padding,
    Knows sys (.witness p.roundRaw) v.roundRaw ∧ Knows sys (.witness p.idRaw) v.idRaw

/-- The values are state transitions with the commitment. -/
structure ProverValues.Valid (poseidon : Poseidon) (v : ProverValues) : Prop where
  slots : ∀ s ∈ v.slots, s.Valid poseidon
  commitment : computeCommitment poseidon (v.slots.map SlotValues.newRoot) = some v.commitment

/-- **Valid values satisfy the circuit**. -/
theorem completes_synthesizeRest {v : ProverValues} (hvalid : v.Valid P.poseidon)
    {commitment clusterId round : Nat} {slots : List SlotWires} {sys : System Fr}
    (hcommitment : Knows sys (.input commitment) v.commitment)
    (hcluster : Knows sys (.input clusterId) v.clusterId)
    (hround : Knows sys (.input round) v.round)
    (hslots : List.Forall₂ (fun s v => s.Written sys v) slots v.slots) :
    Completes (synthesizeRest P v commitment clusterId round slots) sys fun result sys' =>
      ∃ w, result = some w ∧ w.Written sys' v := by
  have hbinding := hvalid.commitment
  have hwritten := hslots
  generalize v.slots = vs at hbinding hslots
  cases hslots with
  | nil => cases hbinding
  | @cons firstWires first restWires rest hfirst hrest =>
    have hroots : List.Forall₂ (fun root x => Knows sys (.witness root) x)
        (restWires.map SlotWires.newRoot) (rest.map SlotValues.newRoot) := by
      rw [List.forall₂_map_left_iff, List.forall₂_map_right_iff]
      exact hrest.imp fun _ _ h => h.newRoot
    refine (completes_bindLoop hfirst.newRoot hroots).bind fun squeezed s₁ h₁ hlast => ?_
    have hfold : (rest.map SlotValues.newRoot).foldl P.poseidon first.newRoot = v.commitment :=
      Option.some.inj hbinding
    rw [hfold] at hlast
    refine (completes_enforceEqual hlast (h₁.knows hcommitment)).bind fun _ s₂ h₂ _ => ?_
    refine (completes_synthesizePadding v s₂).bind fun padding s₃ h₃ hpadding => ?_
    have hend := (h₁.trans h₂).trans h₃
    exact Completes.pure ⟨_, rfl, hend.knows hcommitment, hend.knows hcluster, hend.knows hround,
      hwritten.imp fun _ _ h => h.extend hend, hpadding⟩

/-- **Valid values satisfy the system**, whatever the raw ones are. -/
theorem completes_synthesize {v : ProverValues} (hvalid : v.Valid P.poseidon) :
    Completes (synthesize P v) System.empty fun result sys' =>
      ∃ w, result = some w ∧ w.Written sys' v := by
  refine (completes_newInput _ _).bind fun commitment s₁ h₁ hcommitment => ?_
  refine (completes_newInput _ s₁).bind fun clusterId s₂ h₂ hcluster => ?_
  refine (completes_newInput _ s₂).bind fun round s₃ h₃ hround => ?_
  refine (completes_synthesizeSlots s₃ hvalid.slots).bind fun slots s₄ h₄ hslots => ?_
  exact completes_synthesizeRest hvalid (((h₂.trans h₃).trans h₄).knows hcommitment)
    ((h₃.trans h₄).knows hcluster) (h₄.knows hround) hslots

end HZKA.Circuits.Aggregation
