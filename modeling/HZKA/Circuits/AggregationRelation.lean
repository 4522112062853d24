/-
  HZKA.Circuits.AggregationRelation
  ────────────
  **WHAT THE SYNTHESIZED AGGREGATION CIRCUIT STATES**, and what it leaves open.

  The system is satisfiable for a commitment exactly if there are state transitions, one a slot,
  whose new roots have it: load and padding have variables of their own and exclude nothing.
  For the same reason they say nothing: the raw variables may hold anything, and cluster id and
  round occur in no constraint.

    • `constraints_of_holds`    — the synthesized system refines `GenerateConstraints`;
    • `numConstraints_synthesize` — the padding fills the system up to its target;
    • `aggregation_relation`    — soundness and completeness, for every number of slots;
    • `satisfied_any_statement` — an assignment that fits one cluster id and round fits all;
    • `witnesses_never_bound`   — and every provable commitment has an assignment whose raw
      variables are not the roots of its slots.
-/
import HZKA.Circuits.Synthesis

namespace HZKA.Circuits.Aggregation

open HZKA.Groth16Verifier HZKA.Lib

variable {P : Params}

/-! ## §1. The variables. -/

/-- One set of wires a slot. -/
theorem length_synthesizeSlots : ∀ (vs : List SlotValues) (sys : System Fr),
    (synthesizeSlots P vs sys).1.length = vs.length := by
  intro vs
  induction vs with
  | nil => exact fun _ => rfl
  | cons v rest ih => exact fun sys => congrArg Nat.succ (ih _)

/-- Every slot has all its load constraints. -/
theorem length_slotLoad : ∀ (vs : List SlotValues) (sys : System Fr),
    ∀ s ∈ (synthesizeSlots P vs sys).1, s.w.length = P.simPerSlot := by
  intro vs
  induction vs with
  | nil => exact fun _ => nofun
  | cons v rest ih =>
    intro sys
    simp only [synthesizeSlots, run_bind, run_pure]
    rw [List.forall_mem_cons]
    exact ⟨length_loadLoop _ _ _ _ _ _ _, ih _⟩

/-- Synthesis does not panic on a circuit with a slot. -/
theorem exists_wires {v : ProverValues} (hne : v.slots ≠ []) :
    ∃ w, (synthesize P v System.empty).1 = some w ∧ w.slots.length = v.slots.length
      ∧ ∀ s ∈ w.slots, s.w.length = P.simPerSlot := by
  simp only [synthesize, run_bind]
  generalize (newInput v.round _).2 = sys
  have hlen := length_synthesizeSlots (P := P) v.slots sys
  have hload := length_slotLoad (P := P) v.slots sys
  generalize synthesizeSlots P v.slots sys = result at hlen hload
  obtain ⟨slots, sys'⟩ := result
  cases slots with
  | nil => exact absurd (List.length_eq_zero_iff.mp hlen.symm) hne
  | cons first rest => exact ⟨_, rfl, hlen, hload⟩

/-! ## §2. The number of constraints. -/

/-- A load of `k` constraints. -/
theorem numConstraints_loadLoop (xValue yValue : Fr) (x y : Nat) : ∀ (k j : Nat) (sys : System Fr),
    (loadLoop xValue yValue x y k j sys).2.numConstraints = sys.numConstraints + k := by
  intro k
  induction k with
  | zero => exact fun _ _ => rfl
  | succ k ih =>
    intro j sys
    have hsize : ∀ w, (loadConstraint x y j w).size = 1 := fun _ => rfl
    simp only [loadLoop, run_bind, run_pure, ih, numConstraints_enforce,
      numConstraints_newWitness, hsize]
    omega

/-- The constraints of one slot. -/
def slotSize (P : Params) : Nat := P.spongeSize + 1 + P.simPerSlot

/-- All slots are of one size. -/
theorem numConstraints_synthesizeSlots : ∀ (vs : List SlotValues) (sys : System Fr),
    (synthesizeSlots P vs sys).2.numConstraints
      = sys.numConstraints + vs.length * slotSize P := by
  intro vs
  induction vs with
  | nil =>
    intro sys
    rw [List.length_nil, Nat.zero_mul]
    rfl
  | cons v rest ih =>
    intro sys
    simp only [synthesizeSlots, synthesizeSlot, sponge, run_bind, run_pure, ih,
      numConstraints_loadLoop, numConstraints_newWitness, numConstraints_enforceEqual,
      numConstraints_applyGadget, List.length_cons, Nat.succ_mul, slotSize]
    omega

/-- One sponge for each root but the first. -/
theorem numConstraints_bindLoop : ∀ (roots : List Nat) (acc : Nat) (sys : System Fr),
    (bindLoop P acc roots sys).2.numConstraints
      = sys.numConstraints + roots.length * P.spongeSize := by
  intro roots
  induction roots with
  | nil =>
    intro acc sys
    rw [List.length_nil, Nat.zero_mul]
    rfl
  | cons root roots ih =>
    intro acc sys
    simp only [bindLoop, sponge, run_bind, run_pure, ih, numConstraints_applyGadget,
      List.length_cons, Nat.succ_mul]
    omega

/-- The constraints before the padding, for `n` slots. -/
def realSize (P : Params) (n : Nat) : Nat := n * slotSize P + (n - 1) * P.spongeSize + 1

/-- The padding: present exactly if there is room, and then all the room. -/
theorem paddingLoop_eq (v : ProverValues) (remaining : Nat) (sys : System Fr) :
    ((paddingLoop v remaining sys).1.isSome ↔ 0 < remaining)
      ∧ (paddingLoop v remaining sys).2.numConstraints = sys.numConstraints + remaining := by
  unfold paddingLoop
  split
  case isTrue h =>
    simp only [run_bind, run_pure, numConstraints_loadLoop, numConstraints_newWitness]
    exact ⟨⟨fun _ => h, fun _ => rfl⟩, trivial⟩
  case isFalse h =>
    have hzero : remaining = 0 := by omega
    subst hzero
    exact ⟨⟨nofun, fun h => absurd h (Nat.lt_irrefl 0)⟩, rfl⟩

/-- **The padding fills up to the target and no further**; a circuit beyond it gets none. -/
theorem numConstraints_synthesize (P : Params) (v : ProverValues) (w : Wires)
    (hw : (synthesize P v System.empty).1 = some w) :
    (w.padding.isSome ↔ realSize P v.slots.length < P.targetConstraints)
      ∧ (synthesize P v System.empty).2.numConstraints
        = max P.targetConstraints (realSize P v.slots.length) := by
  simp only [synthesize, run_bind] at hw ⊢
  have hstart : (newInput v.round (newInput v.clusterId
      (newInput v.commitment System.empty).2).2).2.numConstraints = 0 := rfl
  generalize (newInput v.round _).2 = sys at hw hstart ⊢
  have hlen := length_synthesizeSlots (P := P) v.slots sys
  have hcount := numConstraints_synthesizeSlots (P := P) v.slots sys
  generalize synthesizeSlots P v.slots sys = result at hw hlen hcount ⊢
  obtain ⟨slots, sys'⟩ := result
  cases slots with
  | nil => cases hw
  | cons first rest =>
    simp only [synthesizeRest, run_bind, run_pure, Option.some.injEq, run_synthesizePadding]
      at hw ⊢
    subst hw
    obtain ⟨hsome, htotal⟩ := paddingLoop_eq v
      (P.targetConstraints - (enforceEqual (.witness ((bindLoop P first.newRoot
        (rest.map SlotWires.newRoot) sys').1.getLastD first.newRoot)) (.input _)
        (bindLoop P first.newRoot (rest.map SlotWires.newRoot) sys').2).2.numConstraints) _
    rw [hsome, htotal, numConstraints_enforceEqual, numConstraints_bindLoop, List.length_map]
    simp only [List.length_cons] at hlen hcount
    have hrest : v.slots.length - 1 = rest.length := by omega
    unfold realSize
    rw [hrest]
    omega

/-! ## §3. The relation. -/

/-- The values an assignment gives to the variables, as the circuit's relation reads them. -/
def SlotWires.view (a : Assigned Fr) (s : SlotWires) : Slot where
  oldRoot := a.witness s.oldRoot
  newRoot := a.witness s.newRoot
  txData := a.witness s.txData
  oldRaw := a.witness s.oldRaw
  newRaw := a.witness s.newRaw
  w := fun j => a.witness (s.w.getD j 0)

/-- The whole assignment, read the same way. -/
def Wires.view (w : Wires) (a : Assigned Fr) : Assignment where
  commitment := a.input w.commitment
  clusterId := a.input w.clusterId
  round := a.input w.round
  slots := w.slots.map (SlotWires.view a)
  squeezed := w.squeezed.map a.witness
  roundRaw := (w.padding.map fun p => a.witness p.roundRaw).getD 0
  idRaw := (w.padding.map fun p => a.witness p.idRaw).getD 0
  w := fun j => (w.padding.map fun p => a.witness (p.w.getD j 0)).getD 0

/-- The number of padding constraints. -/
def Wires.remaining (w : Wires) : Nat := (w.padding.map fun p => p.w.length).getD 0

/-- **The synthesized system refines the relation** of the circuit. -/
theorem constraints_of_holds {poseidon : Poseidon} {w : Wires} {a : Assigned Fr}
    (h : w.Holds poseidon a) (hload : ∀ s ∈ w.slots, s.w.length = GROTH16_SIM_PER_SLOT) :
    GenerateConstraints poseidon w.remaining (w.view a) := by
  refine ⟨?_, ?_, ?_⟩
  · intro slot hslot
    obtain ⟨s, hs, rfl⟩ := List.mem_map.mp hslot
    have hholds := h.slots s hs
    refine ⟨hholds.sponge.trans hholds.equal, fun j hj => ?_⟩
    have hj' := loadHolds_iff.mp hholds.load j (by rw [hload s hs]; exact hj)
    rw [Nat.zero_add] at hj'
    exact hj'
  · obtain ⟨root, roots, hroots, hloop, hequal⟩ := h.binding
    refine ⟨a.witness root, roots.map a.witness, ?_, ?_⟩
    · show (w.slots.map (SlotWires.view a)).map Slot.newRoot = (root :: roots).map a.witness
      rw [← hroots]
      unfold Wires.newRoots
      rw [List.map_map, List.map_map]
      rfl
    · show Accumulates poseidon _ _ (w.squeezed.map a.witness) (a.input w.commitment)
      rw [← hequal]
      exact hloop
  · intro j hj
    unfold Wires.view
    unfold Wires.remaining at hj
    dsimp only
    cases hpadding : w.padding with
    | none =>
      rw [hpadding] at hj
      exact absurd hj (Nat.not_lt_zero j)
    | some p =>
      rw [hpadding] at hj
      have hj' := loadHolds_iff.mp (h.padding p hpadding) j hj
      rw [Nat.zero_add] at hj'
      exact hj'

/-- State transitions, one a slot, with the commitment. -/
def Transitions (poseidon : Poseidon) (n : Nat) (commitment : Fr) (triples : List (Fr × Fr × Fr)) :
    Prop :=
  triples.length = n ∧ (∀ t ∈ triples, t.2.1 = computeStateTransition poseidon t.1 t.2.2)
    ∧ computeCommitment poseidon (triples.map fun t => t.2.1) = some commitment

/-- A satisfying assignment contains transitions. -/
theorem transitions_of_holds {poseidon : Poseidon} {w : Wires} {a : Assigned Fr}
    (h : w.Holds poseidon a) (hload : ∀ s ∈ w.slots, s.w.length = GROTH16_SIM_PER_SLOT) :
    Transitions poseidon w.slots.length (a.input w.commitment)
      (w.slots.map fun s => (a.witness s.oldRoot, a.witness s.newRoot, a.witness s.txData)) := by
  have hconstraints := constraints_of_holds h hload
  refine ⟨List.length_map _, ?_, ?_⟩
  · intro t ht
    obtain ⟨s, hs, rfl⟩ := List.mem_map.mp ht
    exact ((h.slots s hs).sponge.trans (h.slots s hs).equal).symm
  · have hbound := commitment_of_constraints hconstraints
    unfold Assignment.newRoots Wires.view at hbound
    rw [List.map_map] at hbound
    rw [List.map_map]
    exact hbound

/-- The values a prover writes for given transitions. -/
def honestValues (triples : List (Fr × Fr × Fr)) (commitment clusterId round : Fr) :
    ProverValues where
  commitment := commitment
  clusterId := clusterId
  round := round
  slots := triples.map fun t => ⟨t.1, t.2.1, t.2.2, t.1, t.2.1⟩
  roundRaw := round
  idRaw := clusterId

/-- Values for given transitions meet the relation, whatever they have for raw copies. -/
theorem valid_of_transitions {poseidon : Poseidon} {n : Nat} {triples : List (Fr × Fr × Fr)}
    {v : ProverValues} (h : Transitions poseidon n v.commitment triples) (raw : Fr × Fr × Fr → Fr)
    (hslots : v.slots = triples.map fun t => ⟨t.1, t.2.1, t.2.2, raw t, t.2.1⟩) :
    v.Valid poseidon := by
  obtain ⟨_, hvalid, hcommitment⟩ := h
  constructor
  · intro s hs
    rw [hslots] at hs
    obtain ⟨t, ht, rfl⟩ := List.mem_map.mp hs
    exact hvalid t ht
  · rw [hslots, List.map_map]
    exact hcommitment

/-- **What is recorded for valid values satisfies the system of any circuit with as many
slots.** -/
theorem recorded_satisfies {v v' : ProverValues} (hvalid : v'.Valid P.poseidon)
    (hlen : v.slots.length = v'.slots.length) {w : Wires}
    (hw : (synthesize P v System.empty).1 = some w) :
    (synthesize P v System.empty).2.Satisfied (synthesize P v' System.empty).2.values
      ∧ w.Written (synthesize P v' System.empty).2 v' := by
  obtain ⟨hrec, _, w', hw', hwritten⟩ := completes_synthesize hvalid recorded_empty
  obtain ⟨hsame, hshape⟩ := uniform_synthesize (P := P) hlen _ _ (SameShape.refl System.empty)
  rw [hw, hw'] at hsame
  rw [Option.some.inj hsame]
  exact ⟨hshape.satisfied.mpr hrec.holds, hwritten⟩

/-- The public inputs on record are those of the values. -/
theorem inputs_of_written {v v' : ProverValues} {w : Wires} {sys : System Fr}
    (hw : (synthesize P v System.empty).1 = some w) (hwritten : w.Written sys v') :
    sys.values.input 0 = v'.commitment ∧ sys.values.input 1 = v'.clusterId
      ∧ sys.values.input 2 = v'.round := by
  obtain ⟨hzero, hone, htwo, _⟩ := satisfied_synthesize hw sys.values
  rw [← hzero, ← hone, ← htwo]
  exact ⟨hwritten.commitment.2, hwritten.clusterId.2, hwritten.round.2⟩

/-- One value a slot. -/
theorem length_values (c : AggregationCircuit) : c.values.slots.length = c.slotData.length :=
  List.length_map _

theorem values_ne_nil {c : AggregationCircuit} (h : 1 ≤ c.slotData.length) :
    c.values.slots ≠ [] := by
  intro hnil
  have hlen := length_values c
  rw [hnil, List.length_nil] at hlen
  omega

/-- `AggregationCircuit::new` computes transitions and their commitment. -/
theorem new_transitions (poseidon : Poseidon) (config : AggregationConfig)
    (h : 1 ≤ config.slots) : ∃ c, AggregationCircuit.new poseidon config = some c
      ∧ Transitions poseidon config.slots c.commitment c.slotData := by
  have hne : (List.range config.slots).map (slotDatum poseidon) ≠ [] := by
    intro hnil
    have hlen := congrArg List.length hnil
    rw [List.length_map, List.length_range, List.length_nil] at hlen
    omega
  have hlen : ((List.range config.slots).map (slotDatum poseidon)).length = config.slots := by
    rw [List.length_map, List.length_range]
  have hvalid : ∀ t ∈ (List.range config.slots).map (slotDatum poseidon),
      t.2.1 = computeStateTransition poseidon t.1 t.2.2 := by
    intro t ht
    obtain ⟨i, _, rfl⟩ := List.mem_map.mp ht
    rfl
  unfold AggregationCircuit.new
  dsimp only
  generalize (List.range config.slots).map (slotDatum poseidon) = slotData at hne hlen hvalid
  cases slotData with
  | nil => exact absurd rfl hne
  | cons first rest => exact ⟨_, rfl, hlen, hvalid, rfl⟩

/-- **The constraints state exactly the intended relation**, for every number of slots, and the
values of `AggregationCircuit::new` satisfy them. -/
theorem aggregation_relation (poseidon : Poseidon) (spongeSize n : Nat) (hn : 1 ≤ n) :
    (∀ c : AggregationCircuit, c.slotData.length = n → ∀ commitment clusterId round : Fr,
      ((∃ a : Assigned Fr, a.input 0 = commitment ∧ a.input 1 = clusterId ∧ a.input 2 = round
          ∧ (generateConstraints poseidon spongeSize c).2.Satisfied a)
        ↔ ∃ triples, Transitions poseidon n commitment triples))
      ∧ ∀ config : AggregationConfig, config.slots = n →
          ∃ c w, AggregationCircuit.new poseidon config = some c ∧ c.slotData.length = n
            ∧ (generateConstraints poseidon spongeSize c).1 = some w
            ∧ (generateConstraints poseidon spongeSize c).2.Satisfied
                (generateConstraints poseidon spongeSize c).2.values := by
  unfold generateConstraints
  generalize hP : benchmark poseidon spongeSize = P
  have hposeidon : P.poseidon = poseidon := by rw [← hP, benchmark]
  have hsim : P.simPerSlot = GROTH16_SIM_PER_SLOT := by rw [← hP, benchmark]
  subst hposeidon
  constructor
  · intro c hc commitment clusterId round
    obtain ⟨w, hw, hslots, hload⟩ := exists_wires (P := P) (values_ne_nil (hc ▸ hn))
    rw [length_values, hc] at hslots
    rw [hsim] at hload
    constructor
    -- soundness: whatever satisfies the system
    · rintro ⟨a, rfl, _, _, hsat⟩
      obtain ⟨hzero, _, _, hiff⟩ := satisfied_synthesize hw a
      have htransitions := transitions_of_holds (hiff.mp hsat) hload
      rw [hzero, hslots] at htransitions
      exact ⟨_, htransitions⟩
    -- completeness: the values an honest prover records
    · rintro ⟨triples, htriples⟩
      have hlen : c.values.slots.length
          = (honestValues triples commitment clusterId round).slots.length := by
        rw [length_values, hc, ← htriples.1]
        exact (List.length_map _).symm
      obtain ⟨hsat, hwritten⟩ :=
        recorded_satisfies (valid_of_transitions htriples Prod.fst rfl) hlen hw
      obtain ⟨hcommitment, hcluster, hround⟩ := inputs_of_written hw hwritten
      exact ⟨_, hcommitment, hcluster, hround, hsat⟩
  · intro config hconfig
    have hslots : 1 ≤ config.slots := hconfig ▸ hn
    obtain ⟨c, hnew, htransitions⟩ := new_transitions P.poseidon config hslots
    have hc : c.slotData.length = n := htransitions.1.trans hconfig
    obtain ⟨w, hw, _, _⟩ := exists_wires (P := P) (values_ne_nil (hc ▸ hn))
    have hvalid : c.values.Valid P.poseidon := valid_of_transitions htransitions Prod.fst rfl
    exact ⟨c, w, hnew, hc, hw, (recorded_satisfies hvalid rfl hw).1⟩

/-- Two slots of a stand-in sponge: a sum. -/
theorem two_slots_satisfied :
    ∃ c w, AggregationCircuit.new (fun x y => x + y) ⟨2, true⟩ = some c ∧ c.slotData.length = 2
      ∧ (generateConstraints (fun x y => x + y) 300 c).1 = some w
      ∧ (generateConstraints (fun x y => x + y) 300 c).2.Satisfied
          (generateConstraints (fun x y => x + y) 300 c).2.values :=
  (aggregation_relation (fun x y => x + y) 300 2 (by omega)).2 ⟨2, true⟩ rfl

/-! ## §4. What is not bound. -/

/-- The raw variables hold the roots of their slot, those of the padding round and cluster id. -/
structure Wires.Bound (w : Wires) (a : Assigned Fr) : Prop where
  slots : ∀ s ∈ w.slots, a.witness s.oldRaw = a.witness s.oldRoot
    ∧ a.witness s.newRaw = a.witness s.newRoot
  padding : ∀ p ∈ w.padding, a.witness p.roundRaw = a.input w.round
    ∧ a.witness p.idRaw = a.input w.clusterId

/-- The assignment with another cluster id and round. -/
def restate (a : Assigned Fr) (clusterId round : Fr) : Assigned Fr where
  input := fun i => if i = 1 then clusterId else if i = 2 then round else a.input i
  witness := a.witness

/-- The load is about private variables. -/
theorem loadHolds_congr {a a' : Assigned Fr} (h : a'.witness = a.witness) {x y j : Nat}
    {ws : List Nat} : LoadHolds a' x y j ws ↔ LoadHolds a x y j ws := by
  rw [loadHolds_iff, loadHolds_iff, h]

/-- The other inputs are free. -/
theorem holds_restate {poseidon : Poseidon} {w : Wires} (hzero : w.commitment = 0)
    {a : Assigned Fr} (h : w.Holds poseidon a) (clusterId round : Fr) :
    w.Holds poseidon (restate a clusterId round) := by
  have hsame : (restate a clusterId round).witness = a.witness := rfl
  refine ⟨fun s hs => ?_, ?_, fun p hp => (loadHolds_congr hsame).mpr (h.padding p hp)⟩
  · obtain ⟨hsponge, hequal, hload⟩ := h.slots s hs
    exact ⟨hsponge, hequal, (loadHolds_congr hsame).mpr hload⟩
  · obtain ⟨root, roots, hroots, hloop, hequal⟩ := h.binding
    refine ⟨root, roots, hroots, hloop, ?_⟩
    rw [hzero] at hequal ⊢
    exact hequal

/-- **An assignment that satisfies the system does so for every cluster id and round.** -/
theorem satisfied_any_statement {v : ProverValues} (hne : v.slots ≠ []) {a : Assigned Fr}
    (hsat : (synthesize P v System.empty).2.Satisfied a) (clusterId round : Fr) :
    (synthesize P v System.empty).2.Satisfied (restate a clusterId round) := by
  obtain ⟨w, hw, _, _⟩ := exists_wires (P := P) hne
  obtain ⟨hzero, _, _, hiff⟩ := satisfied_synthesize hw a
  obtain ⟨_, _, _, hiff'⟩ := satisfied_synthesize hw (restate a clusterId round)
  exact hiff'.mpr (holds_restate hzero (hiff.mp hsat) clusterId round)

theorem one_ne_zero_Fr : (1 : Fr) ≠ 0 := by
  have : Fact (1 < SCALAR_MODULUS) := ⟨by unfold SCALAR_MODULUS; norm_num⟩
  exact one_ne_zero

/-- Values for given transitions, but for a `1` too much in the raw copies of the old roots. -/
def forgedValues (triples : List (Fr × Fr × Fr)) (commitment clusterId round : Fr) :
    ProverValues where
  commitment := commitment
  clusterId := clusterId
  round := round
  slots := triples.map fun t => ⟨t.1, t.2.1, t.2.2, t.1 + 1, t.2.1⟩
  roundRaw := round
  idRaw := clusterId

/-- Forged values of at least one slot are not bound. -/
theorem not_bound_of_forged {sys : System Fr} {w : Wires} {triples : List (Fr × Fr × Fr)}
    {commitment clusterId round : Fr} (hne : triples ≠ [])
    (h : w.Written sys (forgedValues triples commitment clusterId round)) :
    ¬ w.Bound sys.values := by
  intro hbound
  obtain ⟨t, rest, rfl⟩ := List.exists_cons_of_ne_nil hne
  obtain ⟨s, _, hs, _, hwires⟩ := List.forall₂_cons_right_iff.mp h.slots
  have hequal := (hbound.slots s (hwires ▸ List.mem_cons_self ..)).1
  have hraw : t.1 + 1 = t.1 := hs.oldRaw.2.symm.trans (hequal.trans hs.oldRoot.2)
  exact one_ne_zero_Fr (left_eq_add.mp hraw.symm)

/-- **Every commitment that can be proved at all has an unbound proof**, for every cluster id
and round. -/
theorem exists_unbound_assignment {v : ProverValues} (hne : v.slots ≠ []) {w : Wires}
    (hw : (synthesize P v System.empty).1 = some w) {triples : List (Fr × Fr × Fr)}
    {commitment : Fr} (htriples : Transitions P.poseidon v.slots.length commitment triples)
    (clusterId round : Fr) :
    ∃ a : Assigned Fr, a.input 0 = commitment ∧ a.input 1 = clusterId ∧ a.input 2 = round
      ∧ (synthesize P v System.empty).2.Satisfied a ∧ ¬ w.Bound a := by
  have hlen : v.slots.length = (forgedValues triples commitment clusterId round).slots.length := by
    rw [← htriples.1]
    exact (List.length_map _).symm
  have hsome : triples ≠ [] := by
    rintro rfl
    exact hne (List.length_eq_zero_iff.mp htriples.1.symm)
  obtain ⟨hsat, hwritten⟩ :=
    recorded_satisfies (valid_of_transitions htriples (fun t => t.1 + 1) rfl) hlen hw
  obtain ⟨hcommitment, hcluster, hround⟩ := inputs_of_written hw hwritten
  exact ⟨_, hcommitment, hcluster, hround, hsat, not_bound_of_forged hsome hwritten⟩

/-- **Witnesses are never bound to the statement**, for any sponge and any number of slots from
one: every commitment that can be proved has a satisfying assignment whose raw variables are not
the roots, for whatever cluster id and round; there is such a commitment; and every satisfying
assignment, with its private variables as they are, serves all cluster ids and rounds. -/
theorem witnesses_never_bound (poseidon : Poseidon) (spongeSize : Nat) (c : AggregationCircuit)
    (hslots : 1 ≤ c.slotData.length) :
    ∃ w, (generateConstraints poseidon spongeSize c).1 = some w
      ∧ (∀ commitment triples, Transitions poseidon c.slotData.length commitment triples →
          ∀ clusterId round : Fr, ∃ a : Assigned Fr, a.input 0 = commitment
            ∧ a.input 1 = clusterId ∧ a.input 2 = round
            ∧ (generateConstraints poseidon spongeSize c).2.Satisfied a ∧ ¬ w.Bound a)
      ∧ (∃ commitment triples, Transitions poseidon c.slotData.length commitment triples)
      ∧ ∀ a, (generateConstraints poseidon spongeSize c).2.Satisfied a →
          ∀ clusterId round,
            (generateConstraints poseidon spongeSize c).2.Satisfied (restate a clusterId round) := by
  unfold generateConstraints
  have hne := values_ne_nil hslots
  obtain ⟨w, hw, _, _⟩ := exists_wires (P := benchmark poseidon spongeSize) hne
  refine ⟨w, hw, ?_, ?_, ?_⟩
  · intro commitment triples htriples
    rw [← length_values] at htriples
    exact exists_unbound_assignment (P := benchmark poseidon spongeSize) hne hw htriples
  · obtain ⟨c', _, htransitions⟩ := new_transitions poseidon ⟨c.slotData.length, true⟩ hslots
    exact ⟨_, _, htransitions⟩
  · exact fun a hsat => satisfied_any_statement hne hsat

/-- A circuit with the slot of the transition of `0` by `0`. -/
def oneSlot (poseidon : Poseidon) : AggregationCircuit :=
  ⟨⟨1, true⟩, [(0, poseidon 0 0, 0)], poseidon 0 0, 1, (42 : Nat)⟩

/-- Its transition is right. -/
theorem oneSlot_transitions (poseidon : Poseidon) :
    Transitions poseidon 1 (poseidon 0 0) (oneSlot poseidon).slotData := by
  refine ⟨rfl, fun t ht => ?_, rfl⟩
  rw [List.mem_singleton.mp ht]
  rfl

theorem oneSlot_ne_nil (poseidon : Poseidon) : (oneSlot poseidon).values.slots ≠ [] := nofun

/-- One slot with a sponge of 300 constraints is padded to the benchmark's target. -/
theorem oneSlot_padded :
    (generateConstraints (fun x y => x + y) 300 (oneSlot fun x y => x + y)).2.numConstraints
      = TARGET_CONSTRAINTS := by
  obtain ⟨w, hw, _, _⟩ := exists_wires (P := benchmark (fun x y => x + y) 300)
    (oneSlot_ne_nil fun x y => x + y)
  exact (numConstraints_synthesize _ _ w hw).2

/-- One slot with a sum for a sponge: an unbound proof of the commitment 0 for cluster 1 and
round 42. -/
theorem oneSlot_never_bound :
    ∃ w, (generateConstraints (fun x y => x + y) 300 (oneSlot fun x y => x + y)).1 = some w
      ∧ ∃ a : Assigned Fr, a.input 0 = 0 + 0 ∧ a.input 1 = 1 ∧ a.input 2 = 42
        ∧ (generateConstraints (fun x y => x + y) 300
            (oneSlot fun x y => x + y)).2.Satisfied a ∧ ¬ w.Bound a := by
  obtain ⟨w, hw, hunbound, _⟩ := witnesses_never_bound (fun x y => x + y) 300
    (oneSlot fun x y => x + y) (Nat.le_refl 1)
  exact ⟨w, hw, hunbound _ _ (oneSlot_transitions fun x y => x + y) 1 42⟩

/-- Whatever the sponge is: a satisfying assignment of one slot has `1` in the raw copy of the
old root `0`, and serves every cluster id and round. -/
theorem raw_wires_unbound :
    (∀ (poseidon : Poseidon) (spongeSize : Nat),
      ¬ ∀ (c : AggregationCircuit) (w : Wires) (a : Assigned Fr),
        (generateConstraints poseidon spongeSize c).1 = some w →
        (generateConstraints poseidon spongeSize c).2.Satisfied a → w.Bound a)
      ∧ ∀ (poseidon : Poseidon) (spongeSize : Nat),
        ¬ ∀ (c : AggregationCircuit) (a a' : Assigned Fr), 1 ≤ c.slotData.length →
          a'.witness = a.witness → a'.input 0 = a.input 0 →
          (generateConstraints poseidon spongeSize c).2.Satisfied a →
          (generateConstraints poseidon spongeSize c).2.Satisfied a' →
          (a'.input 1, a'.input 2) = (a.input 1, a.input 2) := by
  have hforged : ∀ (poseidon : Poseidon) (spongeSize : Nat), ∃ w a,
      (generateConstraints poseidon spongeSize (oneSlot poseidon)).1 = some w
        ∧ (generateConstraints poseidon spongeSize (oneSlot poseidon)).2.Satisfied a
        ∧ ¬ w.Bound a := by
    intro poseidon spongeSize
    obtain ⟨w, hw, _, _⟩ :=
      exists_wires (P := benchmark poseidon spongeSize) (oneSlot_ne_nil poseidon)
    obtain ⟨a, _, _, _, hsat, hunbound⟩ := exists_unbound_assignment
      (P := benchmark poseidon spongeSize) (oneSlot_ne_nil poseidon) hw
      (oneSlot_transitions poseidon) 1 (42 : Nat)
    exact ⟨w, a, hw, hsat, hunbound⟩
  constructor
  · intro poseidon spongeSize hall
    obtain ⟨w, a, hw, hsat, hunbound⟩ := hforged poseidon spongeSize
    exact hunbound (hall _ w a hw hsat)
  · intro poseidon spongeSize hall
    obtain ⟨_, a, _, hsat, _⟩ := hforged poseidon spongeSize
    have hrestate : ∀ id : Fr, (generateConstraints poseidon spongeSize
        (oneSlot poseidon)).2.Satisfied (restate a id 0) :=
      fun id => satisfied_any_statement (oneSlot_ne_nil poseidon) hsat id 0
    have hpair := hall (oneSlot poseidon) (restate a 0 0) (restate a 1 0) (Nat.le_refl 1) rfl rfl
      (hrestate 0) (hrestate 1)
    exact one_ne_zero_Fr (Prod.mk.inj hpair).1

end HZKA.Circuits.Aggregation
