/-
  HZKA.Clusters.Election
  ────────────
  **THE HEAD IS DRAWN IN PROPORTION TO THE WEIGHTS.**

  `_electClusterHead` adds up the members' weights, reduces the seed modulo the total and
  walks over the members until the cumulative weight exceeds the remainder.

    • `walkPosition`, `walk_eq` — the position at which the loop breaks, and that the
      winner is the member there;
    • `walkPosition_eq`         — for weights that fit, the walk is the general choice by
      cumulative weight;
    • `exists_drawHead`         — an election goes through, and the seed decides it;
    • `election_by_weight`      — each position is elected by as many remainders as it has
      weight, the default by none, and the stored head is the one of the seed.
-/
import HZKA.Lib.WeightedChoice
import HZKA.Clusters.Transition
import HZKA.Psi.Groups

namespace HZKA.ClusterManager

open HZKA.Lib HZKA.EVM

/-! ## §1. The walk. -/

/-- The position at which `walk` breaks; `none` when it runs through. -/
def walkPosition (reg : ReputationRegistry) (rand : Nat) :
    List Address → Nat → Except Revert (Option Nat)
  | [], _ => .ok none
  | m :: rest, cumulative => do
    let w ← reg.getElectionWeight m
    let cumulative ← addU256 cumulative w
    if rand < cumulative then return some 0
    else
      let i ← walkPosition reg rand rest cumulative
      return i.map (· + 1)

/-- The winner is the member at the position, the default without one. -/
theorem walk_eq {reg : ReputationRegistry} {rand : Nat} {winner : Address} (members : List Address) :
    ∀ {cumulative : Nat} {i : Option Nat}, walkPosition reg rand members cumulative = .ok i →
      walk reg rand winner members cumulative = .ok ((i.bind (members[·]?)).getD winner) := by
  induction members with
  | nil =>
    intro cumulative i h
    obtain rfl : none = i := Except.ok.inj h
    rfl
  | cons m rest ih =>
    intro cumulative i h
    unfold walkPosition at h
    obtain ⟨w, hw, h⟩ := bind_eq_ok.mp h
    obtain ⟨next, hnext, h⟩ := bind_eq_ok.mp h
    unfold walk
    rw [hw, ok_bind, hnext, ok_bind]
    split at h
    next hstop =>
      obtain rfl := pure_eq_ok.mp h
      rw [if_pos hstop]
      rfl
    next hstop =>
      obtain ⟨j, hj, h⟩ := bind_eq_ok.mp h
      obtain rfl := pure_eq_ok.mp h
      rw [if_neg hstop, ih hj]
      cases j with
      | none => rfl
      | some j => rfl

section Weights

variable {reg : ReputationRegistry} {members : List Address} {w : Address → Nat}

/-- The walk of the contract is the choice by cumulative weight. -/
theorem walkPosition_eq (rand : Nat) (members : List Address) :
    ∀ cumulative : Nat, (∀ m ∈ members, reg.getElectionWeight m = .ok (w m)) →
      cumulative + (members.map w).sum < 2 ^ 256 →
      walkPosition reg rand members cumulative = .ok (choose rand (members.map w) cumulative) := by
  induction members with
  | nil =>
    intro cumulative _ _
    rfl
  | cons m rest ih =>
    intro cumulative hw hfits
    rw [List.map_cons, List.sum_cons] at hfits
    have hsum : addU256 cumulative (w m) = .ok (cumulative + w m) :=
      addU256_eq_ok.mpr ⟨by omega, rfl⟩
    unfold walkPosition
    rw [hw m List.mem_cons_self, ok_bind, hsum, ok_bind, List.map_cons]
    unfold choose
    by_cases hstop : rand < cumulative + w m
    · rw [if_pos hstop, if_pos hstop]
      rfl
    · rw [if_neg hstop, if_neg hstop,
        ih (cumulative + w m) (fun a ha => hw a (List.mem_cons_of_mem m ha)) (by omega)]
      rfl

/-- In every registry of a run, and for lists of any size a chain could hold, weights and
total exist. -/
theorem exists_totalWeight (hinv : ReputationRegistry.RegistryInv reg)
    (hlen : members.length ≤ 2 ^ 190) :
    ∃ (w : Address → Nat) (total : Nat), (∀ m ∈ members, reg.getElectionWeight m = .ok (w m))
      ∧ totalWeight members reg = .ok total := by
  choose w hle hw using ReputationRegistry.getElectionWeight_ok hinv
  have hsum : (members.map w).sum ≤ members.length * 10 ^ 18 := by
    have hcard := List.sum_le_card_nsmul (members.map w) (10 ^ 18) (by
      intro x hx
      obtain ⟨m, -, rfl⟩ := List.mem_map.mp hx
      exact (hle m).trans (by norm_num [ReputationRegistry.W_MAX]))
    rw [List.length_map, smul_eq_mul] at hcard
    exact hcard
  have hfits : members.length * 10 ^ 18 ≤ 2 ^ 190 * 10 ^ 18 := Nat.mul_le_mul_right _ hlen
  refine ⟨w, (members.map w).sum, fun m _ => hw m, (totalWeight_iff (fun m _ => hw m)).mpr ⟨?_, rfl⟩⟩
  omega

/-- A jailed member has no weight. -/
theorem weight_of_jailed {m : Address} (hw : reg.getElectionWeight m = .ok (w m))
    (hjailed : (reg.states m).isJailed = true) : w m = 0 := by
  unfold ReputationRegistry.getElectionWeight at hw
  rw [if_pos hjailed] at hw
  exact (pure_eq_ok.mp hw).symm

/-! ## §2. Remainders below the total. -/

/-- **The walk breaks for every remainder**, at a member with weight. -/
theorem walk_breaks {total rand : Nat}
    (hw : ∀ m ∈ members, reg.getElectionWeight m = .ok (w m))
    (htotal : totalWeight members reg = .ok total) (hrand : rand < total) :
    ∃ i, ∃ hi : i < members.length, walkPosition reg rand members 0 = .ok (some i)
      ∧ 0 < w members[i] ∧ ∀ winner, walk reg rand winner members 0 = .ok members[i] := by
  obtain ⟨hfits, rfl⟩ := (totalWeight_iff hw).mp htotal
  have hwalk := walkPosition_eq rand members 0 hw (by omega)
  obtain ⟨i, hi⟩ := exists_choose (members.map w) 0 (by omega) (Nat.zero_le rand)
  obtain ⟨hlen, -, -⟩ := choose_eq_some_iff.mp hi
  have hpos := pos_of_choose hlen hi
  rw [List.getElem_map] at hpos
  rw [List.length_map] at hlen
  rw [hi] at hwalk
  refine ⟨i, hlen, hwalk, hpos, ?_⟩
  intro winner
  rw [walk_eq members hwalk]
  show Except.ok ((members[i]?).getD winner) = .ok members[i]
  rw [List.getElem?_eq_getElem hlen, Option.getD_some]

/-- The seed of an election: a hash over the previous block, the cluster and the round. -/
def electionSeed (ctx : Ctx) (clusterId : Nat) (cm : ClusterManager) : Nat :=
  (keccak256 (abiEncode [.bytes32 ctx.parentHash, .uint256 clusterId,
    .uint256 cm.currentRound])).toNat

/-- Without weight the first member wins. -/
theorem drawHead_of_zero {ctx : Ctx} {clusterId : Nat} {cm : ClusterManager}
    (hmembers : (cm.clusters clusterId).members = members) (hne : members ≠ [])
    (htotal : totalWeight members reg = .ok 0) :
    drawHead ctx clusterId reg cm = .ok (members.headD 0) := by
  have hlen : members.length > 0 := List.length_pos_iff.mpr hne
  unfold drawHead
  rw [hmembers, require_bind hlen, htotal, ok_bind, if_pos rfl]
  rfl

/-- With weight, the walk for the seed modulo the total decides. -/
theorem drawHead_of_pos {total : Nat} {ctx : Ctx} {clusterId : Nat} {cm : ClusterManager}
    (hmembers : (cm.clusters clusterId).members = members) (hne : members ≠ [])
    (htotal : totalWeight members reg = .ok total) (hpos : 0 < total)
    (hblock : 1 ≤ ctx.msg.number) :
    drawHead ctx clusterId reg cm
      = walk reg (electionSeed ctx clusterId cm % total) (members.headD 0) members 0 := by
  have hlen : members.length > 0 := List.length_pos_iff.mpr hne
  unfold drawHead
  rw [hmembers, require_bind hlen, htotal, ok_bind, if_neg (Nat.ne_of_gt hpos),
    previousBlockhash_ok hblock, ok_bind]
  rfl

/-- What the seed elects: the first member if there is no weight, otherwise the one at which
the walk breaks for the seed modulo the total. -/
structure ElectedBySeed (reg : ReputationRegistry) (members : List Address)
    (w : Address → Nat) (total seed : Nat) (head : Address) : Prop where
  mem : head ∈ members
  first : total = 0 → head = members.headD 0
  drawn : 0 < total → ∃ i, ∃ hi : i < members.length,
    walkPosition reg (seed % total) members 0 = .ok (some i) ∧ head = members[i]
      ∧ prefixSum (members.map w) i ≤ seed % total
      ∧ seed % total < prefixSum (members.map w) (i + 1)
  weight : 0 < total → 0 < w head

/-- The election goes through and draws by the seed. -/
theorem exists_drawHead {total : Nat} {ctx : Ctx} {clusterId : Nat} {cm : ClusterManager}
    (hmembers : (cm.clusters clusterId).members = members) (hne : members ≠ [])
    (hw : ∀ m ∈ members, reg.getElectionWeight m = .ok (w m))
    (htotal : totalWeight members reg = .ok total) (hblock : total = 0 ∨ 1 ≤ ctx.msg.number) :
    ∃ head, drawHead ctx clusterId reg cm = .ok head
      ∧ ElectedBySeed reg members w total (electionSeed ctx clusterId cm) head := by
  rcases Nat.eq_zero_or_pos total with rfl | hpos
  · refine ⟨members.headD 0, drawHead_of_zero hmembers hne htotal, ?_⟩
    exact ⟨headD_mem (List.length_pos_iff.mpr hne) 0, fun _ => rfl,
      fun h => absurd h (Nat.lt_irrefl 0), fun h => absurd h (Nat.lt_irrefl 0)⟩
  · have hseed := Nat.mod_lt (electionSeed ctx clusterId cm) hpos
    obtain ⟨i, hi, hposition, hweight, hwalk⟩ := walk_breaks hw htotal hseed
    obtain ⟨hfits, rfl⟩ := (totalWeight_iff hw).mp htotal
    rw [walkPosition_eq _ members 0 hw (by omega), Except.ok.injEq] at hposition
    obtain ⟨-, hlower, hupper⟩ := choose_eq_some_iff.mp hposition
    refine ⟨members[i], ?_, ?_⟩
    · rw [drawHead_of_pos hmembers hne htotal hpos (by omega)]
      exact hwalk _
    · refine ⟨List.getElem_mem hi, fun h => absurd h (Nat.ne_of_gt hpos), fun _ => ?_,
        fun _ => hweight⟩
      exact ⟨i, hi, by rw [walkPosition_eq _ members 0 hw (by omega), hposition], rfl, hlower,
        hupper⟩

theorem clusterHead_setHead (clusterId : Nat) (head : Address) (cm : ClusterManager) :
    ((setHead clusterId head cm).clusters clusterId).clusterHead = head := by
  unfold setHead
  dsimp only
  rw [Function.update_self]

end Weights

/-! ## §3. The election. -/

/-- **Exactly by weight.** For every member list with weights `w` of total `total`, each
position is elected by the remainders between its prefix sums, as many as it has weight;
no remainder runs through to the default, none elects a jailed position; and an election
over a non-empty list stores as head the member at the position of its seed modulo the total,
the first if there is no weight at all.  Weights and total exist in every registry of a run,
for lists of up to `2¹⁹⁰` members. -/
theorem election_by_weight (reg : ReputationRegistry) (members : List Address) :
    (ReputationRegistry.RegistryInv reg → members.length ≤ 2 ^ 190 →
      ∃ (w : Address → Nat) (total : Nat), (∀ m ∈ members, reg.getElectionWeight m = .ok (w m))
        ∧ totalWeight members reg = .ok total)
    ∧ ∀ (w : Address → Nat) (total : Nat), (∀ m ∈ members, reg.getElectionWeight m = .ok (w m)) →
      totalWeight members reg = .ok total →
        total = (members.map w).sum
        ∧ (∀ i, ∀ hi : i < members.length,
            (∀ rand < total, walkPosition reg rand members 0 = .ok (some i)
              ↔ prefixSum (members.map w) i ≤ rand ∧ rand < prefixSum (members.map w) (i + 1))
            ∧ ((Finset.range total).filter
                (fun rand => walkPosition reg rand members 0 = .ok (some i))).card = w members[i])
        ∧ (∀ rand < total, ∃ i, ∃ hi : i < members.length,
            walkPosition reg rand members 0 = .ok (some i)
            ∧ 0 < w members[i] ∧ (reg.states members[i]).isJailed = false
            ∧ ∀ winner, walk reg rand winner members 0 = .ok members[i])
        ∧ (∀ ctx clusterId, ∀ cm : ClusterManager, (cm.clusters clusterId).members = members →
            members ≠ [] → (total = 0 ∨ 1 ≤ ctx.msg.number) →
            ∃ head, electHead ctx clusterId reg cm = .ok (setHead clusterId head cm)
              ∧ ((setHead clusterId head cm).clusters clusterId).clusterHead = head
              ∧ ElectedBySeed reg members w total (electionSeed ctx clusterId cm) head) := by
  refine ⟨exists_totalWeight, ?_⟩
  intro w total hw htotal
  obtain ⟨hfits, hsum⟩ := (totalWeight_iff hw).mp htotal
  have hwalk : ∀ rand, walkPosition reg rand members 0 = .ok (choose rand (members.map w) 0) :=
    fun rand => walkPosition_eq rand members 0 hw (by omega)
  refine ⟨hsum.symm, ?_, ?_, ?_⟩
  · intro i hi
    have hi' : i < (members.map w).length := by rw [List.length_map]; exact hi
    simp only [hwalk, Except.ok.injEq]
    constructor
    · intro rand _
      rw [choose_eq_some_iff]
      exact and_iff_right hi'
    · rw [← hsum, card_choose hi', List.getElem_map]
  · intro rand hrand
    obtain ⟨i, hi, hposition, hpos, hwinner⟩ := walk_breaks hw htotal hrand
    refine ⟨i, hi, hposition, hpos, ?_, hwinner⟩
    -- a jailed member would have weight zero
    cases hjailed : (reg.states members[i]).isJailed with
    | false => rfl
    | true =>
      have hzero := weight_of_jailed (hw _ (List.getElem_mem hi)) hjailed
      omega
  · intro ctx clusterId cm hmembers hne hblock
    obtain ⟨head, hdraw, helected⟩ := exists_drawHead hmembers hne hw htotal hblock
    exact ⟨head, electHead_eq_ok.mpr ⟨head, hdraw, rfl⟩, clusterHead_setHead clusterId head cm,
      helected⟩

open ReputationRegistry (genesis bob R_MAX R_INITIAL)

theorem openWeights : ∀ m ∈ [genesis, bob],
    Psi.openRegistry.getElectionWeight m = .ok (Psi.openWeight m) := by
  intro m hm
  have hm' : m = genesis ∨ m = bob := by simpa using hm
  exact (Psi.maySubmit_open 5 7 hm').weight

/-- Genesis and bob in one cluster. -/
def pairCluster : ClusterManager := addCluster [0] [genesis, bob] (deploy genesis)

/-- Genesis weighs a full reputation and bob the initial one, which is half of it; the election
of their cluster stores the one whose share holds the seed. -/
theorem bob_elected_by_weight :
    totalWeight [genesis, bob] Psi.openRegistry = .ok (R_MAX + R_INITIAL)
    ∧ ((Finset.range (R_MAX + R_INITIAL)).filter
        (fun rand => walkPosition Psi.openRegistry rand [genesis, bob] 0 = .ok (some 1))).card
      = R_INITIAL
    ∧ ∃ cm', electHead ⟨⟨genesis, 1, 100, true⟩, 0⟩ 1 Psi.openRegistry pairCluster = .ok cm'
      ∧ ElectedBySeed Psi.openRegistry [genesis, bob] Psi.openWeight (R_MAX + R_INITIAL)
        (electionSeed ⟨⟨genesis, 1, 100, true⟩, 0⟩ 1 pairCluster)
        (cm'.clusters 1).clusterHead := by
  have hsum : ([genesis, bob].map Psi.openWeight).sum = R_MAX + R_INITIAL := rfl
  have htotal : totalWeight [genesis, bob] Psi.openRegistry = .ok (R_MAX + R_INITIAL) := by
    refine (totalWeight_iff openWeights).mpr ⟨?_, hsum⟩
    rw [hsum]
    norm_num [R_MAX, R_INITIAL]
  have helection :=
    (election_by_weight Psi.openRegistry [genesis, bob]).2 _ _ openWeights htotal
  have hbob := helection.2.1 1 (by decide)
  obtain ⟨head, hset, hstored, helected⟩ := helection.2.2.2 ⟨⟨genesis, 1, 100, true⟩, 0⟩ 1
    pairCluster rfl (by simp) (.inr (Nat.le_refl 1))
  refine ⟨htotal, hbob.2.trans rfl, _, hset, ?_⟩
  rw [hstored]
  exact helected

end HZKA.ClusterManager
