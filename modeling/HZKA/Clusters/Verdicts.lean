/-
  HZKA.Clusters.Verdicts
  ────────────
  **WHAT THE CROSS-REFERENCE HOLDS AGAINST A COMMITTER.**

  `crossReferenceAndUpdate` compares each submitted root with `_majorityRoot` of ALL
  entries, alive or not.  Its comment speaks of a 2/3 threshold; the function returns the
  most frequent root, the first of several, however few entries have it.

    • `majorityRoot_eq`          — `_majorityRoot` is the first most frequent root;
    • `penalties_two_thirds_iff` — when the entries found invalid face two thirds;
    • `plurality_penalty`        — one of two is slashed for disagreeing with the other;
    • `verdicts_agree_iff`       — when the roots of absent entries do not matter;
    • `absent_votes`             — the placeholder of an absent committer has a present one
      slashed.
-/
import HZKA.Clusters.Authority
import HZKA.Lib.RunningBest
import HZKA.Psi.Groups

namespace HZKA.Clusters

open HZKA.Lib HZKA.EVM HZKA.Groth16Verifier HZKA.ClusterManager
open HZKA.ReputationRegistry (genesis bob)

/-! ## §1. The most frequent root. -/

/-- The root with the highest count, the first of several. -/
abbrev Plurality (roots : List Bytes32) (root : Bytes32) : Prop :=
  Leads (fun r => roots.count r) roots root

theorem majorityRoot_eq {roots : List Bytes32} {root : Bytes32} (h : Plurality roots root) :
    majorityRoot roots = root := by
  show (runningBest (fun r => roots.count r) 0 roots).1 = root
  rw [runningBest_eq 0 h]

/-- Some root has most votes. -/
theorem exists_plurality {roots : List Bytes32} (h : roots ≠ []) : ∃ root, Plurality roots root := by
  rcases leads_or_zero (fun r => roots.count r) roots with hzero | hlead
  · -- the head is counted at least once
    obtain ⟨root, rest, rfl⟩ := List.exists_cons_of_ne_nil h
    have hcount := hzero root List.mem_cons_self
    rw [List.count_cons_self] at hcount
    omega
  · exact hlead

/-- Two roots share the votes. -/
theorem count_add_count_le {r s : Bytes32} (hne : r ≠ s) (roots : List Bytes32) :
    roots.count r + roots.count s ≤ roots.length := by
  induction roots with
  | nil => exact Nat.le_refl 0
  | cons root rest ih =>
    rw [List.length_cons]
    by_cases hr : root = r
    · have hs : root ≠ s := fun h => hne (hr.symm.trans h)
      rw [hr, List.count_cons_self, List.count_cons_of_ne (hr ▸ hs)]
      omega
    · rw [List.count_cons_of_ne hr]
      have hle : (root :: rest).count s ≤ rest.count s + 1 := by
        rw [List.count_cons]
        split <;> omega
      omega

/-- Two thirds of the entries are the plurality. -/
theorem plurality_of_twoThirds {roots : List Bytes32} {root : Bytes32} (hsome : roots ≠ [])
    (h : 2 * roots.length ≤ 3 * roots.count root) : Plurality roots root := by
  obtain ⟨best, hbest⟩ := exists_plurality hsome
  have hpos := List.length_pos_iff.mpr hsome
  by_cases hne : best = root
  · exact hne ▸ hbest
  · exfalso
    have hmem : root ∈ roots := List.count_pos_iff.mp (by omega)
    have hle : roots.count root ≤ roots.count best := hbest.le hmem
    have hadd := count_add_count_le hne roots
    omega

/-! ## §2. What the loop reports. -/

/-- The reports to the registry, entry by entry. -/
def reports (committerAddrs : List Address) (submittedRoots : List Bytes32)
    (aliveFlags : List Bool) : List (Address × EventType × Bytes32) :=
  (committerAddrs.zip (submittedRoots.zip aliveFlags)).map (fun entry =>
    (entry.1, crossReferenceEvent (majorityRoot submittedRoots) entry.2.1 entry.2.2, entry.2.1))

/-- The loop of an accepted call makes these reports, in this order. -/
theorem crossReference_reports {S : Setting} {ctx : Ctx} {committerAddrs : List Address}
    {submittedRoots : List Bytes32} {aliveFlags : List Bool} {reg reg' : ReputationRegistry}
    {cm : ClusterManager} :
    crossReferenceAndUpdate S ctx committerAddrs submittedRoots aliveFlags reg cm = .ok reg'
      ↔ CanCrossReference ctx committerAddrs submittedRoots aliveFlags cm
        ∧ (reports committerAddrs submittedRoots aliveFlags).foldlM (fun reg report =>
            reg.updateState (asManager S ctx.msg) report.1 report.2.1 report.2.2) reg
          = .ok reg' := by
  rw [crossReferenceAndUpdate_eq_ok]
  unfold reports
  rw [List.foldlM_map]

/-- The report on entry `i`. -/
theorem getElem?_reports {committerAddrs : List Address} {submittedRoots : List Bytes32}
    {aliveFlags : List Bool} {i : Nat} {a : Address} {event : EventType} {root : Bytes32} :
    (reports committerAddrs submittedRoots aliveFlags)[i]? = some (a, event, root)
      ↔ committerAddrs[i]? = some a ∧ submittedRoots[i]? = some root
        ∧ ∃ alive, aliveFlags[i]? = some alive
          ∧ crossReferenceEvent (majorityRoot submittedRoots) root alive = event := by
  unfold reports
  rw [List.getElem?_map, Option.map_eq_some_iff]
  constructor
  · intro ⟨entry, hentry, hreport⟩
    obtain ⟨ha, hrest⟩ := List.getElem?_zip_eq_some.mp hentry
    obtain ⟨hroot, halive⟩ := List.getElem?_zip_eq_some.mp hrest
    cases hreport
    exact ⟨ha, hroot, _, halive, rfl⟩
  · intro ⟨ha, hroot, alive, halive, hevent⟩
    refine ⟨(a, root, alive), ?_, by rw [← hevent]⟩
    exact List.getElem?_zip_eq_some.mpr ⟨ha, List.getElem?_zip_eq_some.mpr ⟨hroot, halive⟩⟩

/-- A present entry is valid or invalid by its root alone. -/
theorem event_alive (expectedRoot root : Bytes32) :
    crossReferenceEvent expectedRoot root true = if root = expectedRoot then .VALID else .INVALID :=
  rfl

theorem event_eq_invalid {expectedRoot root : Bytes32} :
    crossReferenceEvent expectedRoot root true = .INVALID ↔ root ≠ expectedRoot := by
  rw [event_alive]
  by_cases h : root = expectedRoot
  · simp [h]
  · simp [h]

/-- All entries of an accepted call are there. -/
theorem exists_entry {ctx : Ctx} {committerAddrs : List Address} {submittedRoots : List Bytes32}
    {aliveFlags : List Bool} {cm : ClusterManager} {i : Nat} {alive : Bool}
    (h : CanCrossReference ctx committerAddrs submittedRoots aliveFlags cm)
    (halive : aliveFlags[i]? = some alive) :
    ∃ a root, committerAddrs[i]? = some a ∧ submittedRoots[i]? = some root := by
  obtain ⟨hi, -⟩ := List.getElem?_eq_some_iff.mp halive
  have hroots := h.roots
  have hflags := h.flags
  exact ⟨committerAddrs[i], submittedRoots[i], List.getElem?_eq_getElem (by omega),
    List.getElem?_eq_getElem (by omega)⟩

/-! ## §3. The two-thirds threshold. -/

/-- A present entry found invalid faces a different root of two thirds of the entries. -/
def TwoThirdsPenalties (committerAddrs : List Address) (submittedRoots : List Bytes32)
    (aliveFlags : List Bool) : Prop :=
  ∀ (i : Nat) (a : Address) (root : Bytes32), aliveFlags[i]? = some true →
    (reports committerAddrs submittedRoots aliveFlags)[i]? = some (a, EventType.INVALID, root) →
    ∃ r, r ≠ root ∧ 2 * committerAddrs.length ≤ 3 * submittedRoots.count r

/-- **Penalties face two thirds exactly if some root has two thirds, or every present entry
submitted the most frequent root** (and none is found invalid). -/
theorem penalties_two_thirds_iff (S : Setting) (ctx : Ctx) (committerAddrs : List Address)
    (submittedRoots : List Bytes32) (aliveFlags : List Bool) (reg reg' : ReputationRegistry)
    (cm : ClusterManager)
    (h : crossReferenceAndUpdate S ctx committerAddrs submittedRoots aliveFlags reg cm = .ok reg') :
    TwoThirdsPenalties committerAddrs submittedRoots aliveFlags
      ↔ (∃ r, 2 * submittedRoots.length ≤ 3 * submittedRoots.count r)
        ∨ ∃ r, Plurality submittedRoots r
          ∧ ∀ i : Nat, aliveFlags[i]? = some true → submittedRoots[i]? = some r := by
  obtain ⟨hcan, -⟩ := crossReference_reports.mp h
  have hroots := hcan.roots
  constructor
  · intro hfair
    by_cases hsome : submittedRoots = []
    · left
      refine ⟨0, ?_⟩
      rw [hsome]
      simp
    obtain ⟨best, hbest⟩ := exists_plurality hsome
    by_cases hagree : ∀ i : Nat, aliveFlags[i]? = some true → submittedRoots[i]? = some best
    · exact Or.inr ⟨best, hbest, hagree⟩
    · -- a present entry disagrees, so it is found invalid
      simp only [not_forall] at hagree
      obtain ⟨i, halive, hother⟩ := hagree
      obtain ⟨a, root, ha, hroot⟩ := exists_entry hcan halive
      have hne : root ≠ majorityRoot submittedRoots := by
        rw [majorityRoot_eq hbest]
        intro hsame
        exact hother (hsame ▸ hroot)
      obtain ⟨r, -, htwo⟩ := hfair i a root halive
        (getElem?_reports.mpr ⟨ha, hroot, true, halive, event_eq_invalid.mpr hne⟩)
      left
      exact ⟨r, by omega⟩
  · intro hcond i a root halive hreport
    obtain ⟨-, hroot, alive, halive', hevent⟩ := getElem?_reports.mp hreport
    rw [halive] at halive'
    obtain rfl := Option.some.inj halive'
    have hne := event_eq_invalid.mp hevent
    have hsome : submittedRoots ≠ [] := List.ne_nil_of_mem (List.mem_of_getElem? hroot)
    rcases hcond with ⟨r, htwo⟩ | ⟨r, hplurality, hagree⟩
    · rw [majorityRoot_eq (plurality_of_twoThirds hsome htwo)] at hne
      exact ⟨r, hne.symm, by omega⟩
    · rw [majorityRoot_eq hplurality] at hne
      rw [hagree i halive] at hroot
      exact absurd (Option.some.inj hroot).symm hne

/-! ## §4. Two committers, in a state that can be reached. -/

/-- Genesis, the owner, cross-references itself and bob. -/
theorem crossReference_ok (committerAddrs : List Address) (submittedRoots : List Bytes32)
    (aliveFlags : List Bool) (haddrs : ∀ a ∈ committerAddrs, a = genesis ∨ a = bob)
    (hlen : committerAddrs.length ≤ 3) (hroots : submittedRoots.length = committerAddrs.length)
    (hflags : aliveFlags.length = committerAddrs.length) :
    ∃ reg', crossReferenceAndUpdate setting owner committerAddrs submittedRoots aliveFlags
      Psi.openRegistry (deploy genesis) = .ok reg' := by
  have hserves := Psi.openRegistry_serves
  obtain ⟨reg', hloop, -⟩ := Psi.updates_ok (asManager setting owner.msg)
    (reports committerAddrs submittedRoots aliveFlags) hserves.inv hserves.stakes rfl
    (by
      intro report hreport
      obtain ⟨entry, hentry, rfl⟩ := List.mem_map.mp hreport
      have hlisted := (List.of_mem_zip (show (entry.1, entry.2) ∈ _ from hentry)).1
      show (Psi.openRegistry.states entry.1).isRegistered = true
      rcases haddrs entry.1 hlisted with hgenesis | hbob
      · rw [hgenesis, Psi.openRegistry_genesis]
        rfl
      · rw [hbob, Psi.openRegistry_bob]
        rfl)
    (by
      have hle : (reports committerAddrs submittedRoots aliveFlags).length ≤ 3 := by
        unfold reports
        rw [List.length_map, List.length_zip]
        omega
      show 0 + _ * 2 ^ 128 ≤ 2 ^ 256
      omega)
  exact ⟨reg', crossReference_reports.mpr
    ⟨⟨Or.inl rfl, hroots.symm, hflags.symm⟩, hloop⟩⟩

/-- The same as a transaction after the set-up. -/
theorem exec_crossReference_ok (pairing : PairingCheck) (committerAddrs : List Address)
    (submittedRoots : List Bytes32) (aliveFlags : List Bool)
    (haddrs : ∀ a ∈ committerAddrs, a = genesis ∨ a = bob)
    (hlen : committerAddrs.length ≤ 3) (hroots : submittedRoots.length = committerAddrs.length)
    (hflags : aliveFlags.length = committerAddrs.length) :
    ∃ s', System.exec pairing setting (crossReference owner committerAddrs submittedRoots aliveFlags)
      (run (System.exec pairing setting) (System.deploy (.all genesis)) (Psi.setup 5 7))
      = .ok s' := by
  obtain ⟨reg', hok⟩ := crossReference_ok _ _ _ haddrs hlen hroots hflags
  rw [Psi.run_setup pairing (fun _ h => h)]
  exact ⟨_, System.exec_manager_ok (by decide) (map_eq_ok.mpr ⟨reg', hok, rfl⟩)⟩

/-- Two of three entries have root 1, and bob is found invalid for root 2. -/
theorem agreeing_penalties : ∃ reg', crossReferenceAndUpdate setting owner [genesis, genesis, bob]
      [1, 1, 2] [true, true, true] Psi.openRegistry (deploy genesis) = .ok reg'
    ∧ (reports [genesis, genesis, bob] [1, 1, 2] [true, true, true])[2]?
      = some (bob, EventType.INVALID, 2)
    ∧ TwoThirdsPenalties [genesis, genesis, bob] [1, 1, 2] [true, true, true] := by
  obtain ⟨reg', hok⟩ := crossReference_ok [genesis, genesis, bob] [1, 1, 2] [true, true, true]
    (by simp) (by simp) rfl rfl
  refine ⟨reg', hok, by decide, ?_⟩
  exact (penalties_two_thirds_iff setting owner _ _ _ _ reg' _ hok).mpr (Or.inl ⟨1, by decide⟩)

/-- **Half the entries are enough**: genesis submits root 1, bob submits root 2, and bob is
found invalid. -/
theorem plurality_penalty : ¬ ∀ (pairing : PairingCheck) (S : Setting)
    (deployers : Deployers) (txs : List System.Tx) (ctx : Ctx)
    (committerAddrs : List Address) (submittedRoots : List Bytes32) (aliveFlags : List Bool)
    (s' : System),
    System.exec pairing S (crossReference ctx committerAddrs submittedRoots aliveFlags)
      (run (System.exec pairing S) (System.deploy deployers) txs) = .ok s' →
    TwoThirdsPenalties committerAddrs submittedRoots aliveFlags := by
  intro hall
  obtain ⟨s', hs'⟩ := exec_crossReference_ok (fun _ _ _ => .ok true) [genesis, bob] [1, 2]
    [true, true] (by simp) (by simp) rfl rfl
  obtain ⟨r, hne, htwo⟩ := hall _ setting (.all genesis) _ owner _ _ _ s' hs' 1 bob 2 rfl
    (by decide)
  have hone := count_add_count_le (r := r) (s := 2) hne [1, 2]
  have hcount : List.count (2 : Bytes32) [1, 2] = 1 := by decide
  rw [hcount] at hone
  simp only [List.length_cons, List.length_nil] at hone htwo
  omega

/-! ## §5. The votes of the absent. -/

/-- Present entries receive the same events whichever of the two arrays is submitted. -/
def SameVerdicts (committerAddrs : List Address) (submittedRoots submittedRoots' : List Bytes32)
    (aliveFlags : List Bool) : Prop :=
  ∀ (i : Nat) (a : Address) (event : EventType) (root : Bytes32), aliveFlags[i]? = some true →
    ((reports committerAddrs submittedRoots aliveFlags)[i]? = some (a, event, root)
      ↔ (reports committerAddrs submittedRoots' aliveFlags)[i]? = some (a, event, root))

/-- The first half of the law, which is symmetric in the two arrays: a present entry that has
the most frequent root of the one is valid, so it has the most frequent root of the other. -/
theorem plurality_of_sameVerdicts {ctx : Ctx} {committerAddrs : List Address}
    {submittedRoots submittedRoots' : List Bytes32} {aliveFlags : List Bool} {cm : ClusterManager}
    (hcan : CanCrossReference ctx committerAddrs submittedRoots aliveFlags cm)
    (hsame : SameVerdicts committerAddrs submittedRoots submittedRoots' aliveFlags) {r : Bytes32}
    (hr : Plurality submittedRoots r) {i : Nat} (halive : aliveFlags[i]? = some true)
    (hroot : submittedRoots[i]? = some r) : Plurality submittedRoots' r := by
  obtain ⟨a, _, ha, -⟩ := exists_entry hcan halive
  have hvalid : crossReferenceEvent (majorityRoot submittedRoots) r true = .VALID := by
    rw [majorityRoot_eq hr, event_alive, if_pos rfl]
  have hreport := (hsame i a .VALID r halive).mp
    (getElem?_reports.mpr ⟨ha, hroot, true, halive, hvalid⟩)
  obtain ⟨-, hroot', alive, halive', hevent⟩ := getElem?_reports.mp hreport
  rw [halive] at halive'
  obtain rfl := Option.some.inj halive'
  have hexpected : r = majorityRoot submittedRoots' := by
    by_contra hne
    rw [event_eq_invalid.mpr hne] at hevent
    cases hevent
  obtain ⟨best, hbest⟩ := exists_plurality (List.ne_nil_of_mem (List.mem_of_getElem? hroot'))
  rw [hexpected, majorityRoot_eq hbest]
  exact hbest

/-- A present entry that has the most frequent root of neither array is invalid in both. -/
theorem majorityRoot_ne {submittedRoots : List Bytes32} {i : Nat} {root : Bytes32}
    (hroot : submittedRoots[i]? = some root)
    (h : ∀ r, Plurality submittedRoots r → submittedRoots[i]? ≠ some r) :
    root ≠ majorityRoot submittedRoots := by
  obtain ⟨best, hbest⟩ := exists_plurality (List.ne_nil_of_mem (List.mem_of_getElem? hroot))
  rw [majorityRoot_eq hbest]
  intro hsame
  exact h best hbest (hsame ▸ hroot)

/-- **The roots of absent entries do not matter exactly if the most frequent root stays the
same, or was submitted by no present entry** before or after. -/
theorem verdicts_agree_iff (S S' : Setting) (ctx ctx' : Ctx) (committerAddrs : List Address)
    (submittedRoots submittedRoots' : List Bytes32) (aliveFlags : List Bool)
    (reg₀ reg₁ reg₀' reg₁' : ReputationRegistry) (cm cm' : ClusterManager)
    (h : crossReferenceAndUpdate S ctx committerAddrs submittedRoots aliveFlags reg₀ cm = .ok reg₁)
    (h' : crossReferenceAndUpdate S' ctx' committerAddrs submittedRoots' aliveFlags reg₀' cm'
      = .ok reg₁')
    (hpresent : ∀ i : Nat, aliveFlags[i]? = some true → submittedRoots[i]? = submittedRoots'[i]?) :
    SameVerdicts committerAddrs submittedRoots submittedRoots' aliveFlags
      ↔ (∃ r, Plurality submittedRoots r ∧ Plurality submittedRoots' r)
        ∨ ∀ r, Plurality submittedRoots r ∨ Plurality submittedRoots' r →
          ∀ i : Nat, aliveFlags[i]? = some true → submittedRoots[i]? ≠ some r := by
  obtain ⟨hcan, -⟩ := crossReference_reports.mp h
  obtain ⟨hcan', -⟩ := crossReference_reports.mp h'
  constructor
  · intro hsame
    have hsame' : SameVerdicts committerAddrs submittedRoots' submittedRoots aliveFlags :=
      fun i a event root halive => (hsame i a event root halive).symm
    by_cases hboth : ∃ r, Plurality submittedRoots r ∧ Plurality submittedRoots' r
    · exact Or.inl hboth
    · right
      intro r hr i halive hroot
      rcases hr with hr | hr
      · exact hboth ⟨r, hr, plurality_of_sameVerdicts hcan hsame hr halive hroot⟩
      · rw [hpresent i halive] at hroot
        exact hboth ⟨r, plurality_of_sameVerdicts hcan' hsame' hr halive hroot, hr⟩
  · intro hcond i a event root halive
    rw [getElem?_reports, getElem?_reports, hpresent i halive]
    refine and_congr_right (fun _ => and_congr_right (fun hroot => exists_congr (fun alive =>
      and_congr_right (fun halive' => ?_))))
    rw [halive] at halive'
    obtain rfl := Option.some.inj halive'
    rcases hcond with ⟨r, hr, hr'⟩ | hnone
    · rw [majorityRoot_eq hr, majorityRoot_eq hr']
    · have hne := majorityRoot_ne ((hpresent i halive).trans hroot)
        (fun r hr => hnone r (Or.inl hr) i halive)
      have hne' := majorityRoot_ne hroot
        (fun r hr => (hpresent i halive) ▸ hnone r (Or.inr hr) i halive)
      rw [event_eq_invalid.mpr hne, event_eq_invalid.mpr hne']

/-- Bob is absent; genesis has its own vote and comes first. -/
theorem absent_last_harmless :
    SameVerdicts [genesis, bob] [1, 1] [1, 2] [true, false] := by
  obtain ⟨reg₁, h⟩ := crossReference_ok [genesis, bob] [1, 1] [true, false] (by simp)
    (by simp) rfl rfl
  obtain ⟨reg₁', h'⟩ := crossReference_ok [genesis, bob] [1, 2] [true, false] (by simp)
    (by simp) rfl rfl
  refine (verdicts_agree_iff setting setting owner owner _ _ _ _ _ reg₁ _ reg₁' _ _ h h' ?_).mpr
    (Or.inl ⟨1, ?_, ?_⟩)
  · intro i halive
    cases i with
    | zero => rfl
    | succ i =>
      cases i with
      | zero => exact absurd halive (by decide)
      | succ i => rfl
  · exact ⟨by decide, [], [1], rfl, by simp, by simp⟩
  · exact ⟨by decide, [], [2], rfl, by simp, by simp⟩

/-- **An absent entry has a present one found invalid**: bob comes first and is absent,
genesis submits root 1.  With placeholder 1 genesis is valid, with placeholder 2 it is not. -/
theorem absent_votes : ¬ ∀ (pairing : PairingCheck) (S : Setting)
    (deployers : Deployers) (txs : List System.Tx) (ctx : Ctx)
    (committerAddrs : List Address) (submittedRoots submittedRoots' : List Bytes32)
    (aliveFlags : List Bool) (s₁ s₁' : System),
    System.exec pairing S (crossReference ctx committerAddrs submittedRoots aliveFlags)
      (run (System.exec pairing S) (System.deploy deployers) txs) = .ok s₁ →
    System.exec pairing S (crossReference ctx committerAddrs submittedRoots' aliveFlags)
      (run (System.exec pairing S) (System.deploy deployers) txs) = .ok s₁' →
    (∀ i : Nat, aliveFlags[i]? = some true → submittedRoots[i]? = submittedRoots'[i]?) →
    SameVerdicts committerAddrs submittedRoots submittedRoots' aliveFlags := by
  intro hall
  obtain ⟨s₁, h⟩ := exec_crossReference_ok (fun _ _ _ => .ok true) [bob, genesis] [1, 1]
    [false, true] (by simp) (by simp) rfl rfl
  obtain ⟨s₁', h'⟩ := exec_crossReference_ok (fun _ _ _ => .ok true) [bob, genesis] [2, 1]
    [false, true] (by simp) (by simp) rfl rfl
  have hsame := hall _ setting (.all genesis) _ owner _ _ _ _ s₁ s₁' h h' (by
    intro i halive
    cases i with
    | zero => exact absurd halive (by decide)
    | succ i => rfl)
  have hreport := (hsame 1 genesis .VALID 1 rfl).mp (by decide)
  exact absurd hreport (by decide)

end HZKA.Clusters
