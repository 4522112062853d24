/-
  HZKA.Psi.Selection
  ────────────
  **WHICH ROOT THE WEIGHTED AUDIT SELECTS.**

  `weightedAuditAccept` runs two nested loops over the group, with a running best, a zero
  root for "none" and the test `3 · W_r ≥ 2 · W`.

    • `selectRoot_iff`    — the loops are the library's running best;
    • `acceptedRoot_iff`  — a root is accepted exactly if it is the two-thirds winner and
      the products `2 · W` and `3 · W_r` fit 256 bits;
    • `inRange_of_length` — they do for every group of up to 2^190 entries;
    • `selected_root_iff` — the law, with uniqueness, independence of the order, and the
      blocking third;
    • `oversized_group`   — a group with a winner that is too long to be added up.
-/
import HZKA.Lib.RunningBest
import HZKA.Psi.Groups

namespace HZKA.Psi

open HZKA.Lib HZKA.EVM HZKA.AuditContractV2

/-! ## §1. The quorum. -/

/-- A non-zero root with two thirds of a positive total. -/
structure Winner (group : List WeightedSubmission) (root : Bytes32) : Prop where
  nonzero : root ≠ 0
  positive : 0 < weightOf group
  twoThirds : 2 * weightOf group ≤ 3 * weightOf (votesFor group root)

/-- The products of the loops fit. -/
structure InRange (group : List WeightedSubmission) : Prop where
  total : weightOf group * 2 < 2 ^ 256
  candidates : ∀ e ∈ group, weightOf (votesFor group e.submittedRoot) * 3 < 2 ^ 256

theorem weightOf_cons (e : WeightedSubmission) (rest : List WeightedSubmission) :
    weightOf (e :: rest) = e.weight + weightOf rest := by
  unfold weightOf
  rw [List.map_cons, List.sum_cons]

theorem votesFor_cons (e : WeightedSubmission) (rest : List WeightedSubmission) (root : Bytes32) :
    votesFor (e :: rest) root
      = if e.submittedRoot = root then e :: votesFor rest root else votesFor rest root := by
  unfold votesFor
  rw [List.filter_cons]
  simp only [decide_eq_true_eq]

/-- Two roots share no entry. -/
theorem votes_add_le {r s : Bytes32} (hne : r ≠ s) (group : List WeightedSubmission) :
    weightOf (votesFor group r) + weightOf (votesFor group s) ≤ weightOf group := by
  induction group with
  | nil => exact Nat.le_refl 0
  | cons e rest ih =>
    rw [votesFor_cons, votesFor_cons, weightOf_cons]
    by_cases hr : e.submittedRoot = r
    · rw [if_pos hr, if_neg (fun hs => hne (hr.symm.trans hs)), weightOf_cons]
      omega
    · rw [if_neg hr]
      by_cases hs : e.submittedRoot = s
      · rw [if_pos hs, weightOf_cons]
        omega
      · rw [if_neg hs]
        omega

/-- Votes are part of the weight. -/
theorem votes_le (group : List WeightedSubmission) (root : Bytes32) :
    weightOf (votesFor group root) ≤ weightOf group := by
  have hsub : ((votesFor group root).map (·.weight)).Sublist (group.map (·.weight)) :=
    (votesFor_sublist group root).map _
  exact hsub.sum_le_sum (fun _ _ => Nat.zero_le _)

/-- **Two thirds exclude each other.** -/
theorem twoThirds_unique {group : List WeightedSubmission} {r s : Bytes32}
    (hpos : 0 < weightOf group) (hr : 2 * weightOf group ≤ 3 * weightOf (votesFor group r))
    (hs : 2 * weightOf group ≤ 3 * weightOf (votesFor group s)) : r = s := by
  by_contra hne
  have hadd := votes_add_le hne group
  omega

/-- A root with weight was submitted. -/
theorem mem_roots_of_pos {group : List WeightedSubmission} {root : Bytes32}
    (h : 0 < weightOf (votesFor group root)) : root ∈ group.map (·.submittedRoot) := by
  by_contra hnot
  have hnone : votesFor group root = [] := by
    apply List.filter_eq_nil_iff.mpr
    intro e he hroot
    exact hnot (List.mem_map.mpr ⟨e, he, of_decide_eq_true hroot⟩)
  rw [hnone] at h
  exact absurd h (Nat.lt_irrefl 0)

/-! ## §2. The loops. -/

/-- The weight of a root with two thirds of `total`; other roots score nothing. -/
def score (group : List WeightedSubmission) (total : Nat) (root : Bytes32) : Nat :=
  if 2 * total ≤ 3 * weightOf (votesFor group root) then weightOf (votesFor group root) else 0

/-- The loop test and the running best are one comparison. -/
theorem better_eq (group : List WeightedSubmission) (total : Nat) (best : Bytes32 × Nat)
    (root : Bytes32) :
    better (score group total) best root
      = if weightOf (votesFor group root) * 3 ≥ total * 2
          ∧ weightOf (votesFor group root) > best.2
        then (root, weightOf (votesFor group root)) else best := by
  unfold better score
  by_cases hquorum : 2 * total ≤ 3 * weightOf (votesFor group root)
  · have hge : weightOf (votesFor group root) * 3 ≥ total * 2 := by omega
    rw [if_pos hquorum]
    simp only [hge, true_and]
  · have hlt : ¬ weightOf (votesFor group root) * 3 ≥ total * 2 := by omega
    rw [if_neg hquorum]
    simp only [hlt, false_and, if_false]
    rw [if_neg (by omega)]

/-- The outer loop over any part of the group. -/
theorem selectRoot_loop (group : List WeightedSubmission) (total : Nat)
    (l : List WeightedSubmission) :
    ∀ {best best' : Bytes32 × Nat},
      l.foldlM (fun (best : Bytes32 × Nat) e => do
        let candWeight ← candidateWeight group e.submittedRoot
        let lhs ← mulU256 candWeight 3
        let rhs ← mulU256 total 2
        return (if lhs ≥ rhs ∧ candWeight > best.2 then (e.submittedRoot, candWeight) else best))
        best = .ok best'
      ↔ (∀ e ∈ l, weightOf (votesFor group e.submittedRoot) * 3 < 2 ^ 256 ∧ total * 2 < 2 ^ 256)
        ∧ (l.map (·.submittedRoot)).foldl (better (score group total)) best = best' := by
  induction l with
  | nil =>
    intro best best'
    rw [List.foldlM_nil, pure_eq_ok]
    simp
  | cons e l ih =>
    intro best best'
    rw [List.foldlM_cons, bind_eq_ok, List.map_cons, List.foldl_cons, List.forall_mem_cons,
      better_eq]
    constructor
    · intro ⟨next, hstep, hrest⟩
      obtain ⟨weight, hweight, hstep⟩ := bind_eq_ok.mp hstep
      obtain ⟨lhs, hlhs, hstep⟩ := bind_eq_ok.mp hstep
      obtain ⟨rhs, hrhs, hstep⟩ := bind_eq_ok.mp hstep
      obtain ⟨-, rfl⟩ := candidateWeight_iff.mp hweight
      obtain ⟨hcand, rfl⟩ := mulU256_eq_ok.mp hlhs
      obtain ⟨htotal, rfl⟩ := mulU256_eq_ok.mp hrhs
      obtain rfl := pure_eq_ok.mp hstep
      obtain ⟨hall, hbest⟩ := ih.mp hrest
      exact ⟨⟨⟨hcand, htotal⟩, hall⟩, hbest⟩
    · intro ⟨⟨⟨hcand, htotal⟩, hall⟩, hbest⟩
      refine ⟨_, ?_, ih.mpr ⟨hall, hbest⟩⟩
      have hweight := candidateWeight_iff.mpr
        ⟨show weightOf (votesFor group e.submittedRoot) < 2 ^ 256 by omega, rfl⟩
      rw [hweight, ok_bind, mulU256_eq_ok.mpr ⟨hcand, rfl⟩, ok_bind,
        mulU256_eq_ok.mpr ⟨htotal, rfl⟩, ok_bind]
      rfl

/-- When the selection returns `best`. -/
theorem selectRoot_iff {group : List WeightedSubmission} {total : Nat} {best : Bytes32 × Nat} :
    selectRoot group total = .ok best
      ↔ (∀ e ∈ group,
          weightOf (votesFor group e.submittedRoot) * 3 < 2 ^ 256 ∧ total * 2 < 2 ^ 256)
        ∧ runningBest (score group total) 0 (group.map (·.submittedRoot)) = best :=
  selectRoot_loop group total group

/-- The running best of a group with a winner is the winner. -/
theorem runningBest_of_winner {group : List WeightedSubmission} {root : Bytes32}
    (h : Winner group root) :
    (runningBest (score group (weightOf group)) 0 (group.map (·.submittedRoot))).1 = root := by
  have hpos := h.positive
  have htwo := h.twoThirds
  have hvotes : 0 < weightOf (votesFor group root) := by omega
  rcases leads_or_zero (score group (weightOf group)) (group.map (·.submittedRoot))
    with hzero | ⟨a, hlead⟩
  · -- the winner itself scores
    have hscore := hzero root (mem_roots_of_pos hvotes)
    unfold score at hscore
    rw [if_pos htwo] at hscore
    omega
  · -- whatever leads has two thirds as well
    have hscore := hlead.1
    unfold score at hscore
    split at hscore
    · rename_i ha
      rw [runningBest_eq 0 hlead]
      exact twoThirds_unique hpos ha htwo
    · exact absurd hscore (Nat.lt_irrefl 0)

/-- A running best other than the sentinel has two thirds. -/
theorem twoThirds_of_runningBest {group : List WeightedSubmission} {root : Bytes32}
    (hne : root ≠ 0)
    (h : (runningBest (score group (weightOf group)) 0 (group.map (·.submittedRoot))).1 = root) :
    2 * weightOf group ≤ 3 * weightOf (votesFor group root) := by
  rcases leads_or_zero (score group (weightOf group)) (group.map (·.submittedRoot))
    with hzero | ⟨a, hlead⟩
  · rw [runningBest_zero 0 hzero] at h
    exact absurd h.symm hne
  · rw [runningBest_eq 0 hlead] at h
    have ha : a = root := h
    subst ha
    have hscore := hlead.1
    unfold score at hscore
    split at hscore
    · assumption
    · exact absurd hscore (Nat.lt_irrefl 0)

/-- **A root is accepted exactly if it wins and the arithmetic fits.** -/
theorem acceptedRoot_iff {group : List WeightedSubmission} {root : Bytes32} :
    acceptedRoot group = .ok root ↔ InRange group ∧ Winner group root := by
  constructor
  · intro h
    obtain ⟨_, hsome, h⟩ := bind_eq_ok.mp h
    obtain ⟨total, htotal, h⟩ := bind_eq_ok.mp h
    obtain ⟨_, hpos, h⟩ := bind_eq_ok.mp h
    obtain ⟨best, hbest, h⟩ := bind_eq_ok.mp h
    obtain ⟨_, hfound, h⟩ := bind_eq_ok.mp h
    rw [require_eq_ok] at hsome hpos hfound
    obtain ⟨-, rfl⟩ := groupWeight_iff.mp htotal
    obtain ⟨hfits, rfl⟩ := selectRoot_iff.mp hbest
    have hroot := pure_eq_ok.mp h
    have hne : root ≠ 0 := hroot ▸ hfound
    obtain ⟨e, he⟩ := List.exists_mem_of_length_pos hsome
    exact ⟨⟨(hfits e he).2, fun e he => (hfits e he).1⟩, hne, hpos,
      twoThirds_of_runningBest hne hroot⟩
  · intro ⟨hfits, hwin⟩
    have htotal := hfits.total
    have hpos := hwin.positive
    have hsome : group.length > 0 := by
      cases group with
      | nil => exact absurd hpos (Nat.lt_irrefl 0)
      | cons e rest => exact Nat.succ_pos _
    have hbest := runningBest_of_winner hwin
    have hselect := selectRoot_iff.mpr
      ⟨fun e he => ⟨hfits.candidates e he, htotal⟩, rfl⟩
    unfold acceptedRoot
    rw [require_bind hsome, groupWeight_iff.mpr ⟨by omega, rfl⟩, ok_bind, require_bind hpos,
      hselect, ok_bind, require_bind (hbest ▸ hwin.nonzero), hbest]
    rfl

/-! ## §3. The law. -/

/-- No group of up to 2^190 entries is too long. -/
theorem inRange_of_length {group : List WeightedSubmission}
    (hweights : ∀ e ∈ group, e.weight ≤ 10 ^ 18) (hlen : group.length ≤ 2 ^ 190) :
    InRange group := by
  have hsum : weightOf group ≤ group.length * 10 ^ 18 := by
    have hle := List.sum_le_card_nsmul (group.map (·.weight)) (10 ^ 18) (by
      intro w hw
      obtain ⟨e, he, rfl⟩ := List.mem_map.mp hw
      exact hweights e he)
    rw [List.length_map, smul_eq_mul] at hle
    exact hle
  have hbound : group.length * 10 ^ 18 ≤ 2 ^ 190 * 10 ^ 18 := Nat.mul_le_mul_right _ hlen
  refine ⟨by omega, ?_⟩
  intro e _
  have hle := votes_le group e.submittedRoot
  omega

/-- The order does not matter. -/
theorem weightOf_perm {l l' : List WeightedSubmission} (h : l.Perm l') : weightOf l = weightOf l' :=
  (h.map _).sum_eq

/-- The order of the entries does not matter. -/
theorem acceptedRoot_perm {group group' : List WeightedSubmission} (h : group'.Perm group)
    (root : Bytes32) : acceptedRoot group' = .ok root ↔ acceptedRoot group = .ok root := by
  have hall := weightOf_perm h
  have hvotes : ∀ r, weightOf (votesFor group' r) = weightOf (votesFor group r) :=
    fun r => weightOf_perm (h.filter _)
  rw [acceptedRoot_iff, acceptedRoot_iff]
  constructor
  · intro ⟨⟨htotal, hcand⟩, hne, hpos, htwo⟩
    rw [hall] at htotal hpos htwo
    rw [hvotes] at htwo
    refine ⟨⟨htotal, ?_⟩, hne, hpos, htwo⟩
    intro e he
    rw [← hvotes]
    exact hcand e (h.mem_iff.mpr he)
  · intro ⟨⟨htotal, hcand⟩, hne, hpos, htwo⟩
    rw [← hall] at htotal hpos htwo
    rw [← hvotes] at htwo
    refine ⟨⟨htotal, ?_⟩, hne, hpos, htwo⟩
    intro e he
    rw [hvotes]
    exact hcand e (h.mem_iff.mp he)

/-- **The selected root is the two-thirds winner**, whatever the order of the entries: exactly
when the sums fit, and so for every group of up to 2^190 entries. -/
theorem selected_root_iff (group : List WeightedSubmission)
    (hweights : ∀ e ∈ group, e.weight ≤ 10 ^ 18) :
    (∀ root, acceptedRoot group = .ok root ↔ InRange group ∧ Winner group root)
    ∧ (group.length ≤ 2 ^ 190 → InRange group)
    ∧ (∀ r s, Winner group r → Winner group s → r = s)
    ∧ (∀ group' root, group'.Perm group →
        (acceptedRoot group' = .ok root ↔ acceptedRoot group = .ok root))
    ∧ ∀ r s, weightOf group < 3 * weightOf (votesFor group r) → acceptedRoot group = .ok s →
        s = r := by
  refine ⟨fun _ => acceptedRoot_iff, inRange_of_length hweights, ?_, ?_, ?_⟩
  · intro r s hr hs
    exact twoThirds_unique hr.positive hr.twoThirds hs.twoThirds
  · intro group' root hperm
    exact acceptedRoot_perm hperm root
  · intro r s hthird haccepted
    have htwo := (acceptedRoot_iff.mp haccepted).2.twoThirds
    by_contra hne
    have hadd := votes_add_le hne group
    omega

/-- Three of four for root 7. -/
theorem three_of_four_selected :
    acceptedRoot [⟨1, 7, 2⟩, ⟨2, 9, 1⟩, ⟨3, 7, 1⟩] = .ok 7 := by
  have hlaw := selected_root_iff [⟨1, 7, 2⟩, ⟨2, 9, 1⟩, ⟨3, 7, 1⟩] (by decide)
  refine (hlaw.1 7).mpr ⟨hlaw.2.1 (by decide), by decide, by decide, by decide⟩

/-- A unanimous group whose weights do not add up in 256 bits. -/
theorem unanimous_not_accepted {n : Nat} (hn : 2 ^ 256 ≤ n * 10 ^ 18) :
    Winner (List.replicate n ⟨1, 7, 10 ^ 18⟩) 7
      ∧ acceptedRoot (List.replicate n ⟨1, 7, 10 ^ 18⟩) ≠ .ok 7 := by
  have hsum : weightOf (List.replicate n ⟨1, 7, 10 ^ 18⟩) = n * 10 ^ 18 := by
    unfold weightOf
    rw [List.map_replicate, List.sum_replicate, smul_eq_mul]
  have hvotes : votesFor (List.replicate n ⟨1, 7, 10 ^ 18⟩) 7 = List.replicate n ⟨1, 7, 10 ^ 18⟩ := by
    apply List.filter_eq_self.mpr
    intro e he
    rw [List.eq_of_mem_replicate he]
    rfl
  constructor
  · refine ⟨by decide, ?_, ?_⟩
    · rw [hsum]
      omega
    · rw [hvotes, hsum]
      omega
  · intro hok
    have hfits := (acceptedRoot_iff.mp hok).1.total
    rw [hsum] at hfits
    omega

/-- 2^200 entries for one root: their sum exceeds 256 bits, and the call reverts. -/
theorem oversized_group : ¬ ∀ (group : List WeightedSubmission) (root : Bytes32),
    (∀ e ∈ group, e.weight ≤ 10 ^ 18) →
    (acceptedRoot group = .ok root ↔ Winner group root) := by
  intro hall
  obtain ⟨hwin, hrejected⟩ := unanimous_not_accepted (n := 2 ^ 200) (by norm_num)
  refine hrejected ((hall _ 7 ?_).mpr hwin)
  intro e he
  rw [List.eq_of_mem_replicate he]

end HZKA.Psi
