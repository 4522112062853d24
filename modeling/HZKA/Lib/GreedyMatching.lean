/-
  HZKA.Lib.GreedyMatching
  ────────────
  **GREEDY MATCHINGS OF A WEIGHT MATRIX.**

  A greedy run picks a heaviest cell among the rows and columns not used yet, until no weight is
  left.  Which of several heaviest cells is picked may be left open, or settled in part: by the
  first row that has one, or by the first column within a row.

    • `Greedy.map`        — a run stays a run when rows and columns are renamed;
    • `Greedy.first`      — numbered in the order of its picks, it picks first cells only;
    • `Greedy.unique`     — with both rules there is one run;
    • `Greedy.nodup`      — no row and no column is matched twice;
    • `countP_mem`        — how many entries of a list fall into matched cells;
    • `exists_relabelling` — names can be numbered in any order.
-/
import Mathlib.Algebra.Ring.Nat
import Mathlib.Data.Finset.Card
import Mathlib.Data.List.MinMax
import Mathlib.GroupTheory.Perm.Basic

namespace HZKA.Lib

/-! ## §1. Runs. -/

section Runs

variable {α β : Type} [PartialOrder α] [PartialOrder β] (w : α → β → Nat)

/-- The rules for ties that are in force: with `rows`, the first row that holds a heaviest cell;
with `cols`, the first of the heaviest cells of the row. -/
structure Admits (rows cols : Prop) (U : List α) (V : List β) (i : α) (j : β) : Prop where
  row : rows → ∀ i' ∉ U, ∀ j' ∉ V, w i' j' = w i j → i ≤ i'
  col : cols → ∀ j' ∉ V, w i j' = w i j → j ≤ j'

/-- The picks of a run that starts with the rows `U` and the columns `V` used. -/
inductive Greedy (rows cols : Prop) : List α → List β → List (α × β) → Prop
  | stop {U V} (hzero : ∀ i ∉ U, ∀ j ∉ V, w i j = 0) : Greedy rows cols U V []
  | pick {U V i j picks} (hi : i ∉ U) (hj : j ∉ V) (hpos : 0 < w i j)
      (hmax : ∀ i' ∉ U, ∀ j' ∉ V, w i' j' ≤ w i j) (htie : Admits w rows cols U V i j)
      (hrest : Greedy rows cols (i :: U) (j :: V) picks) : Greedy rows cols U V ((i, j) :: picks)

/-- The weight of the matched cells. -/
def kept (picks : List (α × β)) : Nat := (picks.map fun p => w p.1 p.2).sum

/-- The ties that are left open do not matter: all runs keep the same weight. -/
def TieFree (rows cols : Prop) : Prop :=
  ∀ picks picks', Greedy w rows cols [] [] picks → Greedy w rows cols [] [] picks' →
    kept w picks = kept w picks'

variable {w} {rows cols : Prop} {U : List α} {V : List β} {picks picks' : List (α × β)}

/-- No row and no column is matched twice, or was used before. -/
theorem Greedy.nodup (h : Greedy w rows cols U V picks) :
    (picks.map Prod.fst).Nodup ∧ (picks.map Prod.snd).Nodup
      ∧ ∀ p ∈ picks, p.1 ∉ U ∧ p.2 ∉ V := by
  induction h with
  | stop => exact ⟨List.nodup_nil, List.nodup_nil, nofun⟩
  | @pick U V i j picks hi hj _ _ _ _ ih =>
    obtain ⟨hrows, hcols, hfresh⟩ := ih
    refine ⟨List.nodup_cons.mpr ⟨?_, hrows⟩, List.nodup_cons.mpr ⟨?_, hcols⟩, ?_⟩
    · intro hmem
      obtain ⟨p, hp, rfl⟩ := List.mem_map.mp hmem
      exact (hfresh p hp).1 List.mem_cons_self
    · intro hmem
      obtain ⟨p, hp, rfl⟩ := List.mem_map.mp hmem
      exact (hfresh p hp).2 List.mem_cons_self
    · rw [List.forall_mem_cons]
      refine ⟨⟨hi, hj⟩, fun p hp => ?_⟩
      exact ⟨fun h => (hfresh p hp).1 (List.mem_cons_of_mem i h),
        fun h => (hfresh p hp).2 (List.mem_cons_of_mem j h)⟩

/-- Only cells with weight are matched. -/
theorem Greedy.pos (h : Greedy w rows cols U V picks) : ∀ p ∈ picks, 0 < w p.1 p.2 := by
  induction h with
  | stop => exact nofun
  | pick _ _ hpos _ _ _ ih => exact List.forall_mem_cons.mpr ⟨hpos, ih⟩

/-- **With both rules the run is unique.** -/
theorem Greedy.unique (h : Greedy w True True U V picks) (h' : Greedy w True True U V picks') :
    picks' = picks := by
  induction h generalizing picks' with
  | stop hzero =>
    cases h' with
    | stop => rfl
    | @pick _ _ i j _ hi hj hpos =>
      have hnone := hzero i hi j hj
      omega
  | @pick U V i j picks hi hj hpos hmax htie _ ih =>
    cases h' with
    | stop hzero =>
      have hnone := hzero i hi j hj
      omega
    | @pick _ _ i' j' picks' hi' hj' _ hmax' htie' hrest' =>
      -- both are heaviest, and each is first
      have hsame : w i' j' = w i j := Nat.le_antisymm (hmax i' hi' j' hj') (hmax' i hi j hj)
      have hrow : i' = i := le_antisymm (htie'.row trivial i hi j hj hsame.symm)
        (htie.row trivial i' hi' j' hj' hsame)
      subst hrow
      have hcol : j' = j := le_antisymm (htie'.col trivial j hj hsame.symm)
        (htie.col trivial j' hj' hsame)
      subst hcol
      rw [ih hrest']

/-- With one cell left that has weight, the run picks it and stops. -/
theorem Greedy.eq_single {i : α} {j : β} (hi : i ∉ U) (hj : j ∉ V)
    (honly : ∀ i' ∉ U, ∀ j' ∉ V, 0 < w i' j' ↔ i' = i ∧ j' = j)
    (h : Greedy w rows cols U V picks) : picks = [(i, j)] := by
  have hpos := (honly i hi j hj).mpr ⟨rfl, rfl⟩
  cases h with
  | stop hzero =>
    have hnone := hzero i hi j hj
    omega
  | pick hi' hj' hpos' _ _ hrest =>
    obtain ⟨rfl, rfl⟩ := (honly _ hi' _ hj').mp hpos'
    cases hrest with
    | stop => rfl
    | pick hi'' hj'' hpos'' =>
      rw [List.mem_cons, not_or] at hi'' hj''
      exact absurd ((honly _ hi''.2 _ hj''.2).mp hpos'').1 hi''.1

end Runs

/-! ## §2. Renaming. -/

section Renaming

variable {α β α' β' : Type} [PartialOrder α] [PartialOrder β] [PartialOrder α'] [PartialOrder β']
  {w : α → β → Nat} {w' : α' → β' → Nat} (σ : α ≃ α') (τ : β ≃ β')

omit [PartialOrder α] [PartialOrder α'] in
theorem not_mem_map_equiv {l : List α} {x : α'} (h : x ∉ l.map σ) : σ.symm x ∉ l := by
  intro hmem
  apply h
  rw [← σ.apply_symm_apply x]
  exact List.mem_map_of_mem hmem

/-- **Runs are renamed**; a rule stays in force if its order is kept. -/
theorem Greedy.map {rows cols rows' cols' : Prop} (hw : ∀ i j, w' (σ i) (τ j) = w i j)
    (hσ : rows' → rows ∧ Monotone σ) (hτ : cols' → cols ∧ Monotone τ) {U : List α} {V : List β}
    {picks : List (α × β)} (h : Greedy w rows cols U V picks) :
    Greedy w' rows' cols' (U.map σ) (V.map τ) (picks.map (Prod.map σ τ)) := by
  have hback : ∀ i j, w' i j = w (σ.symm i) (τ.symm j) := by
    intro i j
    rw [← hw, σ.apply_symm_apply, τ.apply_symm_apply]
  induction h with
  | stop hzero =>
    refine Greedy.stop fun i hi j hj => ?_
    rw [hback]
    exact hzero _ (not_mem_map_equiv σ hi) _ (not_mem_map_equiv τ hj)
  | pick hi hj hpos hmax htie _ ih =>
    refine Greedy.pick ?_ ?_ ?_ ?_ ⟨?_, ?_⟩ ih
    · rwa [List.mem_map_of_injective σ.injective]
    · rwa [List.mem_map_of_injective τ.injective]
    · rw [hw]
      exact hpos
    · intro i' hi' j' hj'
      rw [hw, hback]
      exact hmax _ (not_mem_map_equiv σ hi') _ (not_mem_map_equiv τ hj')
    -- the tie rules survive where the renaming keeps the order
    · intro hrows i' hi' j' hj' heq
      rw [hw, hback] at heq
      have hle := htie.row (hσ hrows).1 _ (not_mem_map_equiv σ hi') _ (not_mem_map_equiv τ hj') heq
      have hmono := (hσ hrows).2 hle
      rwa [σ.apply_symm_apply] at hmono
    · intro hcols j' hj' heq
      rw [hw, hback, σ.symm_apply_apply] at heq
      have hmono := (hτ hcols).2 (htie.col (hτ hcols).1 _ (not_mem_map_equiv τ hj') heq)
      rwa [τ.apply_symm_apply] at hmono

omit [PartialOrder α] [PartialOrder β] [PartialOrder α'] [PartialOrder β'] in
/-- Renaming keeps the weight. -/
theorem kept_map (hw : ∀ i j, w' (σ i) (τ j) = w i j) (picks : List (α × β)) :
    kept w' (picks.map (Prod.map σ τ)) = kept w picks := by
  unfold kept
  rw [List.map_map]
  exact congrArg List.sum (List.map_congr_left fun p _ => hw p.1 p.2)

end Renaming

section Numbering

variable {w : Nat → Nat → Nat} {rows cols : Prop} {used rest : List Nat} {x y : Nat}

/-- The names picked are the next numbers after the used ones. -/
def Numbered (used picked : List Nat) : Prop :=
  ∃ s, (∀ x < s, x ∈ used) ∧ picked = List.range' s picked.length

/-- The first is the least unused. -/
theorem Numbered.head_le (h : Numbered used (x :: rest)) (hy : y ∉ used) : x ≤ y := by
  obtain ⟨s, hused, hpicked⟩ := h
  rw [List.length_cons, List.range'_succ, List.cons.injEq] at hpicked
  rw [hpicked.1]
  by_contra hlt
  exact hy (hused y (by omega))

theorem Numbered.tail (h : Numbered used (x :: rest)) : Numbered (x :: used) rest := by
  obtain ⟨s, hused, hpicked⟩ := h
  rw [List.length_cons, List.range'_succ, List.cons.injEq] at hpicked
  refine ⟨s + 1, fun y hy => ?_, hpicked.2⟩
  rw [hpicked.1]
  rcases Nat.lt_succ_iff_lt_or_eq.mp hy with hlt | rfl
  · exact List.mem_cons_of_mem _ (hused y hlt)
  · exact List.mem_cons_self

/-- **A run whose rows and columns are numbered in the order of its picks picks first cells
only**; the numbering is needed where no rule is in force. -/
theorem Greedy.first {U V : List Nat} {picks : List (Nat × Nat)} (h : Greedy w rows cols U V picks)
    (hrows : rows ∨ Numbered U (picks.map Prod.fst))
    (hcols : cols ∨ Numbered V (picks.map Prod.snd)) : Greedy w True True U V picks := by
  induction h with
  | stop hzero => exact Greedy.stop hzero
  | @pick U V i j picks hi hj hpos hmax htie _ ih =>
    refine Greedy.pick hi hj hpos hmax ⟨?_, ?_⟩
      (ih (hrows.imp_right Numbered.tail) (hcols.imp_right Numbered.tail))
    · intro _ i' hi' j' hj' heq
      rcases hrows with hrows | hnumbered
      · exact htie.row hrows i' hi' j' hj' heq
      · exact hnumbered.head_le hi'
    · intro _ j' hj' heq
      rcases hcols with hcols | hnumbered
      · exact htie.col hcols j' hj' heq
      · exact hnumbered.head_le hj'

end Numbering

/-! ## §3. Counting matched entries, and the first maximum. -/

/-- An entry is `c` or occurs in the rest, not both. -/
theorem countP_mem_cons {γ : Type} [BEq γ] [LawfulBEq γ] (l : List γ) {c : γ} {m : List γ}
    (hc : c ∉ m) :
    l.countP (fun a => decide (a ∈ c :: m)) = l.count c + l.countP (fun a => decide (a ∈ m)) := by
  induction l with
  | nil => rfl
  | cons a l ih =>
    rw [List.countP_cons, List.countP_cons, List.count_cons, ih]
    by_cases ha : a = c
    · subst ha
      simp [hc]
      omega
    · by_cases hmem : a ∈ m
      · simp [ha, hmem]
        omega
      · simp [ha, hmem]

/-- The entries of `l` that occur in a list without duplicates. -/
theorem countP_mem {γ : Type} [BEq γ] [LawfulBEq γ] (l : List γ) {m : List γ} (hm : m.Nodup) :
    l.countP (fun a => decide (a ∈ m)) = (m.map fun c => l.count c).sum := by
  induction m with
  | nil => simp
  | cons c m ih =>
    obtain ⟨hc, hm⟩ := List.nodup_cons.mp hm
    rw [List.map_cons, List.sum_cons, ← ih hm, countP_mem_cons l hc]

/-- `argmax` takes the first of the greatest elements, in any order the list is sorted by. -/
theorem argmax_first {γ δ : Type} [DecidableEq γ] [LinearOrder δ] {f : γ → δ} {r : γ → γ → Prop}
    {l : List γ} (hl : l.Pairwise r) {c a : γ} (hc : c ∈ l.argmax f) (ha : a ∈ l)
    (heq : f a = f c) : a = c ∨ r c a := by
  obtain ⟨hmem, _, hfirst⟩ := List.mem_argmax_iff.mp hc
  rcases Nat.lt_or_eq_of_le (hfirst a ha heq.ge) with hlt | hsame
  · have hrel := List.pairwise_iff_getElem.mp hl _ _ (List.idxOf_lt_length_of_mem hmem)
      (List.idxOf_lt_length_of_mem ha) hlt
    rw [List.getElem_idxOf, List.getElem_idxOf] at hrel
    exact .inr hrel
  · exact .inl ((List.idxOf_inj hmem).mp hsame).symm

/-! ## §4. Names along a run. -/

/-- Distinct and bounded, hence few. -/
theorem length_le_of_nodup {l : List Nat} {n : Nat} (hl : l.Nodup) (hlt : ∀ x ∈ l, x < n) :
    l.length ≤ n := by
  have hsub : l ⊆ List.range n := fun x hx => List.mem_range.mpr (hlt x hx)
  have hle := (hl.subperm hsub).length_le
  rwa [List.length_range] at hle

/-- A list that has room for nothing more is full. -/
theorem mem_of_length_eq {l : List Nat} {n : Nat} (hl : l.Nodup) (hlt : ∀ x ∈ l, x < n)
    (hlen : l.length = n) {x : Nat} (hx : x < n) : x ∈ l := by
  by_contra hmem
  have hle := length_le_of_nodup (List.nodup_cons.mpr ⟨hmem, hl⟩)
    (List.forall_mem_cons.mpr ⟨hx, hlt⟩)
  rw [List.length_cons] at hle
  omega

theorem perm_lt {q : Equiv.Perm Nat} {n : Nat} (hq : ∀ x, n ≤ x → q x = x) {x : Nat} (hx : x < n) :
    q x < n := by
  by_contra hge
  have hfix := q.injective (hq (q x) (by omega))
  omega

/-- **Any names below `n` can be numbered in a given order**, by a permutation of those names. -/
theorem exists_relabelling {n : Nat} (l : List Nat) (hl : l.Nodup) (hlt : ∀ x ∈ l, x < n) :
    ∃ q : Equiv.Perm Nat, (∀ x, n ≤ x → q x = x) ∧ l.map q = List.range l.length := by
  -- one name after the other: the next is swapped into its place
  induction l using List.reverseRecOn with
  | nil => exact ⟨1, fun _ _ => rfl, rfl⟩
  | append_singleton l x ih =>
    have hlength := length_le_of_nodup hl hlt
    rw [List.length_append, List.length_singleton] at hlength
    have hx : x ∉ l := fun hmem =>
      (List.disjoint_of_nodup_append hl) hmem (List.mem_singleton_self x)
    have hxn : x < n := hlt x (List.mem_append_right _ (List.mem_singleton_self x))
    obtain ⟨q, hfix, hmap⟩ := ih hl.of_append_left fun y hy => hlt y (List.mem_append_left _ hy)
    have hqx := perm_lt hfix hxn
    refine ⟨Equiv.swap (q x) l.length * q, fun y hy => ?_, ?_⟩
    · rw [Equiv.Perm.mul_apply, hfix y hy, Equiv.swap_apply_of_ne_of_ne (by omega) (by omega)]
    · have hold : l.map (Equiv.swap (q x) l.length * q) = l.map q := by
        refine List.map_congr_left fun y hy => ?_
        have hlow : q y < l.length := by
          have hmem : q y ∈ l.map q := List.mem_map_of_mem hy
          rw [hmap] at hmem
          exact List.mem_range.mp hmem
        have hne : q y ≠ q x := fun heq => hx (q.injective heq ▸ hy)
        rw [Equiv.Perm.mul_apply, Equiv.swap_apply_of_ne_of_ne hne (by omega)]
      rw [List.map_append, hold, hmap, List.length_append, List.length_singleton,
        List.range_succ, List.map_singleton, Equiv.Perm.mul_apply, Equiv.swap_apply_left]

/-- The names a run with a rule or without it is given: with the rule the old ones. -/
theorem exists_names (rule : Prop) {n : Nat} (l : List Nat) (hl : l.Nodup)
    (hlt : ∀ x ∈ l, x < n) :
    ∃ q : Equiv.Perm Nat, (∀ x, n ≤ x → q x = x) ∧ (rule → q = 1)
      ∧ (rule ∨ Numbered [] (l.map q)) := by
  by_cases hrule : rule
  · exact ⟨1, fun _ _ => rfl, fun _ => rfl, .inl hrule⟩
  · obtain ⟨q, hfix, hmap⟩ := exists_relabelling l hl hlt
    refine ⟨q, hfix, fun h => absurd h hrule, .inr ⟨0, nofun, ?_⟩⟩
    rw [hmap, List.length_range, List.range_eq_range']

end HZKA.Lib
