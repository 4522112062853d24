/-
  HZKA.Lib.RoundRobin
  ────────────
  **DEALING A LIST OUT.**

  Position `i` of a list goes to the receiver `who i`; what one receiver gets is its
  `share`.

    • `share_sublist`, `exists_share`, `nodup_of_share` — shares keep the order, every
      element is in one, and they tell whether the list repeats;
    • `share_perm`        — the shares of distinct receivers make up the list;
    • `length_share`      — a share has as many elements as positions go to its receiver;
    • `length_roundRobin` — dealt in turn to `M` receivers, `n` elements give each
      `n / M`, and the first `n % M` of them one more.
-/
import Mathlib.Data.Int.CardIntervalMod
import Mathlib.Data.List.Perm.Basic
import Mathlib.Tactic.Common

namespace HZKA.Lib

variable {α ι : Type} [DecidableEq ι]

/-- What goes to `c` of a list whose first element is at position `i`. -/
def share (who : Nat → ι) (c : ι) : Nat → List α → List α
  | _, [] => []
  | i, x :: rest => if who i = c then x :: share who c (i + 1) rest else share who c (i + 1) rest

theorem share_cons (who : Nat → ι) (c : ι) (i : Nat) (x : α) (rest : List α) :
    share who c i (x :: rest) = (if who i = c then [x] else []) ++ share who c (i + 1) rest := by
  rw [share]
  split
  next => rfl
  next => rfl

/-- A share is part of the list. -/
theorem share_sublist (who : Nat → ι) (c : ι) (l : List α) :
    ∀ i, (share who c i l).Sublist l := by
  induction l with
  | nil =>
    intro i
    exact List.Sublist.refl _
  | cons x rest ih =>
    intro i
    unfold share
    split
    next => exact (ih (i + 1)).cons_cons x
    next => exact (ih (i + 1)).cons x

/-- Every element goes to someone. -/
theorem exists_share (who : Nat → ι) {x : α} {l : List α} (hx : x ∈ l) :
    ∀ i, ∃ c, x ∈ share who c i l := by
  induction l with
  | nil => exact absurd hx List.not_mem_nil
  | cons y rest ih =>
    intro i
    rcases List.mem_cons.mp hx with rfl | hx
    · refine ⟨who i, ?_⟩
      rw [share, if_pos rfl]
      exact List.mem_cons_self
    · obtain ⟨c, hc⟩ := ih hx (i + 1)
      refine ⟨c, ?_⟩
      rw [share_cons]
      exact List.mem_append_right _ hc

theorem share_eq_nil {who : Nat → ι} {c : ι} (h : ∀ i, who i ≠ c) (l : List α) :
    ∀ i, share who c i l = [] := by
  induction l with
  | nil =>
    intro i
    rfl
  | cons x rest ih =>
    intro i
    rw [share, if_neg (h i), ih]

/-- If no share repeats and no two overlap, nothing was dealt twice. -/
theorem nodup_of_share (who : Nat → ι) {l : List α} :
    ∀ i, (∀ c, (share who c i l).Nodup) →
      (∀ x c c', x ∈ share who c i l → x ∈ share who c' i l → c = c') → l.Nodup := by
  induction l with
  | nil =>
    intro i _ _
    exact List.nodup_nil
  | cons x rest ih =>
    intro i honce hapart
    have hsub : ∀ c, (share who c (i + 1) rest).Sublist (share who c i (x :: rest)) := by
      intro c
      rw [share_cons]
      exact List.sublist_append_right _ _
    have hhead : share who (who i) i (x :: rest) = x :: share who (who i) (i + 1) rest := by
      rw [share, if_pos rfl]
    rw [List.nodup_cons]
    constructor
    · -- a second copy would overlap with the first, and so be in the same share
      intro hmem
      obtain ⟨c, hc⟩ := exists_share who hmem (i + 1)
      have hfirst : x ∈ share who (who i) i (x :: rest) := by
        rw [hhead]
        exact List.mem_cons_self
      obtain rfl := hapart x _ _ hfirst ((hsub c).subset hc)
      have hnodup := honce (who i)
      rw [hhead, List.nodup_cons] at hnodup
      exact hnodup.1 hc
    · apply ih (i + 1)
      · intro c
        exact (hsub c).nodup (honce c)
      · intro y c c' hy hy'
        exact hapart y c c' ((hsub c).subset hy) ((hsub c').subset hy')

/-- Exactly one of several distinct receivers collects an element. -/
theorem flatMap_single {ids : List ι} (hnodup : ids.Nodup) {a : ι} (ha : a ∈ ids) (x : α) :
    ids.flatMap (fun c => if a = c then [x] else []) = [x] := by
  induction ids with
  | nil => exact absurd ha List.not_mem_nil
  | cons b ids ih =>
    rw [List.nodup_cons] at hnodup
    rw [List.flatMap_cons]
    by_cases hab : a = b
    · -- the rest collects nothing
      subst hab
      have hrest : ids.flatMap (fun c => if a = c then [x] else []) = [] := by
        rw [List.flatMap_eq_nil_iff]
        intro c hc
        have hac : a ≠ c := fun hac => hnodup.1 (hac ▸ hc)
        exact if_neg hac
      rw [if_pos rfl, hrest, List.append_nil]
    · rw [if_neg hab, List.nil_append]
      exact ih hnodup.2 ((List.mem_cons.mp ha).resolve_left hab)

/-- **Nothing is lost, nothing is duplicated.** -/
theorem share_perm {who : Nat → ι} {ids : List ι} (hnodup : ids.Nodup) (hwho : ∀ i, who i ∈ ids)
    (l : List α) : ∀ i, (ids.flatMap (fun c => share who c i l)).Perm l := by
  induction l with
  | nil =>
    intro i
    show (ids.flatMap (fun _ => [])).Perm []
    rw [List.flatMap_eq_nil_iff.mpr (fun _ _ => rfl)]
  | cons x rest ih =>
    intro i
    have hsplit : (fun c => share who c i (x :: rest))
        = fun c => (if who i = c then [x] else []) ++ share who c (i + 1) rest :=
      funext (fun c => share_cons who c i x rest)
    rw [hsplit]
    refine (List.flatMap_append_perm ids _ _).symm.trans ?_
    rw [flatMap_single hnodup (hwho i)]
    exact (ih (i + 1)).cons x

/-- A share of two parts. -/
theorem share_append (who : Nat → ι) (c : ι) (l l' : List α) :
    ∀ i, share who c i (l ++ l') = share who c i l ++ share who c (i + l.length) l' := by
  induction l with
  | nil =>
    intro i
    rfl
  | cons x l ih =>
    intro i
    rw [List.cons_append, share_cons, share_cons, ih, List.append_assoc, List.length_cons,
      Nat.add_right_comm i 1, Nat.add_assoc i]

/-- A share is as long as its receiver has positions. -/
theorem length_share (who : Nat → ι) (c : ι) (l : List α) :
    (share who c 0 l).length = Nat.count (fun i => who i = c) l.length := by
  induction l using List.reverseRecOn with
  | nil => rfl
  | append_singleton l x ih =>
    rw [share_append, List.length_append, ih, List.length_append, List.length_singleton,
      Nat.count_succ, Nat.zero_add, share_cons]
    split
    next => rfl
    next => rfl

/-- **Dealt in turn, every share has the same size up to one.** -/
theorem length_roundRobin {who : Nat → ι} {c : ι} {M k : Nat} (hk : k < M)
    (hturn : ∀ i, who i = c ↔ i % M = k) (l : List α) :
    (share who c 0 l).length = l.length / M + if k < l.length % M then 1 else 0 := by
  have hpositions : Nat.count (fun i => who i = c) l.length
      = Nat.count (fun i => i ≡ k [MOD M]) l.length := by
    congr 1
    funext i
    rw [hturn i, Nat.ModEq, Nat.mod_eq_of_lt hk]
  rw [length_share, hpositions, Nat.count_modEq_card l.length (by omega) k, Nat.mod_eq_of_lt hk]

end HZKA.Lib
