/-
  HZKA.Lib.RunningBest
  ────────────
  **THE RUNNING BEST OF A LIST.**

  The loop keeps a best element and its score, starts from a default with score 0, and
  replaces the best only by a STRICTLY higher score: of several best elements the first
  wins, and an element of score 0 never does.

    • `Leads`            — what the loop is for, without the loop;
    • `runningBest_eq`   — the loop returns the leading element;
    • `leads_or_zero`    — there is one, unless all scores are 0.
-/
import Mathlib.Data.List.Basic
import Mathlib.Tactic.Common

namespace HZKA.Lib

variable {α : Type} (score : α → Nat)

/-- The loop body. -/
def better (best : α × Nat) (a : α) : α × Nat :=
  if score a > best.2 then (a, score a) else best

/-- The best of a list by one pass. -/
def runningBest (d : α) (l : List α) : α × Nat := l.foldl (better score) (d, 0)

/-- `a` has the highest score, which is positive, and is the first to have it. -/
def Leads (l : List α) (a : α) : Prop :=
  0 < score a ∧ ∃ before after, l = before ++ a :: after
    ∧ (∀ b ∈ before, score b < score a) ∧ ∀ b ∈ after, score b ≤ score a

variable {score}

theorem Leads.le {l : List α} {a : α} (h : Leads score l a) {b : α} (hb : b ∈ l) :
    score b ≤ score a := by
  obtain ⟨-, before, after, rfl, hbefore, hafter⟩ := h
  rcases List.mem_append.mp hb with hb | hb
  · exact Nat.le_of_lt (hbefore b hb)
  · rcases List.mem_cons.mp hb with rfl | hb
    · exact Nat.le_refl _
    · exact hafter b hb

/-- Scores below a bound keep the best below it. -/
theorem foldl_better_lt {m : Nat} (l : List α) :
    ∀ {best : α × Nat}, best.2 < m → (∀ b ∈ l, score b < m) →
      (l.foldl (better score) best).2 < m := by
  induction l with
  | nil =>
    intro best hbest _
    exact hbest
  | cons a l ih =>
    intro best hbest hall
    have ha := hall a List.mem_cons_self
    refine ih ?_ (fun b hb => hall b (List.mem_cons_of_mem a hb))
    unfold better
    split
    · exact ha
    · exact hbest

/-- Scores that are not higher leave the best alone. -/
theorem foldl_better_eq (l : List α) {best : α × Nat} (hall : ∀ b ∈ l, score b ≤ best.2) :
    l.foldl (better score) best = best := by
  induction l with
  | nil => rfl
  | cons a l ih =>
    have ha := hall a List.mem_cons_self
    have hstep : better score best a = best := by
      unfold better
      rw [if_neg (by omega)]
    rw [List.foldl_cons, hstep]
    exact ih (fun b hb => hall b (List.mem_cons_of_mem a hb))

/-- **The loop returns the leading element and its score.** -/
theorem runningBest_eq (d : α) {l : List α} {a : α} (h : Leads score l a) :
    runningBest score d l = (a, score a) := by
  obtain ⟨hpos, before, after, rfl, hbefore, hafter⟩ := h
  unfold runningBest
  rw [List.foldl_append, List.foldl_cons]
  -- up to `a` the best is lower, so `a` replaces it, and stays
  have hlow : (before.foldl (better score) (d, 0)).2 < score a := foldl_better_lt before hpos hbefore
  have hstep : better score (before.foldl (better score) (d, 0)) a = (a, score a) := if_pos hlow
  rw [hstep]
  exact foldl_better_eq after hafter

theorem runningBest_zero (d : α) {l : List α} (h : ∀ b ∈ l, score b = 0) :
    runningBest score d l = (d, 0) := by
  apply foldl_better_eq
  intro b hb
  exact Nat.le_of_eq (h b hb)

/-- **Something leads, unless nothing scores.** -/
theorem leads_or_zero (score : α → Nat) (l : List α) : (∀ b ∈ l, score b = 0) ∨ ∃ a, Leads score l a := by
  induction l with
  | nil => exact Or.inl (fun b hb => absurd hb List.not_mem_nil)
  | cons x l ih =>
    rcases ih with hzero | ⟨a, hlead⟩
    · by_cases hx : score x = 0
      · left
        intro b hb
        rcases List.mem_cons.mp hb with rfl | hb
        · exact hx
        · exact hzero b hb
      · right
        refine ⟨x, by omega, [], l, rfl, fun b hb => absurd hb List.not_mem_nil, ?_⟩
        intro b hb
        rw [hzero b hb]
        exact Nat.zero_le _
    · right
      by_cases hx : score x < score a
      · obtain ⟨hpos, before, after, rfl, hbefore, hafter⟩ := hlead
        refine ⟨a, hpos, x :: before, after, rfl, ?_, hafter⟩
        intro b hb
        rcases List.mem_cons.mp hb with rfl | hb
        · exact hx
        · exact hbefore b hb
      · have hpos := hlead.1
        refine ⟨x, by omega, [], l, rfl, fun b hb => absurd hb List.not_mem_nil, ?_⟩
        intro b hb
        have hle := hlead.le hb
        omega

end HZKA.Lib
