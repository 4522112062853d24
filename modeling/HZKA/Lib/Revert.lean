/-
  HZKA.Lib.Revert
  ────────────
  **REVERTING COMPUTATIONS over 256-bit checked arithmetic.**

  A call either returns a value or reverts.  `Except Revert` is that monad;
  `require` is the guard, and `addU256`/`subU256`/`mulU256`/`divU256` are the checked
  operations of a 256-bit machine (a result out of range is a panic, never a
  wrapped value).

  Every proof about a call opens the do-block with the inversion lemmas of §2
  (`bind_eq_ok`, `require_eq_ok`, `addU256_eq_ok`, …), so no proof unfolds the
  monad.  §3 has the loop rules: what one iteration preserves, the whole `foldlM`
  preserves; a loop that adds up returns the sum when it fits.
-/
import Mathlib.Algebra.Ring.Nat
import Mathlib.Data.List.Forall2
import Mathlib.Tactic.Common

namespace HZKA.Lib

/-! ## §1. Reverts, guards, checked arithmetic. -/

/-- Why a call was rolled back: a failed guard with its message, or an
arithmetic panic. -/
inductive Revert where
  | require (msg : String)
  | panic
  deriving DecidableEq, Repr

/-- The guard: continue if `c` holds, else roll back with `msg`. -/
def require (c : Prop) [Decidable c] (msg : String) : Except Revert Unit :=
  if c then .ok () else .error (.require msg)

/-- Checked 256-bit addition. -/
def addU256 (a b : Nat) : Except Revert Nat :=
  if a + b < 2 ^ 256 then .ok (a + b) else .error .panic

/-- Checked 256-bit subtraction. -/
def subU256 (a b : Nat) : Except Revert Nat :=
  if b ≤ a then .ok (a - b) else .error .panic

/-- Checked 256-bit multiplication. -/
def mulU256 (a b : Nat) : Except Revert Nat :=
  if a * b < 2 ^ 256 then .ok (a * b) else .error .panic

/-- Division; by zero it panics. -/
def divU256 (a b : Nat) : Except Revert Nat :=
  if b ≠ 0 then .ok (a / b) else .error .panic

/-- Checked 32-bit addition. -/
def addU32 (a b : Nat) : Except Revert Nat :=
  if a + b < 2 ^ 32 then .ok (a + b) else .error .panic

/-! ## §2. Inversion: what a successful call has gone through. -/

variable {ε α β : Type}

/-- Both parts succeed. -/
theorem bind_eq_ok {x : Except ε α} {f : α → Except ε β} {b : β} :
    (x >>= f) = .ok b ↔ ∃ a, x = .ok a ∧ f a = .ok b := by
  cases x with
  | error e =>
    show (Except.error e = Except.ok b) ↔ _
    simp
  | ok a =>
    show f a = .ok b ↔ _
    simp

/-- Nothing can fail. -/
theorem pure_eq_ok {a b : α} :
    (pure a : Except ε α) = .ok b ↔ a = b := by
  show (Except.ok a = Except.ok b) ↔ _
  simp

theorem isOk_of_eq {x : Except ε α} {a : α} (h : x = .ok a) : x.isOk = true := by
  rw [h]
  rfl

/-- Success has a result. -/
theorem exists_of_isOk {x : Except ε α} (h : x.isOk = true) : ∃ a, x = .ok a := by
  cases x with
  | error e => exact absurd h Bool.false_ne_true
  | ok a => exact ⟨a, rfl⟩

theorem map_eq_ok {x : Except ε α} {f : α → β} {b : β} :
    x.map f = .ok b ↔ ∃ a, x = .ok a ∧ f a = b := by
  cases x with
  | error e =>
    show (Except.error e = Except.ok b) ↔ _
    simp
  | ok a =>
    show (Except.ok (f a) = Except.ok b) ↔ _
    simp

/-- A guarded value: the guard holds and the value is the result. -/
theorem ite_eq_ok {c : Prop} [Decidable c] {a r : α} {e : ε} :
    (if c then Except.ok a else .error e) = .ok r ↔ c ∧ a = r := by
  by_cases h : c
  · simp [h]
  · simp [h]

/-- The guard holds. -/
theorem require_eq_ok {c : Prop} [Decidable c] {msg : String} {u : Unit} :
    require c msg = .ok u ↔ c := by
  unfold require
  rw [ite_eq_ok, and_iff_left (Subsingleton.elim () u)]

/-- A sequence reverts where its first part does, or after it. -/
theorem bind_eq_error {x : Except ε α} {f : α → Except ε β} {e : ε} :
    (x >>= f) = .error e ↔ x = .error e ∨ ∃ a, x = .ok a ∧ f a = .error e := by
  cases x with
  | error e' =>
    show (Except.error e' = Except.error e) ↔ _
    simp
  | ok a =>
    show f a = Except.error e ↔ _
    simp

/-- The guard fails, with its text. -/
theorem require_eq_error {c : Prop} [Decidable c] {msg : String} {e : Revert} :
    require c msg = .error e ↔ ¬ c ∧ e = .require msg := by
  unfold require
  split
  next h => simp [h]
  next h => simp [h, eq_comm]

/-- No overflow. -/
theorem addU256_eq_ok {a b r : Nat} :
    addU256 a b = .ok r ↔ a + b < 2 ^ 256 ∧ a + b = r := by
  unfold addU256
  exact ite_eq_ok

/-- No underflow. -/
theorem subU256_eq_ok {a b r : Nat} :
    subU256 a b = .ok r ↔ b ≤ a ∧ a - b = r := by
  unfold subU256
  exact ite_eq_ok

/-- No overflow. -/
theorem mulU256_eq_ok {a b r : Nat} :
    mulU256 a b = .ok r ↔ a * b < 2 ^ 256 ∧ a * b = r := by
  unfold mulU256
  exact ite_eq_ok

/-- No division by zero. -/
theorem divU256_eq_ok {a b r : Nat} :
    divU256 a b = .ok r ↔ b ≠ 0 ∧ a / b = r := by
  unfold divU256
  exact ite_eq_ok

theorem addU32_eq_ok {a b r : Nat} :
    addU32 a b = .ok r ↔ a + b < 2 ^ 32 ∧ a + b = r := by
  unfold addU32
  exact ite_eq_ok

theorem ok_bind {a : α} {f : α → Except ε β} : (Except.ok a >>= f) = f a := rfl

/-- Reading a list: every element is read. -/
theorem mapM_eq_some_iff {f : α → Option β} (l : List α) :
    ∀ {r : List β}, l.mapM f = some r ↔ List.Forall₂ (fun a b => f a = some b) l r := by
  induction l with
  | nil =>
    intro r
    simp [eq_comm]
  | cons a l ih =>
    intro r
    simp only [List.mapM_cons, Option.bind_eq_bind, Option.bind_eq_some_iff, Option.pure_def,
      Option.some.injEq, List.forall₂_cons_left_iff, ih]
    constructor
    · intro ⟨b, hb, r', hr', h⟩
      exact ⟨b, r', hb, hr', h.symm⟩
    · intro ⟨b, r', hb, hr', h⟩
      exact ⟨b, hb, r', hr', h.symm⟩

/-- A guard that holds lets the rest of the call run. -/
theorem require_bind {c : Prop} [Decidable c] {msg : String}
    {f : Unit → Except Revert β} (h : c) :
    (require c msg >>= f) = f () := by
  unfold require
  rw [if_pos h]
  rfl

/-! ## §3. Loops: the invariant rule for `foldlM`. -/

/-- **What one iteration preserves, a loop that returns preserves.** -/
theorem foldlM_invariant {σ ι : Type} {f : σ → ι → Except ε σ}
    (P : σ → Prop) (hstep : ∀ s i s', P s → f s i = .ok s' → P s') :
    ∀ (l : List ι) (s s' : σ), P s → l.foldlM f s = .ok s' → P s'
  | [], s, s', hs, h => by
    rw [List.foldlM_nil, pure_eq_ok] at h
    exact h ▸ hs
  | i :: l, s, s', hs, h => by
    rw [List.foldlM_cons, bind_eq_ok] at h
    obtain ⟨s₁, h₁, h₂⟩ := h
    exact foldlM_invariant P hstep l s₁ s' (hstep s i s₁ hs h₁) h₂

/-- **A loop that adds up**: it returns when the sum fits, and then the sum. -/
theorem foldlM_sum_iff {ι : Type} {f : Nat → ι → Except Revert Nat} {w : ι → Nat} (l : List ι) :
    ∀ {acc t : Nat}, (∀ acc, ∀ i ∈ l, acc < 2 ^ 256 → f acc i = addU256 acc (w i)) →
      acc < 2 ^ 256 →
      (l.foldlM f acc = .ok t ↔ acc + (l.map w).sum < 2 ^ 256 ∧ acc + (l.map w).sum = t) := by
  induction l with
  | nil =>
    intro acc t _ hacc
    rw [List.foldlM_nil, pure_eq_ok, List.map_nil, List.sum_nil, Nat.add_zero,
      and_iff_right hacc]
  | cons i l ih =>
    intro acc t hf hacc
    rw [List.foldlM_cons, bind_eq_ok, hf acc i List.mem_cons_self hacc, List.map_cons,
      List.sum_cons]
    have hrest : ∀ acc, ∀ j ∈ l, acc < 2 ^ 256 → f acc j = addU256 acc (w j) :=
      fun acc j hj => hf acc j (List.mem_cons_of_mem i hj)
    constructor
    · intro ⟨acc', hadd, hloop⟩
      obtain ⟨hlt, rfl⟩ := addU256_eq_ok.mp hadd
      obtain ⟨hsum, rfl⟩ := (ih hrest hlt).mp hloop
      omega
    · intro ⟨hsum, ht⟩
      have hlt : acc + w i < 2 ^ 256 := by omega
      refine ⟨acc + w i, addU256_eq_ok.mpr ⟨hlt, rfl⟩, (ih hrest hlt).mpr ?_⟩
      omega

end HZKA.Lib
