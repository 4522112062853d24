/-
  HZKA.Lib.Remote
  ────────────
  **PROGRAMS THAT MAKE REMOTE CALLS.**

  A program runs against answers that depend on when it asks: the `n`-th call of a session
  is answered by the value of a function at `n`, so a result for all functions is a result
  for all patterns of success and failure.  An error ends the program; what it has done by
  then stays done, and is on record in the trace.

    • `remote`, `attempt`, `observe`, `annotate` — a call, a local computation, an entry of
      the trace, an error message; `remote_spec`, `attempt_spec`, `observe_spec` are their
      triples;
    • `outcome_of_triple` — from a triple to the outcome of a run.
-/
import Mathlib

namespace HZKA.Lib

open Std.Do

set_option mvcgen.warning false

/-- The state of a program, the number of calls so far, and what was observed. -/
structure Session (σ ω : Type) where
  state : σ
  clock : Nat
  trace : List ω

/-- Code that calls out and may fail. -/
abbrev RemoteM (σ ω : Type) := ExceptT String (StateM (Session σ ω))

variable {σ ω α : Type}

/-- One remote call. -/
def remote (answer : Nat → Except String α) : RemoteM σ ω α := do
  let s ← get
  set { s with clock := s.clock + 1 }
  match answer s.clock with
  | .ok a => return a
  | .error e => throw e

/-- A local computation that may fail. -/
def attempt (result : Except String α) : RemoteM σ ω α :=
  match result with
  | .ok a => return a
  | .error e => throw e

/-- Note an event. -/
def observe (event : ω) : RemoteM σ ω Unit :=
  modify fun s => { s with trace := s.trace ++ [event] }

/-- The error of `m`, with what was being done. -/
def annotate (message : String) (m : RemoteM σ ω α) : RemoteM σ ω α :=
  tryCatch m fun e => throw (message ++ ": " ++ e)

/-- `s` is `s₀` with the events of `evs` on record; only the clock differs besides. -/
structure Records (s₀ : Session σ ω) (evs : List ω) (s : Session σ ω) : Prop where
  state : s.state = s₀.state
  trace : s.trace = s₀.trace ++ evs

theorem Records.refl (s : Session σ ω) : Records s [] s := ⟨rfl, (List.append_nil _).symm⟩

/-- Traces append. -/
theorem Records.trans {s₀ s₁ s₂ : Session σ ω} {evs evs' : List ω} (h : Records s₀ evs s₁)
    (h' : Records s₁ evs' s₂) : Records s₀ (evs ++ evs') s₂ := by
  refine ⟨h'.state.trans h.state, ?_⟩
  rw [h'.trace, h.trace, List.append_assoc]

/-- Nothing new on record in between. -/
theorem Records.after {s₀ s₁ s₂ : Session σ ω} {evs : List ω} (h : Records s₀ [] s₁)
    (h' : Records s₁ evs s₂) : Records s₀ evs s₂ := h.trans h'

@[spec] theorem remote_spec (answer : Nat → Except String α) (s₀ : Session σ ω) :
    ⦃fun s => ⌜s = s₀⌝⦄ remote answer
    ⦃post⟨fun a s => ⌜answer s₀.clock = .ok a ∧ Records s₀ [] s⌝, fun _ s => ⌜Records s₀ [] s⌝⟩⦄ := by
  mvcgen [remote]
  case vc1.h_1 s hs a hanswer =>
    subst hs
    exact ⟨hanswer, rfl, (List.append_nil _).symm⟩
  case vc2.h_2 s hs e hanswer =>
    subst hs
    exact ⟨rfl, (List.append_nil _).symm⟩

@[spec] theorem attempt_spec (result : Except String α) (s₀ : Session σ ω) :
    ⦃fun s => ⌜s = s₀⌝⦄ attempt result
    ⦃post⟨fun a s => ⌜result = .ok a ∧ Records s₀ [] s⌝, fun _ s => ⌜Records s₀ [] s⌝⟩⦄ := by
  mvcgen [attempt]
  case vc1.h_1 a hresult s hs =>
    subst hs
    exact ⟨trivial, Records.refl s⟩
  case vc2.h_2 e hresult s hs =>
    subst hs
    exact Records.refl s

@[spec] theorem observe_spec (event : ω) (s₀ : Session σ ω) :
    ⦃fun s => ⌜s = s₀⌝⦄ observe event
    ⦃post⟨fun _ s => ⌜Records s₀ [event] s⌝, fun _ _ => ⌜False⌝⟩⦄ := by
  mvcgen [observe]
  case vc1 s hs t =>
    subst hs
    exact ⟨rfl, rfl⟩

/-- **A triple describes the outcome.** -/
theorem outcome_of_triple {m : RemoteM σ ω α} {s₀ : Session σ ω} {Q : α → Session σ ω → Prop}
    {E : Session σ ω → Prop}
    (h : ⦃fun s => ⌜s = s₀⌝⦄ m ⦃post⟨fun a s => ⌜Q a s⌝, fun _ s => ⌜E s⌝⟩⦄)
    {result : Except String α} {s : Session σ ω} (hrun : m.run.run s₀ = (result, s)) :
    match result with
    | .ok a => Q a s
    | .error _ => E s := by
  have hwp := h s₀ rfl
  cases result with
  | ok a =>
    have hpost : (wp⟦m⟧ (post⟨fun a s => ⌜Q a s⌝, fun _ s => ⌜E s⌝⟩) s₀).down ↔ Q a s := by
      simp only [wp, PredTrans.apply_pushExcept, PredTrans.apply_pushArg, hrun]
      exact Iff.rfl
    exact hpost.mp hwp
  | error e =>
    have hpost : (wp⟦m⟧ (post⟨fun a s => ⌜Q a s⌝, fun _ s => ⌜E s⌝⟩) s₀).down ↔ E s := by
      simp only [wp, PredTrans.apply_pushExcept, PredTrans.apply_pushArg, hrun]
      exact Iff.rfl
    exact hpost.mp hwp

end HZKA.Lib
