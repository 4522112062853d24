/-
  HZKA.Lib.Reentrancy
  ────────────
  **RUNS WITH REENTRANT CALLS.**

  A call that hands control to foreign code in its middle is given by its effect up to
  that point, `enter : ι → σ → Except ε σ`; `sends i` says that `i` is such a call.  While
  it is open, the foreign code may make further calls, and so on to any depth:

    • `call i`  — `i` runs; if it sends, it stays open, and the state before it is kept;
    • `accept`  — the foreign code of the innermost open call returns, the call is done;
    • `reject`  — it fails, and the innermost open call is rolled back.

  `reentrant_invariant`: what `enter` preserves holds at every point of every such run,
  also between the opening and the closing of a call.  `reentrant_invariant_of` and
  `reentrant_invariant_iff` are the forms for runs whose calls meet a condition.
-/
import HZKA.Lib.Run

namespace HZKA.Lib

/-- The state, and the states to fall back to, innermost open call first. -/
structure CallStack (σ : Type) where
  current : σ
  frames : List σ

/-- A call, or how the innermost open one ends. -/
inductive Move (ι : Type) where
  | call (i : ι)
  | accept
  | reject
  deriving DecidableEq, Repr

variable {σ ι ε : Type} (enter : ι → σ → Except ε σ) (sends : ι → Bool)

/-- One move; with no open call, `accept` and `reject` do nothing. -/
def move : Move ι → CallStack σ → Except ε (CallStack σ)
  | .call i, s => do
    let current ← enter i s.current
    return ⟨current, if sends i then s.current :: s.frames else s.frames⟩
  | .accept, s => .ok ⟨s.current, s.frames.tail⟩
  | .reject, s => .ok ⟨s.frames.head?.getD s.current, s.frames.tail⟩

variable {enter sends}

/-- A call that pays opens a frame. -/
theorem move_call_eq_ok {i : ι} {s s' : CallStack σ} :
    move enter sends (.call i) s = .ok s'
      ↔ ∃ current, enter i s.current = .ok current
        ∧ s' = ⟨current, if sends i then s.current :: s.frames else s.frames⟩ := by
  show (enter i s.current >>= _) = _ ↔ _
  rw [bind_eq_ok]
  refine exists_congr (fun current => and_congr_right (fun _ => ?_))
  exact pure_eq_ok.trans eq_comm

/-- A call that hands out no control, at the head of a run. -/
theorem run_call {i : ι} {s s' : σ} {frames : List σ} (hsends : sends i = false)
    (h : enter i s = .ok s') (ms : List (Move ι)) :
    run (move enter sends) ⟨s, frames⟩ (.call i :: ms) = run (move enter sends) ⟨s', frames⟩ ms := by
  have hmove : move enter sends (.call i) ⟨s, frames⟩ = .ok ⟨s', frames⟩ := by
    refine move_call_eq_ok.mpr ⟨s', h, ?_⟩
    rw [hsends]
    rfl
  rw [run_cons, commit_of_ok hmove]

/-- A call whose receiver accepts at once. -/
theorem run_send {i : ι} {s s' : σ} {frames : List σ} (hsends : sends i = true)
    (h : enter i s = .ok s') (ms : List (Move ι)) :
    run (move enter sends) ⟨s, frames⟩ (.call i :: .accept :: ms)
      = run (move enter sends) ⟨s', frames⟩ ms := by
  have hmove : move enter sends (.call i) ⟨s, frames⟩ = .ok ⟨s', s :: frames⟩ := by
    refine move_call_eq_ok.mpr ⟨s', h, ?_⟩
    rw [hsends]
    rfl
  rw [run_cons, commit_of_ok hmove, run_cons]
  rfl

/-- `P` holds now and in every state that may be restored. -/
structure Everywhere (P : σ → Prop) (s : CallStack σ) : Prop where
  current : P s.current
  frames : ∀ f ∈ s.frames, P f

variable (enter) in
/-- A condition on calls, read as one on moves: a call that succeeds meets `C` in the
current state. -/
def OnCalls (C : σ → ι → Prop) (s : CallStack σ) (m : Move ι) : Prop :=
  ∀ i s', m = .call i → enter i s.current = .ok s' → C s.current i

/-- The frames after a call: those before it, and the state it may fall back to. -/
theorem mem_frames_call {i : ι} {s : CallStack σ} {f : σ}
    (h : f ∈ (if sends i then s.current :: s.frames else s.frames)) :
    f = s.current ∨ f ∈ s.frames := by
  by_cases hsends : sends i = true
  · rw [if_pos hsends] at h
    exact List.mem_cons.mp h
  · rw [if_neg hsends] at h
    exact Or.inr h

/-- **One move** keeps what each call meeting `C` keeps. -/
theorem move_everywhere_of {C : σ → ι → Prop} {P : σ → Prop}
    (hstep : ∀ i s s', C s i → P s → enter i s = .ok s' → P s')
    (s : CallStack σ) (m : Move ι) (s' : CallStack σ) (hC : OnCalls enter C s m)
    (hs : Everywhere P s) (h : move enter sends m s = .ok s') : Everywhere P s' := by
  cases m with
  | call i =>
    obtain ⟨current, henter, rfl⟩ := move_call_eq_ok.mp h
    refine ⟨hstep i _ _ (hC i current rfl henter) hs.current henter, ?_⟩
    intro f hf
    rcases mem_frames_call hf with rfl | hf
    · exact hs.current
    · exact hs.frames f hf
  | accept =>
    cases h
    exact ⟨hs.current, fun f hf => hs.frames f (List.mem_of_mem_tail hf)⟩
  | reject =>
    cases h
    refine ⟨?_, fun f hf => hs.frames f (List.mem_of_mem_tail hf)⟩
    cases hframes : s.frames with
    | nil => exact hs.current
    | cons f rest => exact hs.frames f (by rw [hframes]; exact List.mem_cons_self ..)

theorem everywhere_start {P : σ → Prop} {s : σ} (hs : P s) :
    Everywhere P (⟨s, []⟩ : CallStack σ) :=
  ⟨hs, fun _ hf => absurd hf List.not_mem_nil⟩

/-- **Invariant rule under reentrancy, conditional form.** -/
theorem reentrant_invariant_of {C : σ → ι → Prop} {P : σ → Prop}
    (hstep : ∀ i s s', C s i → P s → enter i s = .ok s' → P s') (ms : List (Move ι)) {s : σ}
    (hs : P s) (hC : StepsMeet (move enter sends) (OnCalls enter C) ⟨s, []⟩ ms) :
    P (run (move enter sends) ⟨s, []⟩ ms).current :=
  (run_invariant_of (move_everywhere_of hstep) ms _ (everywhere_start hs) hC).current

/-- **Invariant rule under reentrancy.** -/
theorem reentrant_invariant {P : σ → Prop} (hstep : ∀ i s s', P s → enter i s = .ok s' → P s')
    (ms : List (Move ι)) {s : σ} (hs : P s) : P (run (move enter sends) ⟨s, []⟩ ms).current := by
  refine reentrant_invariant_of (C := fun _ _ => True) (fun i s s' _ => hstep i s s') ms hs ?_
  exact stepsMeet_of_forall (fun _ _ _ _ _ _ _ => trivial) _

/-- A frame of the next stack is the present state or one of its frames. -/
theorem commit_frames {s : CallStack σ} {m : Move ι} {f : σ}
    (hf : f ∈ (commit (move enter sends) s m).frames) : f = s.current ∨ f ∈ s.frames := by
  cases h : move enter sends m s with
  | error e =>
    rw [commit_of_error h] at hf
    exact Or.inr hf
  | ok s' =>
    rw [commit_of_ok h] at hf
    cases m with
    | call i =>
      obtain ⟨current, -, rfl⟩ := move_call_eq_ok.mp h
      exact mem_frames_call hf
    | accept =>
      cases h
      exact Or.inr (List.mem_of_mem_tail hf)
    | reject =>
      cases h
      exact Or.inr (List.mem_of_mem_tail hf)

/-- **Exactness rule under reentrancy**: if a successful call carries `Q` over exactly when it
meets `C`, then `Q` holds at every point of the run exactly when each call meets `C`. -/
theorem reentrant_invariant_iff {C : σ → ι → Prop} {P Q : σ → Prop}
    (hP : ∀ i s s', P s → enter i s = .ok s' → P s')
    (hok : ∀ i s s', P s → Q s → enter i s = .ok s' → (Q s' ↔ C s i))
    (ms : List (Move ι)) {s : σ} (hs : P s) (hQ : Q s) :
    (∀ k, Q (run (move enter sends) ⟨s, []⟩ (ms.take k)).current)
      ↔ StepsMeet (move enter sends) (OnCalls enter C) ⟨s, []⟩ ms := by
  constructor
  · -- along the run the frames are earlier states, so they have `Q` as well
    suffices hall : ∀ (ms : List (Move ι)) (t : CallStack σ), Everywhere P t → Everywhere Q t →
        (∀ k, Q (run (move enter sends) t (ms.take k)).current) →
        StepsMeet (move enter sends) (OnCalls enter C) t ms from
      hall ms _ (everywhere_start hs) (everywhere_start hQ)
    intro ms
    induction ms with
    | nil => exact fun _ _ _ _ => trivial
    | cons m ms ih =>
      intro t hPt hQt hcurrent
      have hnext : Q (commit (move enter sends) t m).current := hcurrent 1
      have hPnext : Everywhere P (commit (move enter sends) t m) := by
        refine commit_invariant (C := fun _ _ => True) (fun t m t' _ => ?_) trivial hPt
        exact move_everywhere_of (C := fun _ _ => True) (fun i s s' _ => hP i s s') t m t'
          (fun _ _ _ _ => trivial)
      refine ⟨?_, ih _ hPnext ⟨hnext, ?_⟩ (fun k => hcurrent (k + 1))⟩
      · intro i s' hm henter
        rw [hm, commit_of_ok (move_call_eq_ok.mpr ⟨s', henter, rfl⟩)] at hnext
        exact (hok i _ s' hPt.current hQt.current henter).mp hnext
      · intro f hf
        rcases commit_frames hf with rfl | hf
        · exact hQt.current
        · exact hQt.frames f hf
  · intro hmeet k
    rw [← List.take_append_drop k ms, stepsMeet_append] at hmeet
    have hboth := reentrant_invariant_of (P := fun s => P s ∧ Q s) (C := C)
      (fun i s s' hC hPQ henter =>
        ⟨hP i s s' hPQ.1 henter, (hok i s s' hPQ.1 hPQ.2 henter).mpr hC⟩)
      (ms.take k) ⟨hs, hQ⟩ hmeet.1
    exact hboth.2

end HZKA.Lib
