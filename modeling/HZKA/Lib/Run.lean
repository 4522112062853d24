/-
  HZKA.Lib.Run
  ────────────
  **RUNS OF A TRANSACTION SYSTEM.**

  A system is a transaction function `exec : ι → σ → Except ε σ`.  A
  transaction that fails leaves the state as it was (`commit`), so EVERY list
  of transactions is a run, whatever order the parties submit them in:

      run exec s ts = the state after the transactions `ts`, from `s`

  `StepsMeet C` says that each transaction of a run meets the condition `C`
  in the state it is executed in.  The rules everything else uses:

    • `run_invariant` — kept by every successful transaction, hence in every
      state reached;
    • `run_invariant_of` — kept by every successful transaction that meets
      `C`, hence in every state reached by a run whose steps all meet `C`;
    • `run_history` — the same for a property of the state and of the
      transactions that led to it.
-/
import HZKA.Lib.Revert
import Mathlib.Data.List.Induction

namespace HZKA.Lib

variable {σ ι ε : Type} (exec : ι → σ → Except ε σ)

/-! ## §1. Committing a transaction, running a list of them. -/

/-- The state after submitting `i`: a failed transaction changes nothing. -/
def commit (s : σ) (i : ι) : σ :=
  match exec i s with
  | .ok s' => s'
  | .error _ => s

/-- The state after submitting the transactions `ts` in order. -/
def run (s : σ) (ts : List ι) : σ :=
  ts.foldl (commit exec) s

variable {exec}

/-- A success moves the state. -/
theorem commit_of_ok {s s' : σ} {i : ι} (h : exec i s = .ok s') :
    commit exec s i = s' := by
  unfold commit
  rw [h]

/-- A failure leaves it. -/
theorem commit_of_error {s : σ} {i : ι} {e : ε} (h : exec i s = .error e) :
    commit exec s i = s := by
  unfold commit
  rw [h]

/-- A transaction that succeeds returns the committed state. -/
theorem exec_eq_ok_commit {s : σ} {i : ι} (h : (exec i s).isOk = true) :
    exec i s = .ok (commit exec s i) := by
  cases hx : exec i s with
  | ok s' => rw [commit_of_ok hx]
  | error e =>
    rw [hx] at h
    exact absurd h (by simp [Except.isOk, Except.toBool])

@[simp] theorem run_nil (s : σ) : run exec s [] = s := rfl

@[simp] theorem run_cons (s : σ) (i : ι) (ts : List ι) :
    run exec s (i :: ts) = run exec (commit exec s i) ts := rfl

/-- A run in two parts. -/
theorem run_append (s : σ) (ts us : List ι) :
    run exec s (ts ++ us) = run exec (run exec s ts) us := by
  unfold run
  rw [List.foldl_append]

/-- The last transaction of a run. -/
theorem run_snoc (s : σ) (ts : List ι) (i : ι) :
    run exec s (ts ++ [i]) = commit exec (run exec s ts) i := by
  rw [run_append, run_cons, run_nil]

/-! ## §2. Runs whose steps meet a condition. -/

variable (exec) in
/-- Each transaction of the run meets `C` in the state it executes in. -/
def StepsMeet (C : σ → ι → Prop) : σ → List ι → Prop
  | _, [] => True
  | s, i :: ts => C s i ∧ StepsMeet C (commit exec s i) ts

/-- A condition in two parts. -/
theorem stepsMeet_append {C : σ → ι → Prop} :
    ∀ (s : σ) (ts us : List ι),
      StepsMeet exec C s (ts ++ us)
        ↔ StepsMeet exec C s ts ∧ StepsMeet exec C (run exec s ts) us
  | s, [], us => by simp [StepsMeet]
  | s, i :: ts, us => by
    show (C s i ∧ StepsMeet exec C (commit exec s i) (ts ++ us)) ↔ _
    rw [stepsMeet_append (commit exec s i) ts us, run_cons]
    simp only [StepsMeet, and_assoc]

/-- A condition on a prefix. -/
theorem stepsMeet_take {C : σ → ι → Prop} {s : σ} {ts : List ι} (h : StepsMeet exec C s ts)
    (k : Nat) : StepsMeet exec C s (ts.take k) := by
  rw [← List.take_append_drop k ts, stepsMeet_append] at h
  exact h.1

/-- A condition on the transactions alone. -/
theorem stepsMeet_of_forall {C : σ → ι → Prop} {ts : List ι} (h : ∀ i ∈ ts, ∀ s, C s i) (s : σ) :
    StepsMeet exec C s ts := by
  induction ts generalizing s with
  | nil => trivial
  | cons i ts ih =>
    refine ⟨h i List.mem_cons_self s, ih ?_ _⟩
    intro j hj
    exact h j (List.mem_cons_of_mem _ hj)

/-- A condition on the transactions and the runs before them. -/
theorem stepsMeet_of_split {C : σ → ι → Prop} {ts : List ι} {s : σ}
    (h : ∀ before i after, ts = before ++ i :: after → C (run exec s before) i) :
    StepsMeet exec C s ts := by
  induction ts generalizing s with
  | nil => trivial
  | cons i ts ih =>
    refine ⟨h [] i ts rfl, ih ?_⟩
    intro before j after hts
    exact h (i :: before) j after (by rw [hts, List.cons_append])

/-! ## §3. The invariant rules. -/

/-- A property kept by each successful transaction meeting `C` is kept by
committing it. -/
theorem commit_invariant {C : σ → ι → Prop} {P : σ → Prop}
    (hstep : ∀ s i s', C s i → P s → exec i s = .ok s' → P s')
    {s : σ} {i : ι} (hC : C s i) (hs : P s) : P (commit exec s i) := by
  cases h : exec i s with
  | ok s' =>
    rw [commit_of_ok h]
    exact hstep s i s' hC hs h
  | error e =>
    rw [commit_of_error h]
    exact hs

/-- **Invariant rule, conditional form.** -/
theorem run_invariant_of {C : σ → ι → Prop} {P : σ → Prop}
    (hstep : ∀ s i s', C s i → P s → exec i s = .ok s' → P s') :
    ∀ (ts : List ι) (s : σ), P s → StepsMeet exec C s ts → P (run exec s ts)
  | [], _, hs, _ => hs
  | _ :: ts, _, hs, hC =>
    run_invariant_of hstep ts _ (commit_invariant hstep hC.1 hs) hC.2

/-- **Invariant rule**: no condition on the steps. -/
theorem run_invariant {P : σ → Prop}
    (hstep : ∀ s i s', P s → exec i s = .ok s' → P s')
    (ts : List ι) {s : σ} (hs : P s) : P (run exec s ts) := by
  refine run_invariant_of (C := fun _ _ => True) (fun s i s' _ => hstep s i s') ts s hs ?_
  exact stepsMeet_of_forall (fun _ _ _ => trivial) s

/-- **History rule**: a property of the transactions so far and the state they lead to, kept
by one more transaction, successful or not. -/
theorem run_history {P : List ι → σ → Prop} {s : σ} (hnil : P [] s)
    (hok : ∀ ts i s', P ts (run exec s ts) → exec i (run exec s ts) = .ok s' → P (ts ++ [i]) s')
    (herr : ∀ ts i, P ts (run exec s ts) → P (ts ++ [i]) (run exec s ts)) (ts : List ι) :
    P ts (run exec s ts) := by
  induction ts using List.reverseRec with
  | nil => exact hnil
  | append_singleton ts i ih =>
    rw [run_snoc]
    cases h : exec i (run exec s ts) with
    | ok s' =>
      rw [commit_of_ok h]
      exact hok ts i s' ih h
    | error e =>
      rw [commit_of_error h]
      exact herr ts i ih

/-- Two places of one list: the same, or one before the other. -/
theorem split_cases {ts before before' after after' : List ι} {i i' : ι}
    (h : ts = before ++ i :: after) (h' : ts = before' ++ i' :: after') :
    (before = before' ∧ i = i') ∨ (∃ mid, before' = before ++ i :: mid)
      ∨ ∃ mid, before = before' ++ i' :: mid := by
  rcases List.append_eq_append_iff.mp (h.symm.trans h') with ⟨gap, hb, ha⟩ | ⟨gap, hb, ha⟩
  · cases gap with
    | nil =>
      refine .inl ⟨?_, (List.cons.inj ha).1⟩
      rw [hb, List.append_nil]
    | cons j mid =>
      obtain ⟨rfl, -⟩ := List.cons.inj ha
      exact .inr (.inl ⟨mid, hb⟩)
  · cases gap with
    | nil =>
      refine .inl ⟨?_, (List.cons.inj ha).1.symm⟩
      rw [hb, List.append_nil]
    | cons j mid =>
      obtain ⟨rfl, -⟩ := List.cons.inj ha
      exact .inr (.inr ⟨mid, hb⟩)

variable (exec) in
/-- Every transaction of the run succeeds. -/
def Taken : σ → List ι → Prop :=
  StepsMeet exec (fun s i => (exec i s).isOk = true)

/-- **Two runs of one list**: a relation kept whenever the first run's transaction succeeds
holds between the final states, if all of them do.  The second run may fail where it likes. -/
theorem run_relation {R : σ → σ → Prop} (ts : List ι)
    (hstep : ∀ i ∈ ts, ∀ s t s', R s t → exec i s = .ok s' → R s' (commit exec t i)) :
    ∀ {s t : σ}, R s t → Taken exec s ts → R (run exec s ts) (run exec t ts) := by
  induction ts with
  | nil =>
    intro s t hst _
    exact hst
  | cons i ts ih =>
    intro s t hst htaken
    rw [run_cons, run_cons]
    apply ih
    · intro j hj
      exact hstep j (List.mem_cons_of_mem i hj)
    · exact hstep i List.mem_cons_self s t _ hst (exec_eq_ok_commit htaken.1)
    · exact htaken.2

/-! ## §4. Quantities accumulated by the successful transactions. -/

variable (exec) in
/-- The sum of `w` over the transactions of the run that succeed. -/
def tally (w : ι → Nat) : σ → List ι → Nat
  | _, [] => 0
  | s, i :: ts =>
    (match exec i s with | .ok _ => w i | .error _ => 0)
      + tally w (commit exec s i) ts

/-- A successful transaction adds its own share. -/
theorem tally_cons_ok {w : ι → Nat} {s s' : σ} {i : ι} (h : exec i s = .ok s') (ts : List ι) :
    tally exec w s (i :: ts) = w i + tally exec w s' ts := by
  rw [tally, h, commit_of_ok h]

/-- A tally in two parts. -/
theorem tally_append (w : ι → Nat) :
    ∀ (s : σ) (ts us : List ι),
      tally exec w s (ts ++ us) = tally exec w s ts + tally exec w (run exec s ts) us
  | s, [], us => by simp [tally]
  | s, i :: ts, us => by
    rw [List.cons_append, tally, tally, run_cons, tally_append w (commit exec s i) ts us,
      Nat.add_assoc]

/-- **Accumulation rule**: a relation between a running total and the state that
each successful transaction meeting `C` carries over holds with the tally of the
whole run. -/
theorem run_tally {C : σ → ι → Prop} {w : ι → Nat} {R : Nat → σ → Prop}
    (hstep : ∀ n s i s', C s i → R n s → exec i s = .ok s' → R (n + w i) s') :
    ∀ (ts : List ι) (n : Nat) (s : σ), R n s → StepsMeet exec C s ts →
      R (n + tally exec w s ts) (run exec s ts)
  | [], _, _, hR, _ => hR
  | i :: ts, n, s, hR, hC => by
    rw [run_cons, tally, ← Nat.add_assoc]
    refine run_tally hstep ts _ _ ?_ hC.2
    cases h : exec i s with
    | ok s' =>
      rw [commit_of_ok h]
      exact hstep n s i s' hC.1 hR h
    | error e =>
      rw [commit_of_error h]
      exact hR

/-- **Exactness rule**: if a successful transaction carries `R` over exactly when
it meets `C`, and a failed one always meets `C`, then `R` holds after every number
of transactions exactly when each of them meets `C`. -/
theorem run_tally_iff {C : σ → ι → Prop} {w : ι → Nat} {R : Nat → σ → Prop} {P : σ → Prop}
    (hP : ∀ s i s', P s → exec i s = .ok s' → P s')
    (hok : ∀ n s i s', P s → R n s → exec i s = .ok s' → (R (n + w i) s' ↔ C s i))
    (herr : ∀ s i e, P s → exec i s = .error e → C s i) :
    ∀ (ts : List ι) (n : Nat) (s : σ), P s → R n s →
      ((∀ k, R (n + tally exec w s (ts.take k)) (run exec s (ts.take k)))
        ↔ StepsMeet exec C s ts)
  | [], _, _, _, hR => by
    simp only [List.take_nil]
    exact ⟨fun _ => trivial, fun _ _ => hR⟩
  | i :: ts, n, s, hs, hR => by
    cases h : exec i s with
    | error e =>
      have ih := run_tally_iff hP hok herr ts n s hs hR
      have hcommit := commit_of_error h
      constructor
      · intro hall
        refine ⟨herr s i e hs h, ?_⟩
        rw [hcommit]
        refine ih.mp (fun k => ?_)
        have hk := hall (k + 1)
        simpa [tally, h, hcommit] using hk
      · rintro ⟨_, hrest⟩ k
        rw [hcommit] at hrest
        cases k with
        | zero => exact hR
        | succ k => simpa [tally, h, hcommit] using ih.mpr hrest k
    | ok s' =>
      have hcommit := commit_of_ok h
      have hs' := hP s i s' hs h
      constructor
      · intro hall
        have hone : R (n + w i) s' := by simpa [tally, h, hcommit] using hall 1
        refine ⟨(hok n s i s' hs hR h).mp hone, ?_⟩
        rw [hcommit]
        refine (run_tally_iff hP hok herr ts (n + w i) s' hs' hone).mp (fun k => ?_)
        have hk := hall (k + 1)
        simpa [tally, h, hcommit, Nat.add_assoc] using hk
      · rintro ⟨hC, hrest⟩ k
        rw [hcommit] at hrest
        have hone : R (n + w i) s' := (hok n s i s' hs hR h).mpr hC
        have ih := run_tally_iff hP hok herr ts (n + w i) s' hs' hone
        cases k with
        | zero => exact hR
        | succ k => simpa [tally, h, hcommit, Nat.add_assoc] using ih.mpr hrest k

/-- **Exactness rule, for runs that stay within `P`.** -/
theorem run_invariant_iff_within {C : σ → ι → Prop} {Q P : σ → Prop}
    (hok : ∀ s i s', P s → Q s → exec i s = .ok s' → (Q s' ↔ C s i))
    (herr : ∀ s i e, exec i s = .error e → C s i) (ts : List ι) {s : σ}
    (hP : ∀ k, P (run exec s (ts.take k))) (hQ : Q s) :
    (∀ k, Q (run exec s (ts.take k))) ↔ StepsMeet exec C s ts := by
  induction ts generalizing s with
  | nil =>
    simp only [List.take_nil]
    exact ⟨fun _ => trivial, fun _ _ => hQ⟩
  | cons i ts ih =>
    have hP' : ∀ k, P (run exec (commit exec s i) (ts.take k)) := fun k => hP (k + 1)
    -- the first transaction decides whether `Q` still holds
    have hone : Q (commit exec s i) ↔ C s i := by
      cases h : exec i s with
      | ok s' =>
        rw [commit_of_ok h]
        exact hok s i s' (hP 0) hQ h
      | error e =>
        rw [commit_of_error h]
        exact iff_of_true hQ (herr s i e h)
    constructor
    · intro hall
      have hnext : Q (commit exec s i) := hall 1
      exact ⟨hone.mp hnext, (ih hP' hnext).mp (fun k => hall (k + 1))⟩
    · rintro ⟨hC, hrest⟩ k
      cases k with
      | zero => exact hQ
      | succ k => exact (ih hP' (hone.mpr hC)).mpr hrest k

/-- **Exactness rule, without a running total.** -/
theorem run_invariant_iff {C : σ → ι → Prop} {Q P : σ → Prop}
    (hP : ∀ s i s', P s → exec i s = .ok s' → P s')
    (hok : ∀ s i s', P s → Q s → exec i s = .ok s' → (Q s' ↔ C s i))
    (herr : ∀ s i e, exec i s = .error e → C s i)
    (ts : List ι) {s : σ} (hs : P s) (hQ : Q s) :
    (∀ k, Q (run exec s (ts.take k))) ↔ StepsMeet exec C s ts :=
  run_invariant_iff_within hok herr ts (fun k => run_invariant hP (ts.take k) hs) hQ

/-- A prefix of one more. -/
theorem forall_take_snoc {p : List ι → Prop} (ts : List ι) (i : ι) :
    (∀ k, p ((ts ++ [i]).take k)) ↔ (∀ k, p (ts.take k)) ∧ p (ts ++ [i]) := by
  constructor
  · intro h
    constructor
    · intro k
      have hk := h (min k ts.length)
      rw [List.take_append_of_le_length (Nat.min_le_right ..)] at hk
      rwa [List.take_eq_take_min]
    · have hall := h (ts.length + 1)
      rwa [List.take_of_length_le (by simp)] at hall
  · rintro ⟨hpre, hall⟩ k
    rcases Nat.lt_or_ge ts.length k with hk | hk
    · rw [List.take_of_length_le (by simp; omega)]
      exact hall
    · rw [List.take_append_of_le_length hk]
      exact hpre k

/-- **Exactness rule, for a property of the transactions so far and their state.** -/
theorem run_history_iff {C : σ → ι → Prop} {Q : List ι → σ → Prop} {s : σ} (hnil : Q [] s)
    (hok : ∀ ts i s', Q ts (run exec s ts) → exec i (run exec s ts) = .ok s' →
      (Q (ts ++ [i]) s' ↔ C (run exec s ts) i))
    (hskip : ∀ ts i, Q ts (run exec s ts) → Q (ts ++ [i]) (run exec s ts))
    (herr : ∀ s i e, exec i s = .error e → C s i) (ts : List ι) :
    (∀ k, Q (ts.take k) (run exec s (ts.take k))) ↔ StepsMeet exec C s ts := by
  induction ts using List.reverseRec with
  | nil =>
    simp only [List.take_nil]
    exact ⟨fun _ => trivial, fun _ _ => hnil⟩
  | append_singleton ts i ih =>
    rw [forall_take_snoc (p := fun us => Q us (run exec s us)), ih, stepsMeet_append]
    apply and_congr_right
    intro hmeets
    have hQ : Q ts (run exec s ts) := by
      have hall := ih.mpr hmeets ts.length
      rwa [List.take_length] at hall
    show _ ↔ C (run exec s ts) i ∧ True
    rw [and_true, run_snoc]
    cases h : exec i (run exec s ts) with
    | ok s' =>
      rw [commit_of_ok h]
      exact hok ts i s' hQ h
    | error e =>
      rw [commit_of_error h]
      exact iff_of_true (hskip ts i hQ) (herr _ i e h)

end HZKA.Lib
