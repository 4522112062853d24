/-
  HZKA.Lib.ConstraintSystem
  ────────────
  **RANK-1 CONSTRAINT SYSTEMS AND PROGRAMS THAT EMIT THEM.**

  A synthesis program allocates variables, each with the value the prover means it to have, and
  enforces constraints.  Whoever builds a proof may assign other values.  A gadget is a block of
  constraints that is assumed to make its output a function of its inputs.

  Three judgments on programs, each with a rule for every operation and for sequencing:

    • `System.Satisfied` — what an arbitrary assignment has to meet (`satisfied_enforce`, …);
    • `Completes` — the values recorded on the way meet every constraint emitted;
    • `Uniform` — two runs that differ in the recorded values only emit the same system.
-/
import Mathlib.Tactic.Ring

namespace HZKA.Lib

/-! ## §1. Systems. -/

/-- A variable, or the constant one. -/
inductive Variable
  | one
  | input (i : Nat)
  | witness (i : Nat)
  deriving DecidableEq, Repr

/-- An assignment of all variables. -/
structure Assigned (F : Type) where
  input : Nat → F
  witness : Nat → F

/-- A sum of scaled variables. -/
abbrev LinearCombination (F : Type) := List (F × Variable)

/-- A rank-1 constraint, or a gadget of them. -/
inductive Constraint (F : Type)
  /-- `l · r = o`. -/
  | product (l r o : LinearCombination F)
  /-- A block of `size` constraints that make `out` the value of `f` at `x` and `y`. -/
  | gadget (size : Nat) (f : F → F → F) (x y out : Variable)

/-- Variables with their values, and the constraints. -/
structure System (F : Type) where
  inputs : List F
  witnesses : List F
  constraints : List (Constraint F)

/-- A program that allocates and constrains. -/
abbrev Synthesis (F : Type) := StateM (System F)

variable {F : Type}

/-- How many constraints it stands for. -/
def Constraint.size : Constraint F → Nat
  | .product .. => 1
  | .gadget size .. => size

/-- The number of constraints. -/
def System.numConstraints (sys : System F) : Nat := (sys.constraints.map Constraint.size).sum

section Semantics

variable [CommRing F]

/-- The value of a variable. -/
def Variable.value (a : Assigned F) : Variable → F
  | .one => 1
  | .input i => a.input i
  | .witness i => a.witness i

/-- The value of a sum. -/
def LinearCombination.eval (a : Assigned F) (lc : LinearCombination F) : F :=
  (lc.map fun term => term.1 * term.2.value a).sum

namespace Constraint

/-- The constraint under an assignment. -/
def Holds (a : Assigned F) : Constraint F → Prop
  | .product l r o => LinearCombination.eval a l * LinearCombination.eval a r
      = LinearCombination.eval a o
  | .gadget _ f x y out => f (x.value a) (y.value a) = out.value a

/-- The variables in it. -/
def mentions : Constraint F → List Variable
  | .product l r o => (l ++ r ++ o).map Prod.snd
  | .gadget _ _ x y out => [x, y, out]

end Constraint

namespace System

/-- The recorded values. -/
def values (sys : System F) : Assigned F :=
  ⟨fun i => sys.inputs.getD i 0, fun i => sys.witnesses.getD i 0⟩

/-- All constraints hold. -/
def Satisfied (sys : System F) (a : Assigned F) : Prop := ∀ c ∈ sys.constraints, c.Holds a

end System

end Semantics

/-- No variables yet. -/
def System.empty : System F := ⟨[], [], []⟩

/-! ## §2. Operations. -/

/-- A public input; the variable is `.input` of the index returned. -/
def newInput (x : F) : Synthesis F Nat :=
  fun sys => (sys.inputs.length, { sys with inputs := sys.inputs ++ [x] })

/-- A private variable, `.witness` of the index returned. -/
def newWitness (x : F) : Synthesis F Nat :=
  fun sys => (sys.witnesses.length, { sys with witnesses := sys.witnesses ++ [x] })

/-- Add a constraint. -/
def enforce (c : Constraint F) : Synthesis F Unit :=
  fun sys => ((), { sys with constraints := sys.constraints ++ [c] })

theorem run_bind {α β : Type} (m : Synthesis F α) (f : α → Synthesis F β) (sys : System F) :
    (m >>= f) sys = f (m sys).1 (m sys).2 := rfl

theorem run_pure {α : Type} (x : α) (sys : System F) :
    (pure x : Synthesis F α) sys = (x, sys) := rfl

@[simp] theorem numConstraints_newWitness (x : F) (sys : System F) :
    (newWitness x sys).2.numConstraints = sys.numConstraints := rfl

/-- A constraint counts by its size. -/
theorem numConstraints_enforce (c : Constraint F) (sys : System F) :
    (enforce c sys).2.numConstraints = sys.numConstraints + c.size := by
  unfold System.numConstraints
  show ((sys.constraints ++ [c]).map Constraint.size).sum = _
  rw [List.map_append, List.sum_append, List.map_singleton, List.sum_singleton]

section Values

variable [CommRing F]

/-- `(x - y) · 1 = 0`. -/
def equalConstraint (x y : Variable) : Constraint F :=
  .product [(1, x), (-1, y)] [(1, .one)] []

/-- Constrain two variables to be equal. -/
def enforceEqual (x y : Variable) : Synthesis F Unit := enforce (equalConstraint x y)

/-- A new variable with the gadget's value. -/
def applyGadget (size : Nat) (f : F → F → F) (x y : Variable) : Synthesis F Nat := do
  let sys ← get
  let out ← newWitness (f (x.value sys.values) (y.value sys.values))
  enforce (.gadget size f x y (.witness out))
  return out

theorem numConstraints_enforceEqual (x y : Variable) (sys : System F) :
    (enforceEqual x y sys).2.numConstraints = sys.numConstraints + 1 :=
  numConstraints_enforce _ sys

theorem numConstraints_applyGadget (size : Nat) (f : F → F → F) (x y : Variable)
    (sys : System F) :
    (applyGadget size f x y sys).2.numConstraints = sys.numConstraints + size :=
  numConstraints_enforce _ _

/-! ## §3. What an assignment has to meet. -/

@[simp] theorem satisfied_newWitness (x : F) (sys : System F) (a : Assigned F) :
    (newWitness x sys).2.Satisfied a ↔ sys.Satisfied a := Iff.rfl

/-- A constraint more to satisfy. -/
theorem satisfied_enforce (c : Constraint F) (sys : System F) (a : Assigned F) :
    (enforce c sys).2.Satisfied a ↔ sys.Satisfied a ∧ c.Holds a := by
  unfold System.Satisfied
  show (∀ c' ∈ sys.constraints ++ [c], c'.Holds a) ↔ _
  rw [List.forall_mem_append, List.forall_mem_singleton]

theorem holds_equalConstraint (x y : Variable) (a : Assigned F) :
    (equalConstraint x y).Holds a ↔ x.value a = y.value a := by
  simp [equalConstraint, Constraint.Holds, LinearCombination.eval, Variable.value, sub_eq_zero,
    ← sub_eq_add_neg]

/-- An equality more to satisfy. -/
theorem satisfied_enforceEqual (x y : Variable) (sys : System F) (a : Assigned F) :
    (enforceEqual x y sys).2.Satisfied a ↔ sys.Satisfied a ∧ x.value a = y.value a := by
  unfold enforceEqual
  rw [satisfied_enforce, holds_equalConstraint]

/-- A gadget more to satisfy. -/
theorem satisfied_applyGadget (size : Nat) (f : F → F → F) (x y : Variable) (sys : System F)
    (a : Assigned F) :
    (applyGadget size f x y sys).2.Satisfied a ↔ sys.Satisfied a
      ∧ f (x.value a) (y.value a) = a.witness (applyGadget size f x y sys).1 :=
  satisfied_enforce _ _ a

/-! ## §4. The recorded values. -/

section Completes

variable {α β : Type}

/-- The variable has been allocated. -/
def Variable.InScope (sys : System F) : Variable → Prop
  | .one => True
  | .input i => i < sys.inputs.length
  | .witness i => i < sys.witnesses.length

/-- Every constraint is about allocated variables and met by their recorded values. -/
structure System.Recorded (sys : System F) : Prop where
  inScope : ∀ c ∈ sys.constraints, ∀ v ∈ c.mentions, v.InScope sys
  holds : sys.Satisfied sys.values

theorem recorded_empty : (System.empty : System F).Recorded := ⟨nofun, nofun⟩

/-- `v` is allocated with the value `x`. -/
def Knows (sys : System F) (v : Variable) (x : F) : Prop := v.InScope sys ∧ v.value sys.values = x

/-- Variables were added only. -/
structure Extends (sys sys' : System F) : Prop where
  inputs : sys.inputs <+: sys'.inputs
  witnesses : sys.witnesses <+: sys'.witnesses

omit [CommRing F] in
theorem Extends.refl (sys : System F) : Extends sys sys := ⟨List.prefix_rfl, List.prefix_rfl⟩

omit [CommRing F] in
/-- Extensions compose. -/
theorem Extends.trans {s₁ s₂ s₃ : System F} (h : Extends s₁ s₂) (h' : Extends s₂ s₃) :
    Extends s₁ s₃ := ⟨h.inputs.trans h'.inputs, h.witnesses.trans h'.witnesses⟩

theorem getD_extended {l l' : List F} (h : l <+: l') {i : Nat} (hi : i < l.length) :
    l'.getD i 0 = l.getD i 0 := by
  obtain ⟨rest, rfl⟩ := h
  rw [List.getD_eq_getElem?_getD, List.getD_eq_getElem?_getD, List.getElem?_append_left hi]

/-- What was known stays known. -/
theorem Extends.knows {sys sys' : System F} (h : Extends sys sys') {v : Variable} {x : F}
    (hknows : Knows sys v x) : Knows sys' v x := by
  obtain ⟨hscope, hvalue⟩ := hknows
  cases v with
  | one => exact ⟨trivial, hvalue⟩
  | input i =>
    exact ⟨Nat.lt_of_lt_of_le hscope h.inputs.length_le,
      (getD_extended h.inputs hscope).trans hvalue⟩
  | witness i =>
    exact ⟨Nat.lt_of_lt_of_le hscope h.witnesses.length_le,
      (getD_extended h.witnesses hscope).trans hvalue⟩

theorem knows_value {sys : System F} {v : Variable} (h : v.InScope sys) :
    Knows sys v (v.value sys.values) := ⟨h, rfl⟩

/-- Only the variables in it matter. -/
theorem eval_congr {a a' : Assigned F} {lc : LinearCombination F}
    (h : ∀ v ∈ lc.map Prod.snd, v.value a = v.value a') :
    LinearCombination.eval a lc = LinearCombination.eval a' lc := by
  unfold LinearCombination.eval
  refine congrArg List.sum (List.map_congr_left fun term hterm => ?_)
  rw [h term.2 (List.mem_map_of_mem hterm)]

/-- A constraint depends on its variables. -/
theorem holds_congr {a a' : Assigned F} {c : Constraint F}
    (h : ∀ v ∈ c.mentions, v.value a = v.value a') : c.Holds a ↔ c.Holds a' := by
  cases c with
  | product l r o =>
    simp only [Constraint.mentions, List.map_append, List.mem_append] at h
    rw [Constraint.Holds, Constraint.Holds, eval_congr fun v hv => h v (.inl (.inl hv)),
      eval_congr fun v hv => h v (.inl (.inr hv)),
      eval_congr fun v hv => h v (.inr hv)]
  | gadget size f x y out =>
    simp only [Constraint.mentions, List.mem_cons, List.not_mem_nil, or_false] at h
    rw [Constraint.Holds, Constraint.Holds, h x (.inl rfl), h y (.inr (.inl rfl)),
      h out (.inr (.inr rfl))]

/-- The recorded values still satisfy. -/
theorem System.Recorded.extend {sys sys' : System F} (hrec : sys.Recorded)
    (hext : Extends sys sys') (hsame : sys'.constraints = sys.constraints) : sys'.Recorded := by
  constructor
  · intro c hc v hv
    rw [hsame] at hc
    exact (hext.knows (knows_value (hrec.inScope c hc v hv))).1
  · intro c hc
    rw [hsame] at hc
    refine (holds_congr fun v hv => ?_).mp (hrec.holds c hc)
    exact (hext.knows (knows_value (hrec.inScope c hc v hv))).2.symm

/-- From a recorded system `m` leads to a recorded system, with `Q`. -/
def Completes (m : Synthesis F α) (sys : System F) (Q : α → System F → Prop) : Prop :=
  sys.Recorded → (m sys).2.Recorded ∧ Extends sys (m sys).2 ∧ Q (m sys).1 (m sys).2

theorem Completes.pure {sys : System F} {Q : α → System F → Prop} {x : α} (h : Q x sys) :
    Completes (pure x) sys Q := fun hrec => ⟨hrec, Extends.refl sys, h⟩

/-- **The rule for sequencing.** -/
theorem Completes.bind {m : Synthesis F α} {f : α → Synthesis F β} {sys : System F}
    {Q : α → System F → Prop} {R : β → System F → Prop} (hm : Completes m sys Q)
    (hf : ∀ x s, Extends sys s → Q x s → Completes (f x) s R) : Completes (m >>= f) sys R := by
  intro hrec
  obtain ⟨hrec₁, hext₁, hQ⟩ := hm hrec
  obtain ⟨hrec₂, hext₂, hR⟩ := hf _ _ hext₁ hQ hrec₁
  exact ⟨hrec₂, hext₁.trans hext₂, hR⟩

theorem completes_newInput (x : F) (sys : System F) :
    Completes (newInput x) sys fun i s => Knows s (.input i) x := by
  intro hrec
  have hext : Extends sys (newInput x sys).2 := ⟨List.prefix_append _ _, List.prefix_rfl⟩
  refine ⟨hrec.extend hext rfl, hext, ?_, ?_⟩
  · show sys.inputs.length < (sys.inputs ++ [x]).length
    rw [List.length_append, List.length_singleton]
    omega
  · show (sys.inputs ++ [x]).getD sys.inputs.length 0 = x
    simp

/-- A new variable has its value. -/
theorem completes_newWitness (x : F) (sys : System F) :
    Completes (newWitness x) sys fun i s => Knows s (.witness i) x := by
  intro hrec
  have hext : Extends sys (newWitness x sys).2 := ⟨List.prefix_rfl, List.prefix_append _ _⟩
  refine ⟨hrec.extend hext rfl, hext, ?_, ?_⟩
  · show sys.witnesses.length < (sys.witnesses ++ [x]).length
    rw [List.length_append, List.length_singleton]
    omega
  · show (sys.witnesses ++ [x]).getD sys.witnesses.length 0 = x
    simp

/-- A constraint that holds may be added. -/
theorem completes_enforce {c : Constraint F} {sys : System F}
    (hscope : ∀ v ∈ c.mentions, v.InScope sys) (hholds : c.Holds sys.values) :
    Completes (enforce c) sys fun _ _ => True := by
  intro hrec
  refine ⟨⟨?_, ?_⟩, ⟨List.prefix_rfl, List.prefix_rfl⟩, trivial⟩
  · show ∀ c' ∈ sys.constraints ++ [c], ∀ v ∈ c'.mentions, v.InScope sys
    rw [List.forall_mem_append, List.forall_mem_singleton]
    exact ⟨hrec.inScope, hscope⟩
  · exact (satisfied_enforce c sys _).mpr ⟨hrec.holds, hholds⟩

/-- Equal variables may be equated. -/
theorem completes_enforceEqual {u v : Variable} {x : F} {sys : System F} (hu : Knows sys u x)
    (hv : Knows sys v x) : Completes (enforceEqual u v) sys fun _ _ => True := by
  refine completes_enforce ?_ ((holds_equalConstraint u v _).mpr (hu.2.trans hv.2.symm))
  intro v' hv'
  simp only [equalConstraint, Constraint.mentions, List.map_append, List.map_cons, List.map_nil,
    List.append_nil, List.mem_append, List.mem_cons, List.not_mem_nil, or_false] at hv'
  rcases hv' with (rfl | rfl) | rfl
  · exact hu.1
  · exact hv.1
  · exact trivial

/-- The gadget's output has its value. -/
theorem completes_applyGadget (size : Nat) (f : F → F → F) {u v : Variable} {x y : F}
    {sys : System F} (hu : Knows sys u x) (hv : Knows sys v y) :
    Completes (applyGadget size f u v) sys fun out s => Knows s (.witness out) (f x y) := by
  refine Completes.bind (Q := fun sys' s => sys' = sys ∧ s = sys)
    (fun hrec => ⟨hrec, Extends.refl sys, rfl, rfl⟩) ?_
  rintro _ _ _ ⟨rfl, rfl⟩
  rw [hu.2, hv.2]
  refine (completes_newWitness (f x y) _).bind fun out s hext hout => ?_
  refine (completes_enforce ?_ ?_).bind fun _ s' hext' _ => Completes.pure (hext'.knows hout)
  · intro v' hv'
    simp only [Constraint.mentions, List.mem_cons, List.not_mem_nil, or_false] at hv'
    rcases hv' with rfl | rfl | rfl
    · exact (hext.knows hu).1
    · exact (hext.knows hv).1
    · exact hout.1
  · show f (u.value s.values) (v.value s.values) = Variable.value s.values (.witness out)
    rw [(hext.knows hu).2, (hext.knows hv).2, hout.2]

end Completes

end Values

/-! ## §5. The emitted system. -/

section Uniform

variable {α β : Type}

/-- The same system but for the recorded values. -/
structure SameShape (sys sys' : System F) : Prop where
  inputs : sys.inputs.length = sys'.inputs.length
  witnesses : sys.witnesses.length = sys'.witnesses.length
  constraints : sys.constraints = sys'.constraints

theorem SameShape.refl (sys : System F) : SameShape sys sys := ⟨rfl, rfl, rfl⟩

theorem SameShape.numConstraints {sys sys' : System F} (h : SameShape sys sys') :
    sys.numConstraints = sys'.numConstraints := by
  unfold System.numConstraints
  rw [h.constraints]

/-- Satisfaction depends on the shape only. -/
theorem SameShape.satisfied [CommRing F] {sys sys' : System F} (h : SameShape sys sys')
    {a : Assigned F} :
    sys.Satisfied a ↔ sys'.Satisfied a := by
  unfold System.Satisfied
  rw [h.constraints]

/-- From systems of one shape, the two programs return the same variables and lead to systems
of one shape. -/
def Uniform (m m' : Synthesis F α) : Prop :=
  ∀ sys sys' : System F, SameShape sys sys' →
    (m sys).1 = (m' sys').1 ∧ SameShape (m sys).2 (m' sys').2

theorem Uniform.pure (x : α) : Uniform (F := F) (pure x) (pure x) := fun _ _ h => ⟨rfl, h⟩

/-- **The rule for sequencing.** -/
theorem Uniform.bind {m m' : Synthesis F α} {f f' : α → Synthesis F β} (hm : Uniform m m')
    (hf : ∀ x, Uniform (f x) (f' x)) : Uniform (m >>= f) (m' >>= f') := by
  intro sys sys' h
  obtain ⟨hresult, hshape⟩ := hm sys sys' h
  rw [run_bind, run_bind, ← hresult]
  exact hf _ _ _ hshape

theorem uniform_newInput (x x' : F) : Uniform (newInput x) (newInput x') := by
  intro sys sys' h
  refine ⟨h.inputs, ?_, h.witnesses, h.constraints⟩
  show (sys.inputs ++ [x]).length = (sys'.inputs ++ [x']).length
  rw [List.length_append, List.length_append, h.inputs]
  rfl

theorem uniform_newWitness (x x' : F) : Uniform (newWitness x) (newWitness x') := by
  intro sys sys' h
  refine ⟨h.witnesses, h.inputs, ?_, h.constraints⟩
  show (sys.witnesses ++ [x]).length = (sys'.witnesses ++ [x']).length
  rw [List.length_append, List.length_append, h.witnesses]
  rfl

theorem uniform_enforce (c : Constraint F) : Uniform (enforce c) (enforce c) := by
  intro sys sys' h
  refine ⟨rfl, h.inputs, h.witnesses, ?_⟩
  show sys.constraints ++ [c] = sys'.constraints ++ [c]
  rw [h.constraints]

theorem uniform_applyGadget [CommRing F] (size : Nat) (f : F → F → F) (x y : Variable) :
    Uniform (applyGadget size f x y) (applyGadget size f x y) := by
  intro sys sys' h
  -- the recorded value of the output is all that differs
  exact Uniform.bind (uniform_newWitness (f (x.value sys.values) (y.value sys.values))
    (f (x.value sys'.values) (y.value sys'.values)))
    (fun out => Uniform.bind (uniform_enforce (.gadget size f x y (.witness out)))
      fun _ => Uniform.pure out) sys sys' h

end Uniform

end HZKA.Lib
