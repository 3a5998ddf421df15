import Mathlib.Data.List.Basic

set_option autoImplicit false

/-!
# Runs of a deterministic event machine

A machine is a function `step : σ → ε → σ`; a run is a list of events folded over a first
state.  An event that is not enabled leaves the state as it is, so an interleaving of several
parties is a list of their events in some order.  This file has the two quantifiers over a run
(`Run.Always` over the states it passes through, `Run.EachStep` over its steps, each with the
state it is taken from) and the rules that carry a fact of one step to a fact of a whole run.

## Main definitions

* `Run.exec` — the state a list of events leads to.
* `Run.Always` — a predicate holds in every state of the run, the first and the last included.
* `Run.EachStep` — a predicate holds of every step of the run and the state it is taken from.

## Main results

* `Run.always_of_step` — an invariant of every step that meets a side condition is an invariant
  of every run whose steps all meet it.
* `Run.eachStep_iff` — two conditions that agree in good states, where the first keeps the state
  good, hold of the same runs.
* `Run.always_iff_eachStep`, `Run.always_iff_eachStep_of` — if, from a good state, a step leads to a
  good state exactly when a condition holds, then a run stays good exactly when every step of it
  meets the condition.
* `Run.always_iff_last` — what no step makes good holds throughout exactly when it holds at the end.
* `Run.always_iff_eachStep_of_good` — the same, where being good is not enough to know what the next
  step does.
* `Run.always_and_eachStep_iff` — the same, where a step has to do as it should besides.
-/

namespace Run

variable {σ ε : Type*} (step : σ → ε → σ)

/-- The state that the events `es`, taken in order from `s`, lead to. -/
def exec (s : σ) (es : List ε) : σ := es.foldl step s

@[simp] lemma exec_nil (s : σ) : exec step s [] = s := rfl

@[simp] lemma exec_cons (s : σ) (e : ε) (es : List ε) :
    exec step s (e :: es) = exec step (step s e) es := rfl

lemma exec_append (s : σ) (es fs : List ε) :
    exec step s (es ++ fs) = exec step (exec step s es) fs := by
  simp [exec, List.foldl_append]

/-- `P` holds in every state that the run passes through. -/
def Always (P : σ → Prop) : σ → List ε → Prop
  | s, [] => P s
  | s, e :: es => P s ∧ Always P (step s e) es

/-- `C` holds of every step of the run, with the state the step is taken from. -/
def EachStep (C : σ → ε → Prop) : σ → List ε → Prop
  | _, [] => True
  | s, e :: es => C s e ∧ EachStep C (step s e) es

@[simp] lemma always_nil (P : σ → Prop) (s : σ) : Always step P s [] ↔ P s := Iff.rfl

@[simp] lemma always_cons (P : σ → Prop) (s : σ) (e : ε) (es : List ε) :
    Always step P s (e :: es) ↔ P s ∧ Always step P (step s e) es := Iff.rfl

@[simp] lemma eachStep_nil (C : σ → ε → Prop) (s : σ) : EachStep step C s [] := trivial

@[simp] lemma eachStep_cons (C : σ → ε → Prop) (s : σ) (e : ε) (es : List ε) :
    EachStep step C s (e :: es) ↔ C s e ∧ EachStep step C (step s e) es := Iff.rfl

instance decidableAlways (P : σ → Prop) [DecidablePred P] :
    ∀ (s : σ) (es : List ε), Decidable (Always step P s es)
  | s, [] => inferInstanceAs (Decidable (P s))
  | s, e :: es =>
    have := decidableAlways P (step s e) es
    inferInstanceAs (Decidable (P s ∧ Always step P (step s e) es))

instance decidableEachStep (C : σ → ε → Prop) [∀ s e, Decidable (C s e)] :
    ∀ (s : σ) (es : List ε), Decidable (EachStep step C s es)
  | _, [] => inferInstanceAs (Decidable True)
  | s, e :: es =>
    have := decidableEachStep C (step s e) es
    inferInstanceAs (Decidable (C s e ∧ EachStep step C (step s e) es))

variable {step}

/-- The first state of a run is one of its states. -/
lemma Always.head {P : σ → Prop} {s : σ} {es : List ε} (h : Always step P s es) : P s := by
  cases es with
  | nil => exact h
  | cons e es => exact h.1

/-- The last state of a run is one of its states. -/
lemma Always.last {P : σ → Prop} {s : σ} {es : List ε} (h : Always step P s es) :
    P (exec step s es) := by
  induction es generalizing s with
  | nil => exact h
  | cons e es ih => exact ih h.2

/-- A run in two parts stays good exactly when both parts do. -/
lemma always_append {P : σ → Prop} {s : σ} {es fs : List ε} :
    Always step P s (es ++ fs) ↔ Always step P s es ∧ Always step P (exec step s es) fs := by
  induction es generalizing s with
  | nil => exact ⟨fun h => ⟨h.head, h⟩, And.right⟩
  | cons e es ih =>
    rw [List.cons_append, always_cons, always_cons, ih, and_assoc]
    rfl

/-- Every step meets the trivial condition. -/
lemma eachStep_true (s : σ) (es : List ε) : EachStep step (fun _ _ => True) s es := by
  induction es generalizing s with
  | nil => trivial
  | cons e es ih => exact ⟨trivial, ih _⟩

/-- What holds in every state of a run can be weakened. -/
lemma Always.imp {P Q : σ → Prop} (hPQ : ∀ s, P s → Q s) {s : σ} {es : List ε}
    (h : Always step P s es) : Always step Q s es := by
  induction es generalizing s with
  | nil => exact hPQ s h
  | cons e es ih => exact ⟨hPQ s h.1, ih h.2⟩

/-- What holds of every step of a run can be weakened. -/
lemma EachStep.imp {C D : σ → ε → Prop} (hCD : ∀ s e, C s e → D s e) {s : σ} {es : List ε}
    (h : EachStep step C s es) : EachStep step D s es := by
  induction es generalizing s with
  | nil => trivial
  | cons e es ih => exact ⟨hCD s e h.1, ih h.2⟩

/-- A fact of every event of a run joins what holds of its steps. -/
lemma EachStep.and_mem {C : σ → ε → Prop} {D : ε → Prop} {s : σ} {es : List ε}
    (h : EachStep step C s es) (hD : ∀ e ∈ es, D e) :
    EachStep step (fun s e => D e ∧ C s e) s es := by
  induction es generalizing s with
  | nil => trivial
  | cons e es ih =>
    exact ⟨⟨hD e List.mem_cons_self, h.1⟩, ih h.2 fun x hx => hD x (List.mem_cons_of_mem _ hx)⟩

/-- **Invariant rule**: an invariant that every step meeting `C` preserves holds in every state
of a run whose steps all meet `C`. -/
theorem always_of_step {P : σ → Prop} {C : σ → ε → Prop}
    (hstep : ∀ s e, P s → C s e → P (step s e)) {s : σ} {es : List ε}
    (h₀ : P s) (hC : EachStep step C s es) : Always step P s es := by
  induction es generalizing s with
  | nil => exact h₀
  | cons e es ih => exact ⟨h₀, ih (hstep s e h₀ hC.1) hC.2⟩

/-- **Invariant rule for steps**: what follows from an invariant and the condition `C` holds of every
step of a run whose steps all meet `C`, when these steps preserve the invariant. -/
theorem eachStep_of_step {P : σ → Prop} {C D : σ → ε → Prop}
    (hstep : ∀ s e, P s → C s e → P (step s e)) (hD : ∀ s e, P s → C s e → D s e) {s : σ}
    {es : List ε} (h₀ : P s) (hC : EachStep step C s es) : EachStep step D s es := by
  induction es generalizing s with
  | nil => trivial
  | cons e es ih => exact ⟨hD s e h₀ hC.1, ih (hstep s e h₀ hC.1) hC.2⟩

/-- **Unconditional invariant rule**: what every step preserves holds in the last state. -/
theorem exec_of_step {P : σ → Prop} (hstep : ∀ s e, P s → P (step s e)) {s : σ}
    (h₀ : P s) (es : List ε) : P (exec step s es) := by
  induction es generalizing s with
  | nil => exact h₀
  | cons e es ih => exact ih (hstep s e h₀)

/-- Conditions that agree under a third one hold of the same runs whose steps meet that one. -/
theorem eachStep_congr {A B U : σ → ε → Prop} (hAB : ∀ s e, U s e → (A s e ↔ B s e)) {s : σ}
    {es : List ε} (hU : EachStep step U s es) : EachStep step A s es ↔ EachStep step B s es := by
  induction es generalizing s with
  | nil => exact Iff.rfl
  | cons e es ih => exact and_congr (hAB s e hU.1) (ih hU.2)

/-- **Agreeing conditions**: if under an invariant two conditions agree, and the invariant outlives
a step that meets the first, then a run meets both or neither. -/
theorem eachStep_iff {I : σ → Prop} {A B : σ → ε → Prop} (hAB : ∀ s e, I s → (A s e ↔ B s e))
    (hI : ∀ s e, I s → A s e → I (step s e)) {s : σ} {es : List ε} (h₀ : I s) :
    EachStep step A s es ↔ EachStep step B s es := by
  induction es generalizing s with
  | nil => exact Iff.rfl
  | cons e es ih =>
    constructor
    · rintro ⟨hA, h⟩
      exact ⟨(hAB s e h₀).1 hA, (ih (hI s e h₀ hA)).1 h⟩
    · rintro ⟨hB, h⟩
      have hA : A s e := (hAB s e h₀).2 hB
      exact ⟨hA, (ih (hI s e h₀ hA)).2 h⟩

/-- What every step preserves holds in every state of a run. -/
theorem always_of_forall_step {P : σ → Prop} (hstep : ∀ s e, P s → P (step s e)) {s : σ}
    (h₀ : P s) (es : List ε) : Always step P s es := by
  induction es generalizing s with
  | nil => exact h₀
  | cons e es ih => exact ⟨h₀, ih (hstep s e h₀)⟩

/-- **What holds at the end held throughout**, where no step makes good what failed before. -/
theorem always_iff_last {I P : σ → Prop} (hI : ∀ s e, I s → I (step s e))
    (hback : ∀ s e, I s → P (step s e) → P s) {s : σ} {es : List ε} (hs : I s) :
    Always step P s es ↔ P (exec step s es) := by
  refine ⟨Always.last, fun h => ?_⟩
  induction es generalizing s with
  | nil => exact h
  | cons e es ih =>
    have hrest := ih (hI s e hs) h
    exact ⟨hback s e hs hrest.head, hrest⟩

/-- **Exact condition of a restricted run**: the same where only the steps that meet `U` keep the
invariant, for a run whose steps all meet it. -/
theorem always_iff_eachStep_of {I P : σ → Prop} {C U : σ → ε → Prop}
    (hI : ∀ s e, I s → U s e → I (step s e))
    (hstep : ∀ s e, I s → P s → U s e → (P (step s e) ↔ C s e)) {s : σ} {es : List ε}
    (hI₀ : I s) (h₀ : P s) (hU : EachStep step U s es) :
    Always step P s es ↔ EachStep step C s es := by
  induction es generalizing s with
  | nil => exact ⟨fun _ => trivial, fun _ => h₀⟩
  | cons e es ih =>
    constructor
    · rintro ⟨-, h⟩
      have hP : P (step s e) := h.head
      exact ⟨(hstep s e hI₀ h₀ hU.1).1 hP, (ih (hI s e hI₀ hU.1) hP hU.2).1 h⟩
    · rintro ⟨hC, h⟩
      have hP : P (step s e) := (hstep s e hI₀ h₀ hU.1).2 hC
      exact ⟨h₀, (ih (hI s e hI₀ hU.1) hP hU.2).2 h⟩

/-- **Exact condition of a run**: under an invariant `I` of all steps, if a step from a good state
leads to a good state exactly when it meets `C`, then a run from a good state passes only through
good states exactly when all of its steps meet `C`. -/
theorem always_iff_eachStep {I P : σ → Prop} {C : σ → ε → Prop}
    (hI : ∀ s e, I s → I (step s e))
    (hstep : ∀ s e, I s → P s → (P (step s e) ↔ C s e)) {s : σ} {es : List ε}
    (hI₀ : I s) (h₀ : P s) : Always step P s es ↔ EachStep step C s es :=
  always_iff_eachStep_of (fun s e h _ => hI s e h) (fun s e h hP _ => hstep s e h hP) hI₀ h₀
    (eachStep_true s es)

/-- **Exact condition through an invariant of good runs**: if `Q` implies `P`, a step from a state
that meets `Q` to one that meets `P` meets `C`, and the steps that meet `C` preserve `Q`, then a run
from such a state keeps `P` exactly when all of its steps meet `C`. -/
theorem always_iff_eachStep_of_good {P Q : σ → Prop} {C : σ → ε → Prop} (hP : ∀ s, Q s → P s)
    (hC : ∀ s e, Q s → P (step s e) → C s e) (hQ : ∀ s e, Q s → C s e → Q (step s e)) {s : σ}
    {es : List ε} (h₀ : Q s) : Always step P s es ↔ EachStep step C s es := by
  induction es generalizing s with
  | nil => exact ⟨fun _ => trivial, fun _ => hP s h₀⟩
  | cons e es ih =>
    constructor
    · rintro ⟨-, h⟩
      have hCe : C s e := hC s e h₀ h.head
      exact ⟨hCe, (ih (hQ s e h₀ hCe)).1 h⟩
    · rintro ⟨hCe, h⟩
      exact ⟨hP s h₀, (ih (hQ s e h₀ hCe)).2 h⟩

/-- **Exact condition of states and steps**: if, from a good state, a step that does as it should and
leads to a good state is one that meets `C`, then a run does so throughout exactly when all of its
steps meet `C`; here for a run whose steps all meet `U`. -/
theorem always_and_eachStep_iff_of {P : σ → Prop} {K C U : σ → ε → Prop}
    (hstep : ∀ s e, P s → U s e → (P (step s e) ∧ K s e ↔ C s e)) {s : σ} {es : List ε} (h₀ : P s)
    (hU : EachStep step U s es) :
    Always step P s es ∧ EachStep step K s es ↔ EachStep step C s es := by
  induction es generalizing s with
  | nil => exact ⟨fun _ => trivial, fun _ => ⟨h₀, trivial⟩⟩
  | cons e es ih =>
    constructor
    · rintro ⟨⟨-, hP⟩, hK, hKs⟩
      exact ⟨(hstep s e h₀ hU.1).1 ⟨hP.head, hK⟩, (ih hP.head hU.2).1 ⟨hP, hKs⟩⟩
    · rintro ⟨hC, hCs⟩
      obtain ⟨hP, hK⟩ := (hstep s e h₀ hU.1).2 hC
      obtain ⟨hPs, hKs⟩ := (ih hP hU.2).2 hCs
      exact ⟨⟨h₀, hPs⟩, hK, hKs⟩

/-- The same for every run. -/
theorem always_and_eachStep_iff {P : σ → Prop} {K C : σ → ε → Prop}
    (hstep : ∀ s e, P s → (P (step s e) ∧ K s e ↔ C s e)) {s : σ} {es : List ε} (h₀ : P s) :
    Always step P s es ∧ EachStep step K s es ↔ EachStep step C s es :=
  always_and_eachStep_iff_of (fun s e h _ => hstep s e h) h₀ (eachStep_true s es)

end Run
